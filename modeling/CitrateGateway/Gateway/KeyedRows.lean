import CitrateGateway.Gateway.ProxyKeys
import CitrateGateway.Gateway.RowKeys

/-!
# The keys that the store writes

Every call builds the keys of its rows from the hash of the token it was given, or writes a row
that it has found. So in every run each row of the store has a well-formed key.
-/

namespace Gateway.KeyStore
set_option autoImplicit false
open Words Effects Durable Vault

section Calls

/-- A key built by the store, or one at which a row was found before. -/
def Vouched (past : List Event) (k : RowKey) : Prop :=
  WellFormed k ∨ ∃ v, (⟨.get k, .ok (some v)⟩ : Event) ∈ past

def WritesVouched (past : List Event) : Event → Prop
  | ⟨.put row, _⟩ | ⟨.putSynced row, _⟩ => Vouched past row.1
  | ⟨.writeBatch group, _⟩ => ∀ row ∈ group, Vouched past row.1
  | _ => True

/-- A piece of a call that writes rows with well-formed keys only. -/
def Vouches {α : Type} (p : M α) : Prop :=
  ∀ past, p.Meets (fun _ => True) WritesVouched (fun _ _ => True) past

def Op.isRead : Op → Bool
  | .put _ | .putSynced _ | .writeBatch _ => false
  | _ => true

variable {α β : Type} {p : M α} {hashKeyId : String → String}

theorem vouches_pure (a : α) : Vouches (pure a : M α) := fun _ => trivial

theorem Vouches.bind {f : α → M β} (hp : Vouches p) (hf : ∀ a, Vouches (f a)) :
    Vouches (p >>= f) := by
  intro past
  exact Prog.Meets.bind (hp past) fun past' a _ => hf a past'

theorem vouches_read {o : Op} (h : o.isRead = true) :
    Vouches (.perform (E := StoreSig) o : M o.Ans) := by
  intro past
  refine Prog.meets_perform.2 fun a _ => ?_
  cases o <;> first | exact ⟨trivial, trivial⟩ | cases h

theorem vouches_get (k : RowKey) : Vouches (get k) := vouches_read (o := .get k) rfl

theorem vouches_contains (k : RowKey) : Vouches (contains k) := vouches_read (o := .contains k) rfl

theorem vouches_put_bind {row : Row} {f : Except ValErr Unit → M α} (h : WellFormed row.1)
    (hf : ∀ w, Vouches (f w)) : Vouches (put row >>= f) := by
  intro past
  refine Prog.meets_perform_bind.2 fun w _ => ⟨?_, hf w _⟩
  exact Or.inl h

theorem vouches_putSynced_bind {row : Row} {f : Except ValErr Unit → M α}
    (h : WellFormed row.1) (hf : ∀ w, Vouches (f w)) : Vouches (putSynced row >>= f) := by
  intro past
  refine Prog.meets_perform_bind.2 fun w _ => ⟨?_, hf w _⟩
  exact Or.inl h

theorem vouches_writeBatch_bind {group : List Row} {f : Except ValErr Unit → M α}
    (h : ∀ row ∈ group, WellFormed row.1) (hf : ∀ w, Vouches (f w)) :
    Vouches (writeBatch group >>= f) := by
  intro past
  refine Prog.meets_perform_bind.2 fun w _ => ⟨?_, hf w _⟩
  intro row hrow
  exact Or.inl (h row hrow)

theorem Vouches.withLock {h : String} (hp : Vouches p) : Vouches (withLock h p) :=
  (vouches_read (o := .lock h) rfl).bind fun _ => hp.bind fun _ =>
    (vouches_read (o := .unlock h) rfl).bind fun _ => vouches_pure _

theorem Vouches.withPool (hp : Vouches p) : Vouches (withPool p) :=
  (vouches_read (o := .lockPool) rfl).bind fun _ => hp.bind fun _ =>
    (vouches_read (o := .unlockPool) rfl).bind fun _ => vouches_pure _

theorem createBalanceKey_vouches (hhash : ∀ keyId, BearerHash (hashKeyId keyId)) (label : String)
    (balance : U256) (depositAddress : H160) (backing : UInt8) :
    Vouches (createBalanceKey hashKeyId label balance depositAddress backing) := by
  refine (vouches_read (o := .newUuid) rfl).bind fun uuid => ?_
  refine (vouches_read (o := .nowSecs) rfl).bind fun now => ?_
  refine vouches_putSynced_bind (hhash _) fun w => ?_
  cases w <;> exact vouches_pure _

theorem getBalanceRecord_vouches (keyId : String) : Vouches (getBalanceRecord hashKeyId keyId) := by
  refine (vouches_get _).bind fun found => ?_
  cases found <;> exact vouches_pure _

theorem debitBalance_vouches (hhash : ∀ keyId, BearerHash (hashKeyId keyId)) (keyId : String)
    (amount : U256) : Vouches (debitBalance hashKeyId keyId amount) := by
  refine Vouches.withLock ((vouches_get _).bind fun found => ?_)
  match found with
  | .error e => exact vouches_pure _
  | .ok none => exact vouches_pure _
  | .ok (some r) =>
    simp only
    split
    · exact vouches_pure _
    split
    · exact vouches_pure _
    · refine vouches_putSynced_bind (hhash _) fun w => ?_
      cases w <;> exact vouches_pure _

theorem refundBalance_vouches (hhash : ∀ keyId, BearerHash (hashKeyId keyId)) (keyId : String)
    (amount : U256) : Vouches (refundBalance hashKeyId keyId amount) := by
  refine Vouches.withLock ((vouches_get _).bind fun found => ?_)
  match found with
  | .error e => exact vouches_pure _
  | .ok none => exact vouches_pure _
  | .ok (some r) =>
    refine vouches_putSynced_bind (hhash _) fun w => ?_
    cases w <;> exact vouches_pure _

theorem settleBatchRefund_vouches (hhash : ∀ keyId, BearerHash (hashKeyId keyId)) (keyId : String)
    (refund : U256) (batchId : String) (b : PersistedBatch) :
    Vouches (settleBatchRefund hashKeyId keyId refund batchId b) := by
  refine Vouches.withLock ((vouches_contains _).bind fun marked => ?_)
  match marked with
  | .error e => exact vouches_pure _
  | .ok true =>
    refine vouches_put_bind trivial fun w => ?_
    match w with
    | .error e => exact vouches_pure _
    | .ok () =>
      refine (vouches_get _).bind fun found => ?_
      rcases found with e | ⟨_ | r⟩ <;> exact vouches_pure _
  | .ok false =>
    refine (vouches_get _).bind fun found => ?_
    match found with
    | .error e => exact vouches_pure _
    | .ok none => exact vouches_pure _
    | .ok (some r) =>
      refine vouches_writeBatch_bind ?_ fun w => ?_
      · intro row hrow
        simp only [List.mem_cons, List.not_mem_nil, or_false] at hrow
        rcases hrow with rfl | rfl | rfl
        · exact hhash keyId
        · trivial
        · trivial
      · cases w <;> exact vouches_pure _

theorem recordRefundOwed_vouches (batchId : String) (payer : Option H160) (refund : U256)
    (b : PersistedBatch) : Vouches (recordRefundOwed batchId payer refund b) := by
  refine (vouches_read (o := .nowSecs) rfl).bind fun now => ?_
  refine vouches_writeBatch_bind ?_ fun w => vouches_pure _
  intro row hrow
  simp only [List.mem_cons, List.not_mem_nil, or_false] at hrow
  rcases hrow with rfl | rfl | rfl <;> trivial

theorem debitModelBudget_vouches (hhash : ∀ keyId, BearerHash (hashKeyId keyId))
    (keyId model : String) (amount : U256) :
    Vouches (debitModelBudget hashKeyId keyId model amount) := by
  refine Vouches.withLock ((vouches_get _).bind fun found => ?_)
  match found with
  | .error e => exact vouches_pure _
  | .ok none => exact vouches_pure _
  | .ok (some cur) =>
    simp only
    split
    · exact vouches_pure _
    · refine vouches_putSynced_bind (hhash _) fun w => ?_
      cases w <;> exact vouches_pure _

theorem refundModelBudget_vouches (hhash : ∀ keyId, BearerHash (hashKeyId keyId))
    (keyId model : String) (amount : U256) :
    Vouches (refundModelBudget hashKeyId keyId model amount) := by
  refine Vouches.withLock ((vouches_get _).bind fun found => ?_)
  match found with
  | .error e => exact vouches_pure _
  | .ok none => exact vouches_pure _
  | .ok (some cur) => exact vouches_putSynced_bind (hhash _) fun w => vouches_pure _

/-- The hash to revoke comes from outside; what is written there was there. -/
theorem revokeHash_vouches (h : String) : Vouches (revokeHash h) := by
  intro past
  refine Prog.meets_perform_bind.2 fun found _ => ⟨trivial, ?_⟩
  match found with
  | .error e => exact vouches_pure _ _
  | .ok (some r) =>
    refine Prog.meets_perform_bind.2 fun w _ => ⟨?_, vouches_pure _ _⟩
    exact .inr ⟨r, List.mem_cons_self⟩
  | .ok none =>
    refine Vouches.withLock (fun past' => ?_) _
    refine Prog.meets_perform_bind.2 fun answer _ => ⟨trivial, ?_⟩
    match answer with
    | .error e => exact vouches_pure _ _
    | .ok none => exact vouches_pure _ _
    | .ok (some r) =>
      refine Prog.meets_perform_bind.2 fun w _ => ⟨?_, vouches_pure _ _⟩
      exact .inr ⟨r, List.mem_cons_self⟩

theorem method_vouches (hhash : ∀ keyId, BearerHash (hashKeyId keyId)) (m : Method) :
    Vouches (m.prog hashKeyId) := by
  cases m with
  | createBalanceKey label balance depositAddress backing =>
    exact createBalanceKey_vouches hhash label balance depositAddress backing
  | getBalanceRecord keyId => exact getBalanceRecord_vouches keyId
  | debitBalance keyId amount => exact debitBalance_vouches hhash keyId amount
  | refundBalance keyId amount => exact refundBalance_vouches hhash keyId amount
  | persistBatch batchId b =>
    exact vouches_put_bind trivial fun _ => vouches_pure _
  | loadBatches =>
    refine (vouches_read (o := .scanBatches) rfl).bind fun found => ?_
    cases found <;> exact vouches_pure _
  | batchWasSettled batchId =>
    refine (vouches_contains _).bind fun found => ?_
    cases found <;> exact vouches_pure _
  | markBatchSettled batchId b =>
    refine vouches_writeBatch_bind ?_ fun _ => vouches_pure _
    intro row hrow
    simp only [List.mem_cons, List.not_mem_nil, or_false] at hrow
    rcases hrow with rfl | rfl <;> trivial
  | settleBatchRefund keyId refund batchId b =>
    exact settleBatchRefund_vouches hhash keyId refund batchId b
  | recordRefundOwed batchId payer refund b => exact recordRefundOwed_vouches batchId payer refund b
  | setModelBudget keyId model amount =>
    exact vouches_putSynced_bind (hhash _) fun _ => vouches_pure _
  | debitModelBudget keyId model amount => exact debitModelBudget_vouches hhash keyId model amount
  | refundModelBudget keyId model amount =>
    exact refundModelBudget_vouches hhash keyId model amount
  | revoke keyId => exact revokeHash_vouches (hashKeyId keyId)

theorem createKey_vouches (hhash : ∀ keyId, BearerHash (hashKeyId keyId)) (label : String)
    (quotaRps : UInt32) (dailyQuota : UInt64) :
    Vouches (createKey hashKeyId label quotaRps dailyQuota) := by
  refine (vouches_read (o := .newUuid) rfl).bind fun uuid => ?_
  refine (vouches_read (o := .nowSecs) rfl).bind fun now => ?_
  refine vouches_put_bind (hhash _) fun w => ?_
  cases w <;> exact vouches_pure _

theorem retire_vouches (previous : Option String) : Vouches (retire previous) := by
  cases previous with
  | none => exact vouches_pure _
  | some old =>
    refine (revokeHash_vouches old).bind fun answer => ?_
    match answer with
    | .ok () => exact vouches_pure _
    | .error e => cases e <;> exact vouches_pure _

theorem rotateMemberKey_vouches (hhash : ∀ keyId, BearerHash (hashKeyId keyId)) (subhash : String)
    (quotaRps : UInt32) (dailyQuota : UInt64) :
    Vouches (rotateMemberKey hashKeyId subhash quotaRps dailyQuota) := by
  have hprevious : Vouches (memberKeyHash subhash) := by
    refine (vouches_get _).bind fun found => ?_
    cases found <;> exact vouches_pure _
  refine Vouches.withLock (hprevious.bind fun answer => ?_)
  cases answer with
  | error e => exact vouches_pure _
  | ok previous =>
    refine (createKey_vouches hhash _ _ _).bind fun created => ?_
    cases created with
    | error e => exact vouches_pure _
    | ok id =>
      refine (retire_vouches previous).bind fun retired => ?_
      cases retired with
      | error e => exact vouches_pure _
      | ok u =>
        refine vouches_putSynced_bind trivial fun w => ?_
        cases w <;> exact vouches_pure _

theorem readCounter_vouches (owner : QuotaOwner) (day : String) :
    Vouches (readCounter owner day) := by
  refine (vouches_get _).bind fun answer => ?_
  rcases answer with e | ⟨_ | n⟩ <;> exact vouches_pure _

theorem writeCounter_vouches (owner : QuotaOwner) (day : String)
    (h : WellFormed (.quota owner day)) (n : UInt64) : Vouches (writeCounter owner day n) := by
  refine vouches_put_bind h fun w => ?_
  cases w <;> exact vouches_pure _

theorem dailyQuotaExceeded_vouches : Vouches (dailyQuotaExceeded : M (Except ConsumeError α)) :=
  (vouches_read (o := .secondsUntilNextUtcDay) rfl).bind fun _ => vouches_pure _

theorem drawPool_vouches (day : String) (cap : UInt64) : Vouches (drawPool day cap) := by
  refine Vouches.withPool ((readCounter_vouches _ _).bind fun answer => ?_)
  cases answer with
  | error e => exact vouches_pure _
  | ok used =>
    simp only
    split
    · exact dailyQuotaExceeded_vouches
    · exact writeCounter_vouches .memberPool day trivial _

theorem chargeDay_vouches {h : String} (hh : BearerHash h) (dailyQuota cap : UInt64) :
    Vouches (chargeDay h dailyQuota cap) := by
  refine Vouches.withLock ((vouches_read (o := .today) rfl).bind fun day => ?_)
  have hread : Vouches (if dailyQuota > 0 then readCounter (.key h) day else return .ok 0) := by
    split
    · exact readCounter_vouches _ _
    · exact vouches_pure _
  have hdraw : Vouches (if cap > 0 then drawPool day cap else return .ok ()) := by
    split
    · exact drawPool_vouches _ _
    · exact vouches_pure _
  refine hread.bind fun answer => ?_
  cases answer with
  | error e => exact vouches_pure _
  | ok cur =>
    simp only
    split
    · exact dailyQuotaExceeded_vouches
    · refine hdraw.bind fun drawn => ?_
      cases drawn with
      | error e => exact vouches_pure _
      | ok u =>
        simp only
        split
        · exact writeCounter_vouches (.key h) day hh _
        · exact vouches_pure _

theorem tryConsume_vouches (hhash : ∀ keyId, BearerHash (hashKeyId keyId)) (keyId : String) :
    Vouches (tryConsume hashKeyId keyId) := by
  refine (vouches_get _).bind fun found => ?_
  match found with
  | .error e => exact vouches_pure _
  | .ok none => exact vouches_pure _
  | .ok (some record) =>
    have hrate : Vouches (passesRate (hashKeyId keyId) record.quotaRps) := by
      unfold passesRate
      split
      · exact (vouches_read (o := .nowSecs) rfl).bind fun now =>
          vouches_read (o := .checkRate (hashKeyId keyId) now record.quotaRps) rfl
      · exact vouches_pure _
    have hcap : Vouches (poolCap record.label) := by
      unfold poolCap
      split
      · exact vouches_read (o := .memberPoolDaily) rfl
      · exact vouches_pure _
    simp only
    split
    · exact vouches_pure _
    · refine hrate.bind fun passed => ?_
      split
      · refine hcap.bind fun cap => ?_
        split
        · refine (chargeDay_vouches (hhash keyId) _ _).bind fun charged => ?_
          cases charged <;> exact vouches_pure _
        · exact vouches_pure _
      · exact vouches_pure _

theorem proxy_vouches (hhash : ∀ keyId, BearerHash (hashKeyId keyId)) (m : ProxyMethod) :
    Vouches (m.prog hashKeyId) := by
  cases m with
  | createKey label quotaRps dailyQuota => exact createKey_vouches hhash label quotaRps dailyQuota
  | revoke keyId => exact revokeHash_vouches (hashKeyId keyId)
  | revokeHash hash => exact revokeHash_vouches hash
  | rotateMemberKey subhash quotaRps dailyQuota =>
    exact rotateMemberKey_vouches hhash subhash quotaRps dailyQuota
  | setMemberPoolDaily cap => exact vouches_read (o := .setMemberPoolDaily cap) rfl
  | tryConsume keyId => exact tryConsume_vouches hhash keyId

end Calls

section Runs
variable {hashKeyId : String → String} {Job Res : Type} {prog : Job → M Res}
variable {ok : (system hashKeyId prog).State → (system hashKeyId prog).Action → Prop}
variable {rows₀ : Rows} {s : (system hashKeyId prog).State}

/-- The rows of the store have well-formed keys, and so had those that were ever found. -/
structure Keyed (s : (system hashKeyId prog).State) : Prop where
  rows : s.shared.store.rows.All fun k _ => WellFormed k
  found : ∀ t k v, (t, (⟨.get k, .ok (some v)⟩ : Event)) ∈ s.log → WellFormed k

theorem Keyed.vouched {t : Nat} {k : RowKey} (h : Keyed s)
    (hk : Vouched (System.trace s.log t) k) : WellFormed k := by
  rcases hk with hk | ⟨v, hv⟩
  · exact hk
  · exact h.found t k v (System.mem_trace.1 hv)

theorem Keyed.accessed {t : Nat} {e : Event} {sh' : Shared} (h : Keyed s)
    (hwrites : WritesVouched (System.trace s.log t) e)
    (hacc : Accessed hashKeyId s.shared t e sh') :
    sh'.store.rows.All fun k _ => WellFormed k := by
  cases hacc with
  | put row => exact h.rows.put (h.vouched hwrites)
  | putSynced row =>
    apply h.rows.commit
    intro row' hrow
    rw [List.mem_singleton.1 hrow]
    exact h.vouched hwrites
  | writeBatch group => exact h.rows.commit fun row hrow => h.vouched (hwrites row hrow)
  | _ => exact h.rows

theorem keyed_of_run (hprog : ∀ j, Vouches (prog j))
    (hrows : rows₀.All fun k _ => WellFormed k) (h : Run hashKeyId prog rows₀ ok s) :
    Keyed s := by
  let C : System.Contract (system hashKeyId prog) := {
    rely := fun _ => True
    guar := fun _ => WritesVouched
    post := fun _ _ _ => True
    meets := fun j => hprog j [] }
  have hserved : C.Served ok := fun _ _ _ _ _ _ _ _ => trivial
  refine h.invariant Keyed ⟨hrows, fun t k v hmem => by cases hmem⟩ ?_
  intro s s' act hr hs hok hstep
  cases hstep with
  | start j sh hstart =>
    cases hstart
    exact ⟨hs.rows, hs.found⟩
  | exec t c j o k a sh htask hhandle =>
    have hacc := handle_cases hhandle
    have hwrites := (Prog.meets_op.1 (hr.meets C hserved htask) a trivial).1
    refine ⟨by rw [advance_store]; exact hs.accessed hwrites hacc, ?_⟩
    intro t' k' v hmem
    rcases List.mem_cons.1 hmem with heq | hmem
    · obtain ⟨-, he⟩ := Prod.mk.inj heq
      rw [← he] at hacc
      exact hs.rows.get (get_of_accessed hacc)
    · exact hs.found t' k' v hmem
  | drop t j o k htask => exact ⟨hs.rows, hs.found⟩
  | world w sh hworld =>
    cases w with
    | restart mask =>
      cases hworld
      exact ⟨hs.rows.crash mask, hs.found⟩

variable (hashKeyId) in
/-- Any of the store's calls. -/
abbrev storeCalls : System StoreSig :=
  system hashKeyId fun j : Method ⊕ ProxyMethod => match j with
    | .inl m => do
      let a ← m.prog hashKeyId
      return (.inl ⟨m, a⟩ : ((m : Method) × m.Ans) ⊕ ((m : ProxyMethod) × m.Ans))
    | .inr m => do
      let a ← m.prog hashKeyId
      return .inr ⟨m, a⟩

theorem storeCalls_vouch (hhash : ∀ keyId, BearerHash (hashKeyId keyId))
    (j : Method ⊕ ProxyMethod) : Vouches ((storeCalls hashKeyId).prog j) := by
  cases j with
  | inl m => exact (method_vouches hhash m).bind fun _ => vouches_pure _
  | inr m => exact (proxy_vouches hhash m).bind fun _ => vouches_pure _

end Runs

end Gateway.KeyStore
