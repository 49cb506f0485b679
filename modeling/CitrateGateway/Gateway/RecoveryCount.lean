import CitrateGateway.Gateway.BatchDuty
import CitrateGateway.Gateway.BatchRows
import CitrateGateway.Gateway.Conservation

/-!
# What recovery reports

`recover` counts a batch as settled once it has tried to settle it, whatever became of the try.
Here the pass is run alone, every access of the store meeting what the environment decides, and
each turn of its loop is kept with the store before and after it.
-/

namespace Gateway.App
set_option autoImplicit false
open Words Effects Durable
open KeyStore (Store alone alone_op alone_withLock batchRows mem_batchRows)

section Counting
variable (persist : Bool) (fromSlice : PersistedBatch → Option PersistedBatch)

/-- One turn of `recover`; the result tells whether it adds to the settled batches. -/
def recoverBatchCounted (id : String) (snapshot : PersistedBatch) : M Bool := do
  let settled := (← store (.batchWasSettled id)).toOption.getD false
  if settled then
    live (.insert id snapshot.intoRecord)
    return false
  else
    let record := snapshot.intoRecord.reconcile
    settlePersisted id record.payerApiKeyId record.x402Payer record.refundedGrains
      (.fromRecord record true)
    live (.insert id record)
    return true

/-- `fromSlice` reads the bytes of a row, which stand for the snapshot they were written from. -/
def recoverBatchesCounted : List (String × PersistedBatch) → Nat → Nat → M (Nat × Nat)
  | [], rehydrated, settled => return (rehydrated, settled)
  | (id, bytes) :: rest, rehydrated, settled =>
    match fromSlice bytes with
    | none => recoverBatchesCounted rest rehydrated settled
    | some snapshot => do
      let counted ← recoverBatchCounted id snapshot
      recoverBatchesCounted rest (rehydrated + 1) (settled + if counted then 1 else 0)

def recoverCounted : M (Nat × Nat) :=
  if persist then do
    match ← store .loadBatches with
    | .error _ => return (0, 0)
    | .ok found => recoverBatchesCounted fromSlice found 0 0
  else return (0, 0)

/-- The record that recovery makes of a batch it finds unsettled. -/
abbrev reconciled (snapshot : PersistedBatch) : BatchRecord := snapshot.intoRecord.reconcile

/-- What it writes of that record. -/
def settlement (id : String) (snapshot : PersistedBatch) : BatchCall :=
  settleCall id (reconciled snapshot).payerApiKeyId (reconciled snapshot).x402Payer
    (reconciled snapshot).refundedGrains (.fromRecord (reconciled snapshot) true)

/-- A turn reads the marker, and settles unless it is there. -/
theorem recoverBatchCounted_eq (id : String) (snapshot : PersistedBatch) :
    recoverBatchCounted id snapshot =
      .op (.store (.batchWasSettled id)) fun a =>
        if a.toOption.getD false = true then
          .op (.live (.insert id snapshot.intoRecord)) fun _ => pure false
        else
          .op (.store (settlement id snapshot)) fun _ =>
            .op (.live (.insert id snapshot.intoRecord.reconcile)) fun _ => pure true := by
  refine congrArg (Prog.op (E := AppSig) (.store (.batchWasSettled id))) (funext fun a => ?_)
  by_cases h : a.toOption.getD false = true
  · rw [if_pos h]
    show (if a.toOption.getD false = true then _ else _ : M Bool) = _
    rw [if_pos h]
    rfl
  · rw [if_neg h]
    show (if a.toOption.getD false = true then _ else _ : M Bool) = _
    rw [if_neg h, settlePersisted_eq]
    rfl

theorem recoverBatch_eq (id : String) (snapshot : PersistedBatch) :
    recoverBatch id snapshot = recoverBatchCounted id snapshot >>= fun _ => pure () := by
  rw [recoverBatchCounted_eq]
  refine congrArg (Prog.op (E := AppSig) (.store (.batchWasSettled id))) (funext fun a => ?_)
  show (if a.toOption.getD false = true then _ else _ : M Unit) =
    (if a.toOption.getD false = true then _ else _ : M Bool) >>= _
  by_cases h : a.toOption.getD false = true
  · rw [if_pos h, if_pos h]
    rfl
  · rw [if_neg h, if_neg h, settlePersisted_eq]
    rfl

theorem recoverBatches_eq (found : List (String × PersistedBatch)) (rehydrated settled : Nat) :
    recoverBatches found =
      recoverBatchesCounted some found rehydrated settled >>= fun _ => pure () := by
  induction found generalizing rehydrated settled with
  | nil => rfl
  | cons row found ih =>
    obtain ⟨id, snapshot⟩ := row
    show (recoverBatch id snapshot >>= fun _ => recoverBatches found) =
      (recoverBatchCounted id snapshot >>= fun counted =>
        recoverBatchesCounted some found (rehydrated + 1) (settled + if counted then 1 else 0))
          >>= fun _ => pure ()
    rw [recoverBatch_eq, Prog.bind_assoc, Prog.bind_assoc]
    exact congrArg _ (funext fun counted => ih (rehydrated + 1) _)

/-- Recovery as the node runs it is the counting pass, its counts dropped. -/
theorem recover_eq (config : AppConfig) :
    recover config = recoverCounted config.persist some >>= fun _ => pure () := by
  unfold recover recoverCounted
  cases config.persist with
  | false => rfl
  | true =>
    refine congrArg (Prog.op (E := AppSig) (.store .loadBatches)) (funext fun a => ?_)
    cases a with
    | error e => rfl
    | ok found => exact recoverBatches_eq found 0 0

end Counting

section Solo

/-- What the environment decides of each access, one list for each call. -/
abbrev Inputs := List (List KeyStore.Input)

variable (hashKeyId : String → String) {α β : Type}

/-- A task that has the store to itself; each of its calls takes the next list of inputs. -/
def solo : M α → Inputs → Store → Option (α × Inputs × Store)
  | .ret a, ins, st => some (a, ins, st)
  | .op (.store c) k, cs :: ins, st =>
    (alone hashKeyId (c.toMethod.prog hashKeyId) cs st).bind fun r => solo (k r.1) ins r.2
  | .op (.live (.insert _ _)) k, ins, st => solo (k ()) ins st
  | .op _ _, _, _ => none

variable {hashKeyId} {ins out : Inputs} {st st' : Store}

@[simp] theorem solo_pure (a : α) : solo hashKeyId (pure a : M α) ins st = some (a, ins, st) := rfl

theorem solo_bind (p : M α) (f : α → M β) (ins : Inputs) (st : Store) :
    solo hashKeyId (p >>= f) ins st =
      (solo hashKeyId p ins st).bind fun r => solo hashKeyId (f r.1) r.2.1 r.2.2 := by
  induction p generalizing ins st with
  | ret a => rfl
  | op o k ih =>
    cases o with
    | store c =>
      cases ins with
      | nil => rfl
      | cons cs ins =>
        rw [Prog.op_bind, solo, solo, Option.bind_assoc]
        exact congrArg _ (funext fun r => ih r.1 ins r.2)
    | live a =>
      cases a with
      | insert id record => exact ih () ins st
      | _ => rfl
    | _ => rfl

theorem solo_store {c : BatchCall} {k : c.toMethod.Ans → M α} {r : α}
    (h : solo hashKeyId (.op (.store c) k) ins st = some (r, out, st')) :
    ∃ cs rest a mid, ins = cs :: rest ∧
      alone hashKeyId (c.toMethod.prog hashKeyId) cs st = some (a, mid) ∧
      solo hashKeyId (k a) rest mid = some (r, out, st') := by
  cases ins with
  | nil => cases h
  | cons cs rest =>
    obtain ⟨⟨a, mid⟩, hcall, hrest⟩ := Option.bind_eq_some_iff.1 h
    exact ⟨cs, rest, a, mid, rfl, hcall, hrest⟩

/-- Everything one turn can do. -/
inductive Turned (hashKeyId : String → String) (id : String) (snapshot : PersistedBatch) :
    Inputs → Store → Bool → Inputs → Store → Prop where
  | found {cs : List KeyStore.Input} {ins : Inputs} {st : Store}
      (hmarked : (st.rows.get (.batchset id)).isSome = true) :
      Turned hashKeyId id snapshot ((.ok :: cs) :: ins) st false ins st
  | tried {c : KeyStore.Input} {cs cs' : List KeyStore.Input} {ins : Inputs} {st st' : Store}
      {a : (settlement id snapshot).toMethod.Ans}
      (hopen : c = .ok → st.rows.get (.batchset id) = none)
      (hcall : alone hashKeyId ((settlement id snapshot).toMethod.prog hashKeyId) cs' st =
        some (a, st')) :
      Turned hashKeyId id snapshot ((c :: cs) :: cs' :: ins) st true ins st'

theorem batchWasSettled_cases {id : String} {cs : List KeyStore.Input} {a : Except StoreError Bool}
    (h : alone hashKeyId (KeyStore.batchWasSettled id) cs st = some (a, st')) :
    st' = st ∧ ∃ c rest, cs = c :: rest ∧
      ((c = .ok ∧ a = .ok (st.rows.get (.batchset id)).isSome) ∨
        ∃ e, c = .fail e ∧ a = .error (.ofValErr e)) := by
  obtain ⟨c, rest, b, mid, rfl, hacc, hret⟩ := alone_op h
  cases c <;> cases hacc <;> cases hret
  · exact ⟨rfl, _, _, rfl, Or.inl ⟨rfl, rfl⟩⟩
  · exact ⟨rfl, _, _, rfl, Or.inr ⟨_, rfl, rfl⟩⟩

theorem turned {id : String} {snapshot : PersistedBatch} {counted : Bool}
    (h : solo hashKeyId (recoverBatchCounted id snapshot) ins st = some (counted, out, st')) :
    Turned hashKeyId id snapshot ins st counted out st' := by
  rw [recoverBatchCounted_eq] at h
  obtain ⟨cs, rest, a, mid, rfl, hread, hturn⟩ := solo_store h
  obtain ⟨rfl, c, cs, rfl, hc⟩ := batchWasSettled_cases hread
  have htry : (c = .ok → mid.rows.get (.batchset id) = none) → a.toOption.getD false = false →
      Turned hashKeyId id snapshot ((c :: cs) :: rest) mid counted out st' := by
    intro hopen ha
    rw [ha, if_neg Bool.false_ne_true] at hturn
    obtain ⟨cs', ins, b, mid', rfl, hcall, hlive⟩ := solo_store hturn
    cases hlive
    exact .tried hopen hcall
  rcases hc with ⟨rfl, ha⟩ | ⟨e, rfl, ha⟩
  · cases hmark : mid.rows.get (.batchset id) with
    | none =>
      apply htry (fun _ => hmark)
      rw [ha, hmark]
      rfl
    | some u =>
      have hsettled : a.toOption.getD false = true := by
        rw [ha, hmark]
        rfl
      rw [hsettled, if_pos rfl] at hturn
      cases hturn
      exact .found (by rw [hmark]; rfl)
  · apply htry (fun h => by cases h)
    rw [ha]
    rfl

end Solo

section Settlement
variable {hashKeyId : String → String} {cs : List KeyStore.Input} {st st' : Store}

theorem access_writeBatch {group : List Row} {c : KeyStore.Input}
    {a : KeyStore.Op.Ans (.writeBatch group)} {mid : Store}
    (h : st.access hashKeyId (.writeBatch group) c = some (a, mid)) :
    (c = .ok ∧ mid.rows = st.rows.commit group) ∨ ∃ e, c = .fail e ∧ mid = st := by
  cases c <;> cases h
  · exact Or.inl ⟨rfl, rfl⟩
  · exact Or.inr ⟨_, rfl, rfl⟩

/-- The accesses of a settlement up to its write. -/
def BatchCall.accesses : BatchCall → Nat
  | .settleBatchRefund _ _ _ _ => 4
  | .recordRefundOwed _ _ _ _ => 2
  | _ => 1

def Unfailing (cs : List KeyStore.Input) (n : Nat) : Prop :=
  ∀ e, KeyStore.Input.fail e ∉ cs.take n

theorem not_unfailing {e : ValErr} {n : Nat} (h : KeyStore.Input.fail e ∈ cs.take n) :
    ¬Unfailing cs n :=
  fun hun => hun e h

/-- The rows that belong to the batch, and no other batch. -/
def OwnRows (id : String) (group : List Row) : Prop :=
  ∀ row ∈ group, ∀ id', row.1 = .batch id' ∨ row.1 = .batchset id' → id' = id

theorem markBatchSettled_cases {id : String} {b : PersistedBatch} {a : Except StoreError Unit}
    (h : alone hashKeyId (KeyStore.markBatchSettled id b) cs st = some (a, st')) :
    (Unfailing cs 1 ∧ st'.rows = st.rows.commit [⟨.batch id, b⟩, ⟨.batchset id, ()⟩]) ∨
      (¬Unfailing cs 1 ∧ st'.rows = st.rows) := by
  obtain ⟨c, rest, r, mid, rfl, hacc, hret⟩ := alone_op h
  cases hret
  rcases access_writeBatch hacc with ⟨rfl, hrows⟩ | ⟨e, rfl, rfl⟩
  · exact Or.inl ⟨fun e => by simp, hrows⟩
  · exact Or.inr ⟨not_unfailing (e := e) (by simp), rfl⟩

/-- The obligation that is recorded at the time given. -/
def owed (id : String) (payer : Option H160) (refund : U256) (now : UInt64) : RefundOwed where
  batchId := id
  payer := payer.map fun p => "0x" ++ hexEncode (wordBytes 20 p)
  refundGrains := toDecStr refund
  recordedAt := now

theorem recordRefundOwed_cases {id : String} {payer : Option H160} {refund : U256}
    {b : PersistedBatch} {a : Except StoreError Unit}
    (h : alone hashKeyId (KeyStore.recordRefundOwed id payer refund b) cs st = some (a, st')) :
    (Unfailing cs 2 ∧ ∃ now, st'.rows = st.rows.commit
        [⟨.batch id, b⟩, ⟨.batchset id, ()⟩, ⟨.refundowed id, owed id payer refund now⟩]) ∨
      (¬Unfailing cs 2 ∧ st'.rows = st.rows) := by
  obtain ⟨c, rest, now, mid, rfl, hclock, hwrite⟩ := alone_op h
  cases c <;> cases hclock
  obtain ⟨c', rest', r, mid', rfl, hacc, hret⟩ := alone_op hwrite
  cases hret
  rcases access_writeBatch hacc with ⟨rfl, hrows⟩ | ⟨e, rfl, rfl⟩
  · exact Or.inl ⟨fun e => by simp, now, hrows⟩
  · exact Or.inr ⟨not_unfailing (e := e) (by simp), rfl⟩

theorem access_contains {k : RowKey} {c : KeyStore.Input} {a : KeyStore.Op.Ans (.contains k)}
    {mid : Store} (h : st.access hashKeyId (.contains k) c = some (a, mid)) :
    mid = st ∧ ((c = .ok ∧ a = .ok (st.rows.get k).isSome) ∨ ∃ e, c = .fail e ∧ a = .error e) := by
  cases c <;> cases h
  · exact ⟨rfl, Or.inl ⟨rfl, rfl⟩⟩
  · exact ⟨rfl, Or.inr ⟨_, rfl, rfl⟩⟩

/-- The inputs of a call under a lock: the lock's, those of its body, and the rest. -/
theorem alone_locked {α : Type} {h : String} {body : KeyStore.M α} {r : α}
    (hrun : alone hashKeyId (KeyStore.withLock h body) cs st = some (r, st')) :
    ∃ cs₁ cs₂, cs = .ok :: (cs₁ ++ cs₂) ∧ alone hashKeyId body cs₁ st = some (r, st') := by
  obtain ⟨c, rest, u, mid, rfl, hlock, hrest⟩ := alone_op hrun
  have hrest : alone hashKeyId (body >>= fun a => KeyStore.unlock h >>= fun _ => pure a) rest mid =
    some (r, st') := hrest
  obtain ⟨cs₁, cs₂, b, mid', rfl, hbody, hunlock⟩ := KeyStore.alone_bind hrest
  obtain ⟨c', rest', u', mid'', rfl, hfree, hret⟩ := alone_op hunlock
  cases KeyStore.access_unit (Or.inr rfl) hfree
  cases hret
  cases c <;> cases hlock
  exact ⟨cs₁, _, rfl, hbody⟩

theorem settleBatchRefund_cases {keyId id : String} {refund : U256} {b : PersistedBatch}
    {a : Except BalanceError U256}
    (h : alone hashKeyId (KeyStore.settleBatchRefund hashKeyId keyId refund id b) cs st =
      some (a, st')) :
    (Unfailing cs 4 ∧ st.rows.get (.batchset id) = none ∧
      ∃ r, st.rows.get (.bal (hashKeyId keyId)) = some r ∧
        st'.rows = st.rows.commit [⟨.bal (hashKeyId keyId),
          { r with balance := saturatingAdd r.balance refund }⟩, ⟨.batch id, b⟩,
          ⟨.batchset id, ()⟩]) ∨
      ((Unfailing cs 4 → st.rows.get (.batchset id) = none →
          st.rows.get (.bal (hashKeyId keyId)) = none) ∧
        (st'.rows = st.rows ∨
          (st.rows.get (.batchset id)).isSome = true ∧ st'.rows = st.rows.put ⟨.batch id, b⟩)) := by
  obtain ⟨cs, cs', rfl, hbody⟩ := alone_locked h
  obtain ⟨c₁, cs, found, mid, rfl, hread, hbody⟩ := alone_op hbody
  obtain ⟨rfl, ⟨rfl, rfl⟩ | ⟨e, rfl, rfl⟩⟩ := access_contains hread
  · cases hmark : mid.rows.get (.batchset id) with
    | none =>
      rw [hmark] at hbody
      obtain ⟨c₂, cs, row, mid', rfl, hget, hbody⟩ := alone_op hbody
      obtain ⟨rfl, ⟨rfl, rfl⟩ | ⟨e, rfl, rfl⟩⟩ := KeyStore.access_get hget
      · cases hbal : mid'.rows.get (.bal (hashKeyId keyId)) with
        | none =>
          rw [hbal] at hbody
          cases hbody
          exact Or.inr ⟨fun _ _ => rfl, Or.inl rfl⟩
        | some bal =>
          rw [hbal] at hbody
          obtain ⟨c₃, cs, w, mid'', rfl, hput, hbody⟩ := alone_op hbody
          rcases access_writeBatch hput with ⟨rfl, hrows⟩ | ⟨e, rfl, rfl⟩
          · cases w <;> cases hbody <;>
              exact Or.inl ⟨fun e => by simp, rfl, bal, rfl, hrows⟩
          · cases w <;> cases hbody <;>
              exact Or.inr ⟨fun hun => absurd hun (not_unfailing (e := e) (by simp)), Or.inl rfl⟩
      · cases hbody
        exact Or.inr ⟨fun hun => absurd hun (not_unfailing (e := e) (by simp)), Or.inl rfl⟩
    | some v =>
      rw [hmark] at hbody
      refine Or.inr ⟨fun _ h => (by cases h), ?_⟩
      -- the marker is there: the snapshot is written without it, and the balance only read
      obtain ⟨c₂, cs, w, mid', rfl, hput, hbody⟩ := alone_op hbody
      cases c₂ <;> cases hput
      · obtain ⟨c₃, cs, row, mid', rfl, hget, hbody⟩ := alone_op hbody
        obtain ⟨rfl, -⟩ := KeyStore.access_get hget
        rcases row with e | _ | r <;> cases hbody <;> exact Or.inr ⟨rfl, rfl⟩
      · cases hbody
        exact Or.inl rfl
  · cases hbody
    exact Or.inr ⟨fun hun => absurd hun (not_unfailing (e := e) (by simp)), Or.inl rfl⟩

variable (hashKeyId) in
/-- The group holds the credit of the refund, or the obligation to pay it. -/
def Recorded (id : String) (r : BatchRecord) (rows : Rows) (group : List Row) : Prop :=
  0 < r.refundedGrains.toNat →
    match r.payerApiKeyId with
    | some keyId => ∃ bal, rows.get (.bal (hashKeyId keyId)) = some bal ∧
        ⟨.bal (hashKeyId keyId), { bal with balance := saturatingAdd bal.balance r.refundedGrains }⟩
          ∈ group
    | none => ∃ now, ⟨.refundowed id, owed id r.x402Payer r.refundedGrains now⟩ ∈ group

variable (hashKeyId) in
/-- A refund of a balance key finds the key, and the batch unmarked. -/
def Creditable (id : String) (r : BatchRecord) (rows : Rows) : Prop :=
  0 < r.refundedGrains.toNat → ∀ keyId, r.payerApiKeyId = some keyId →
    rows.get (.batchset id) = none ∧ (rows.get (.bal (hashKeyId keyId))).isSome = true

/-- A settlement does all of its work in one commit, or leaves the rows of the batch as they
are; where the marker was there, it may write the snapshot once more. -/
theorem settlement_cases {id : String} {snapshot : PersistedBatch}
    {a : (settlement id snapshot).toMethod.Ans}
    (h : alone hashKeyId ((settlement id snapshot).toMethod.prog hashKeyId) cs st = some (a, st')) :
    (Unfailing cs (settlement id snapshot).accesses ∧
        Creditable hashKeyId id (reconciled snapshot) st.rows ∧
        ∃ group, st'.rows = st.rows.commit group ∧ ⟨.batchset id, ()⟩ ∈ group ∧ OwnRows id group ∧
          Recorded hashKeyId id (reconciled snapshot) st.rows group) ∨
      ((Unfailing cs (settlement id snapshot).accesses →
          ¬Creditable hashKeyId id (reconciled snapshot) st.rows) ∧
        (st'.rows = st.rows ∨ (st.rows.get (.batchset id)).isSome = true ∧
          ∃ b, st'.rows = st.rows.put ⟨.batch id, b⟩)) := by
  by_cases hrefund : 0 < (reconciled snapshot).refundedGrains.toNat
  · cases hpayer : (reconciled snapshot).payerApiKeyId with
    | some keyId =>
      have hcall : settlement id snapshot = .settleBatchRefund keyId
          (reconciled snapshot).refundedGrains id (.fromRecord (reconciled snapshot) true) := by
        rw [settlement, hpayer]
        exact if_pos hrefund
      generalize settlement id snapshot = call at *
      subst hcall
      rcases settleBatchRefund_cases h with ⟨hun, hmark, bal, hbal, hrows⟩ | ⟨hno, hleft⟩
      · refine Or.inl ⟨hun, ?_, _, hrows, by simp, ?_, ?_⟩
        · intro _ keyId' hkey
          cases hpayer.symm.trans hkey
          exact ⟨hmark, by rw [hbal]; rfl⟩
        · intro row hmem id' hid
          simp only [List.mem_cons, List.not_mem_nil, or_false] at hmem
          rcases hmem with rfl | rfl | rfl <;> rcases hid with hid | hid <;> cases hid <;> rfl
        · intro _
          rw [hpayer]
          exact ⟨bal, hbal, by simp⟩
      · refine Or.inr ⟨fun hun hcredit => ?_, hleft.imp_right fun h => ⟨h.1, _, h.2⟩⟩
        obtain ⟨hmark, hbal⟩ := hcredit hrefund keyId hpayer
        rw [hno hun hmark] at hbal
        cases hbal
    | none =>
      have hcall : settlement id snapshot = .recordRefundOwed id (reconciled snapshot).x402Payer
          (reconciled snapshot).refundedGrains (.fromRecord (reconciled snapshot) true) := by
        rw [settlement, hpayer]
        exact if_pos hrefund
      generalize settlement id snapshot = call at *
      subst hcall
      rcases recordRefundOwed_cases h with ⟨hun, now, hrows⟩ | ⟨hun, hrows⟩
      · refine Or.inl ⟨hun, ?_, _, hrows, by simp, ?_, ?_⟩
        · intro _ keyId hkey
          cases hpayer.symm.trans hkey
        · intro row hmem id' hid
          simp only [List.mem_cons, List.not_mem_nil, or_false] at hmem
          rcases hmem with rfl | rfl | rfl <;> rcases hid with hid | hid <;> cases hid <;> rfl
        · intro _
          rw [hpayer]
          exact ⟨now, by simp⟩
      · exact Or.inr ⟨fun h => absurd h hun, Or.inl hrows⟩
  · have hcall : settlement id snapshot =
        .markBatchSettled id (.fromRecord (reconciled snapshot) true) := if_neg hrefund
    generalize settlement id snapshot = call at *
    subst hcall
    rcases markBatchSettled_cases h with ⟨hun, hrows⟩ | ⟨hun, hrows⟩
    · refine Or.inl ⟨hun, fun h => absurd h hrefund, _, hrows, by simp, ?_,
        fun h => absurd h hrefund⟩
      intro row hmem id' hid
      simp only [List.mem_cons, List.not_mem_nil, or_false] at hmem
      rcases hmem with rfl | rfl <;> rcases hid with hid | hid <;> cases hid <;> rfl
    · exact Or.inr ⟨fun h => absurd h hun, Or.inl hrows⟩

end Settlement

section Visits

/-- A turn of the loop, with the inputs that are left and the store as it begins. -/
structure Visit where
  id : String
  snapshot : PersistedBatch
  counted : Bool
  inputs : Inputs
  before : Store
  after : Store

variable (hashKeyId : String → String) (fromSlice : PersistedBatch → Option PersistedBatch)

/-- The turns of the loop over what was found. -/
def visits : List (String × PersistedBatch) → Inputs → Store →
    Option (List Visit × Inputs × Store)
  | [], ins, st => some ([], ins, st)
  | (id, bytes) :: rest, ins, st =>
    match fromSlice bytes with
    | none => visits rest ins st
    | some snapshot =>
      (solo hashKeyId (recoverBatchCounted id snapshot) ins st).bind fun r =>
        (visits rest r.2.1 r.2.2).map fun vs =>
          (⟨id, snapshot, r.1, ins, st, r.2.2⟩ :: vs.1, vs.2)

/-- The turns of a whole pass. -/
def passVisits (persist : Bool) (ins : Inputs) (st : Store) :
    Option (List Visit × Inputs × Store) :=
  if persist then
    (solo hashKeyId (store .loadBatches) ins st).bind fun r =>
      match r.1 with
      | .error _ => some ([], r.2)
      | .ok found => visits hashKeyId fromSlice found r.2.1 r.2.2
  else some ([], ins, st)

variable {hashKeyId fromSlice} {ins out : Inputs} {st st' : Store}

theorem solo_recoverBatchesCounted (found : List (String × PersistedBatch))
    (rehydrated settled : Nat) (ins : Inputs) (st : Store) :
    solo hashKeyId (recoverBatchesCounted fromSlice found rehydrated settled) ins st =
      (visits hashKeyId fromSlice found ins st).map fun r =>
        ((rehydrated + r.1.length, settled + r.1.countP (·.counted)), r.2) := by
  induction found generalizing rehydrated settled ins st with
  | nil => rfl
  | cons row found ih =>
    obtain ⟨id, bytes⟩ := row
    unfold recoverBatchesCounted visits
    cases fromSlice bytes with
    | none => exact ih rehydrated settled ins st
    | some snapshot =>
      simp only [solo_bind, ih, Option.map_bind]
      refine congrArg _ (funext fun r => ?_)
      simp only [Function.comp_apply, Option.map_map]
      refine congrArg (Option.map · _) (funext fun vs => ?_)
      simp only [Function.comp_apply, List.length_cons, List.countP_cons]
      rw [Nat.add_right_comm rehydrated 1, Nat.add_right_comm settled, Nat.add_assoc settled]
      rfl

theorem solo_recoverCounted (persist : Bool) (ins : Inputs) (st : Store) :
    solo hashKeyId (recoverCounted persist fromSlice) ins st =
      (passVisits hashKeyId fromSlice persist ins st).map fun r =>
        ((r.1.length, r.1.countP (·.counted)), r.2) := by
  cases persist with
  | false => rfl
  | true =>
    show solo hashKeyId (store .loadBatches >>= fun a => _) ins st = Option.map _ (Option.bind _ _)
    rw [solo_bind, Option.map_bind]
    refine congrArg _ (funext fun r => ?_)
    obtain ⟨a, ins', mid⟩ := r
    cases a with
    | error e => rfl
    | ok found =>
      show solo hashKeyId (recoverBatchesCounted fromSlice found 0 0) ins' mid = _
      rw [solo_recoverBatchesCounted]
      simp only [Nat.zero_add, Function.comp_apply]

/-- The rows of one batch are the same. -/
structure Frame (id : String) (rows rows' : Rows) : Prop where
  snapshot : rows'.get (.batch id) = rows.get (.batch id)
  marker : rows'.get (.batchset id) = rows.get (.batchset id)
  synced : rows.Synced (.batch id) → rows'.Synced (.batch id)

theorem Frame.refl (id : String) (rows : Rows) : Frame id rows rows := ⟨rfl, rfl, fun h => h⟩

theorem Frame.trans {id : String} {rows₁ rows₂ rows₃ : Rows} (h₁ : Frame id rows₁ rows₂)
    (h₂ : Frame id rows₂ rows₃) : Frame id rows₁ rows₃ :=
  ⟨h₂.snapshot.trans h₁.snapshot, h₂.marker.trans h₁.marker, fun h => h₂.synced (h₁.synced h)⟩

theorem Frame.put {id id' : String} (hne : id ≠ id') (rows : Rows) (b : PersistedBatch) :
    Frame id rows (rows.put ⟨.batch id', b⟩) := by
  have hbatch : RowKey.batch id ≠ .batch id' := fun h => hne (RowKey.batch.inj h)
  refine ⟨DurableStore.get_put_ne _ hbatch, DurableStore.get_put_ne _ nofun, fun h => ?_⟩
  exact (DurableStore.synced_put_ne hbatch).2 h

theorem Frame.commit {id id' : String} (hne : id ≠ id') (rows : Rows) {group : List Row}
    (hown : OwnRows id' group) : Frame id rows (rows.commit group) := by
  have hout : ∀ k : RowKey, k = .batch id ∨ k = .batchset id → k ∉ group.keys := by
    intro k hk hmem
    obtain ⟨v, hv⟩ := List.mem_keys.1 hmem
    exact hne (hown ⟨k, v⟩ hv id hk)
  exact ⟨DurableStore.get_commit_ne _ (hout _ (Or.inl rfl)),
    DurableStore.get_commit_ne _ (hout _ (Or.inr rfl)), fun _ => DurableStore.synced_commit _ _ _⟩

theorem Turned.frame {id id' : String} {snapshot : PersistedBatch} {counted : Bool}
    (h : Turned hashKeyId id' snapshot ins st counted out st') (hne : id ≠ id') :
    Frame id st.rows st'.rows := by
  cases h with
  | found hmarked => exact Frame.refl id _
  | tried hopen hcall =>
    rcases settlement_cases hcall with ⟨-, -, group, hrows, -, hown, -⟩ | ⟨-, hrows | ⟨-, b, hrows⟩⟩
    · rw [hrows]
      exact Frame.commit hne _ hown
    · rw [hrows]
      exact Frame.refl id _
    · rw [hrows]
      exact Frame.put hne _ b

/-- The markers that are on disk stay there. -/
def MarkersKept (rows rows' : Rows) : Prop :=
  ∀ id, (rows.durable.dlookup (.batchset id)).isSome = true →
    (rows'.durable.dlookup (.batchset id)).isSome = true

theorem Turned.markersKept {id : String} {snapshot : PersistedBatch} {counted : Bool}
    (h : Turned hashKeyId id snapshot ins st counted out st') :
    MarkersKept st.rows st'.rows := by
  intro id' hmark
  cases h with
  | found hmarked => exact hmark
  | tried hopen hcall =>
    rcases settlement_cases hcall with ⟨-, -, group, hrows, -⟩ | ⟨-, hrows | ⟨-, b, hrows⟩⟩
    · rw [hrows]
      exact DurableStore.isSome_durable_commit group hmark
    · rw [hrows]
      exact hmark
    · rw [hrows]
      exact hmark

theorem visits_cons {id : String} {bytes : PersistedBatch} {rest : List (String × PersistedBatch)}
    {vs : List Visit}
    (h : visits hashKeyId fromSlice ((id, bytes) :: rest) ins st = some (vs, out, st')) :
    (fromSlice bytes = none ∧ visits hashKeyId fromSlice rest ins st = some (vs, out, st')) ∨
      ∃ snapshot counted ins' mid vs', fromSlice bytes = some snapshot ∧
        Turned hashKeyId id snapshot ins st counted ins' mid ∧
        visits hashKeyId fromSlice rest ins' mid = some (vs', out, st') ∧
        vs = ⟨id, snapshot, counted, ins, st, mid⟩ :: vs' := by
  unfold visits at h
  cases hbytes : fromSlice bytes with
  | none =>
    rw [hbytes] at h
    exact Or.inl ⟨rfl, h⟩
  | some snapshot =>
    rw [hbytes] at h
    obtain ⟨⟨counted, ins', mid⟩, hturn, hrest⟩ := Option.bind_eq_some_iff.1 h
    obtain ⟨⟨vs', r⟩, hvisits, heq⟩ := Option.map_eq_some_iff.1 hrest
    cases heq
    exact Or.inr ⟨snapshot, counted, ins', mid, vs', rfl, turned hturn, hvisits, rfl⟩

theorem visits_frame {found : List (String × PersistedBatch)} {id : String} {vs : List Visit}
    (hout : id ∉ found.map (·.1))
    (h : visits hashKeyId fromSlice found ins st = some (vs, out, st')) :
    Frame id st.rows st'.rows := by
  induction found generalizing ins st vs with
  | nil =>
    cases h
    exact Frame.refl id _
  | cons row found ih =>
    obtain ⟨id', bytes⟩ := row
    obtain ⟨hne, hout⟩ := not_or.1 (fun hmem => hout (List.mem_cons.2 hmem))
    rcases visits_cons h with ⟨-, hrest⟩ | ⟨snapshot, counted, ins', mid, vs', -, hturn, hrest, -⟩
    · exact ih hout hrest
    · exact (hturn.frame hne).trans (ih hout hrest)

theorem visits_markersKept {found : List (String × PersistedBatch)} {vs : List Visit}
    (h : visits hashKeyId fromSlice found ins st = some (vs, out, st')) :
    MarkersKept st.rows st'.rows := by
  induction found generalizing ins st vs with
  | nil =>
    cases h
    exact fun _ hmark => hmark
  | cons row found ih =>
    rcases visits_cons h with ⟨-, hrest⟩ | ⟨snapshot, counted, ins', mid, vs', -, hturn, hrest, -⟩
    · exact ih hrest
    · exact fun id hmark => ih hrest id (hturn.markersKept id hmark)

/-- A turn in its place between the beginning and the end of the loop. -/
structure Placed (hashKeyId : String → String)
    (fromSlice : PersistedBatch → Option PersistedBatch) (found : List (String × PersistedBatch))
    (st st' : Store) (v : Visit) : Prop where
  row : ∃ bytes, (v.id, bytes) ∈ found ∧ fromSlice bytes = some v.snapshot
  turn : ∃ ins, Turned hashKeyId v.id v.snapshot v.inputs v.before v.counted ins v.after
  earlier : Frame v.id st.rows v.before.rows
  later : Frame v.id v.after.rows st'.rows
  kept : MarkersKept v.after.rows st'.rows

theorem visits_placed {found : List (String × PersistedBatch)} {vs : List Visit}
    (hnodup : (found.map (·.1)).Nodup)
    (h : visits hashKeyId fromSlice found ins st = some (vs, out, st')) {v : Visit} (hv : v ∈ vs) :
    Placed hashKeyId fromSlice found st st' v := by
  induction found generalizing ins st vs with
  | nil =>
    cases h
    cases hv
  | cons row found ih =>
    obtain ⟨id, bytes⟩ := row
    obtain ⟨hfresh, hnodup⟩ := List.nodup_cons.1 hnodup
    have hlater : ∀ {mid : Store}, Frame v.id st.rows mid.rows →
        Placed hashKeyId fromSlice found mid st' v →
        Placed hashKeyId fromSlice ((id, bytes) :: found) st st' v := by
      intro mid hframe hplaced
      obtain ⟨bytes', hmem, hbytes'⟩ := hplaced.row
      exact ⟨⟨bytes', List.mem_cons_of_mem _ hmem, hbytes'⟩, hplaced.turn,
        hframe.trans hplaced.earlier, hplaced.later, hplaced.kept⟩
    rcases visits_cons h with
      ⟨-, hrest⟩ | ⟨snapshot, counted, ins', mid, vs', hbytes, hturn, hrest, rfl⟩
    · exact hlater (Frame.refl _ _) (ih hnodup hrest hv)
    · rcases List.mem_cons.1 hv with rfl | hv
      · exact ⟨⟨bytes, List.mem_cons_self, hbytes⟩, ⟨ins', hturn⟩, Frame.refl _ _,
          visits_frame hfresh hrest, visits_markersKept hrest⟩
      · have hplaced := ih hnodup hrest hv
        obtain ⟨bytes', hmem, -⟩ := hplaced.row
        have hne : v.id ≠ id := by
          intro heq
          apply hfresh
          rw [← heq]
          exact List.mem_map.2 ⟨_, hmem, rfl⟩
        exact hlater (hturn.frame hne) hplaced

/-- Every row that can be read is visited. -/
theorem visits_complete {found : List (String × PersistedBatch)} {vs : List Visit}
    (h : visits hashKeyId fromSlice found ins st = some (vs, out, st')) {id : String}
    {bytes snapshot : PersistedBatch} (hmem : (id, bytes) ∈ found)
    (hbytes : fromSlice bytes = some snapshot) : ∃ v ∈ vs, v.id = id ∧ v.snapshot = snapshot := by
  induction found generalizing ins st vs with
  | nil => cases hmem
  | cons row found ih =>
    obtain ⟨id', bytes'⟩ := row
    rcases visits_cons h with
      ⟨hnone, hrest⟩ | ⟨snapshot', counted, ins', mid, vs', hsome, hturn, hrest, rfl⟩
    · rcases List.mem_cons.1 hmem with heq | hmem
      · cases heq
        rw [hbytes] at hnone
        cases hnone
      · exact ih hrest hmem
    · rcases List.mem_cons.1 hmem with heq | hmem
      · cases heq
        exact ⟨_, List.mem_cons_self, rfl, Option.some.inj (hsome.symm.trans hbytes)⟩
      · obtain ⟨v, hv, hsame⟩ := ih hrest hmem
        exact ⟨v, List.mem_cons_of_mem _ hv, hsame⟩

theorem nodup_batchRows (rows : Rows) : ((batchRows rows).map (·.1)).Nodup := by
  unfold batchRows
  have hperm := List.perm_insertionSort (fun a b : String × PersistedBatch => a.1 ≤ b.1)
  refine ((hperm _).map (·.1)).nodup_iff.2 (List.pairwise_map.2 ?_)
  have hkeys := List.nodupKeys_iff_pairwise.1 (DurableStore.nodupKeys_rows rows)
  refine List.Pairwise.filterMap _ ?_ hkeys
  intro row row' hne found hfound found' hfound' heq
  obtain ⟨k, v⟩ := row
  obtain ⟨k', v'⟩ := row'
  cases k <;> cases hfound
  cases k' <;> cases hfound'
  exact hne (congrArg RowKey.batch heq)

theorem loadBatches_cases {cs : List KeyStore.Input}
    {a : Except StoreError (List (String × PersistedBatch))}
    (h : alone hashKeyId KeyStore.loadBatches cs st = some (a, st')) :
    st' = st ∧ ∃ c rest, cs = c :: rest ∧
      ((c = .ok ∧ a = .ok (batchRows st.rows)) ∨ ∃ e, c = .fail e ∧ a = .error (.ofValErr e)) := by
  obtain ⟨c, rest, b, mid, rfl, hacc, hret⟩ := alone_op h
  cases c <;> cases hacc <;> cases hret
  · exact ⟨rfl, _, _, rfl, Or.inl ⟨rfl, rfl⟩⟩
  · exact ⟨rfl, _, _, rfl, Or.inr ⟨_, rfl, rfl⟩⟩

/-- A pass is the loop over the rows of the store, or it visits nothing. -/
theorem passVisits_cases {persist : Bool} {vs : List Visit}
    (h : passVisits hashKeyId fromSlice persist ins st = some (vs, out, st')) :
    (∃ cs rest, ins = (.ok :: cs) :: rest ∧
      visits hashKeyId fromSlice (batchRows st.rows) rest st = some (vs, out, st')) ∨
      (vs = [] ∧ (persist = true → ∃ e cs rest, ins = (.fail e :: cs) :: rest)) := by
  cases persist with
  | false =>
    cases h
    exact Or.inr ⟨rfl, nofun⟩
  | true =>
    obtain ⟨⟨a, ins', mid⟩, hload, hrest⟩ := Option.bind_eq_some_iff.1 h
    obtain ⟨cs, rest, b, mid', rfl, hcall, hret⟩ := solo_store hload
    cases hret
    obtain ⟨rfl, c, cs, rfl, ⟨rfl, rfl⟩ | ⟨e, rfl, rfl⟩⟩ := loadBatches_cases hcall
    · exact Or.inl ⟨cs, ins', rfl, hrest⟩
    · cases hrest
      exact Or.inr ⟨rfl, fun _ => ⟨e, cs, _, rfl⟩⟩

theorem passVisits_placed {persist : Bool} {vs : List Visit}
    (h : passVisits hashKeyId fromSlice persist ins st = some (vs, out, st')) {v : Visit}
    (hv : v ∈ vs) : Placed hashKeyId fromSlice (batchRows st.rows) st st' v := by
  rcases passVisits_cases h with ⟨cs, rest, rfl, hvisits⟩ | ⟨rfl, -⟩
  · exact visits_placed (nodup_batchRows st.rows) hvisits hv
  · cases hv

end Visits

section Honesty

theorem ne_commit {rows : Rows} {group : List Row} {row : Row} (hmem : row ∈ group) :
    rows ≠ rows.commit group := by
  intro heq
  have hlen := congrArg (fun rows => rows.durable.length) heq
  have hpos := List.length_pos_of_mem hmem
  simp only [DurableStore.commit, List.length_append, List.length_reverse] at hlen
  omega

theorem put_ne_commit {rows : Rows} (row : Row) (group : List Row) :
    rows.put row ≠ rows.commit group := by
  intro heq
  cases congrArg (fun rows => rows.pending) heq

theorem isSome_get_commit {rows : Rows} {group : List Row} {row : Row} (hmem : row ∈ group) :
    ((rows.commit group).durable.dlookup row.1).isSome = true := by
  rw [DurableStore.commit, List.dlookup_isSome, List.keys_append]
  exact List.mem_append_left _ (List.mem_keys_of_mem (List.mem_reverse.2 hmem))

theorem get_of_durable {rows : Rows} {k : RowKey} (h : (rows.durable.dlookup k).isSome = true) :
    (rows.get k).isSome = true := by
  rw [DurableStore.get_eq, Option.isSome_or, h, Bool.or_true]

theorem get_crash_of_none {rows : Rows} {k : RowKey} (h : rows.get k = none) (mask : List Bool) :
    (rows.crash mask).get k = none := by
  rw [Option.eq_none_iff_forall_ne_some]
  intro v hv
  rw [DurableStore.get_eq, Option.or_eq_none_iff] at h
  rcases DurableStore.possible_of_crash hv with hmem | hdurable
  · exact List.dlookup_eq_none.1 h.1 (List.mem_keys_of_mem hmem)
  · rw [h.2] at hdurable
    cases hdurable

namespace Visit
variable (hashKeyId : String → String)

/-- The marker was read, and was there. -/
def FoundSettled (v : Visit) : Prop :=
  (v.before.rows.get (.batchset v.id)).isSome = true ∧ ∃ cs ins, v.inputs = (.ok :: cs) :: ins

/-- One commit of the turn holds the marker, with the credit or the obligation. -/
def Settled (v : Visit) : Prop :=
  ∃ group, v.after.rows = v.before.rows.commit group ∧ ⟨.batchset v.id, ()⟩ ∈ group ∧
    Recorded hashKeyId v.id (reconciled v.snapshot) v.before.rows group

/-- The turn met an unsettled batch and left it so. -/
def Failed (v : Visit) : Prop :=
  v.before.rows.get (.batchset v.id) = none ∧ v.after.rows.get (.batchset v.id) = none

/-- Where the turn has to settle, no access up to its write fails and a credit has its row. -/
def Sound (v : Visit) : Prop :=
  v.FoundSettled ∨ (Creditable hashKeyId v.id (reconciled v.snapshot) v.before.rows ∧
    ∀ cs, v.inputs[1]? = some cs → Unfailing cs (settlement v.id v.snapshot).accesses)

/-- What the turn did with the store is this call. -/
def Made (v : Visit) (c : BatchCall) : Prop :=
  ∃ cs ∈ v.inputs, ∃ a,
    alone hashKeyId (c.toMethod.prog hashKeyId) cs v.before = some (a, v.after)

/-- The next pass makes the same settlement of the batch, a crash in between or not. -/
structure Retried (fromSlice : PersistedBatch → Option PersistedBatch) (st' : Store) (v : Visit) :
    Prop where
  made : v.Made hashKeyId (settlement v.id v.snapshot)
  crashed : v.before.rows.Synced (.batch v.id) → ∀ mask,
    (st'.rows.crash mask).get (.batch v.id) = st'.rows.get (.batch v.id) ∧
      (st'.rows.crash mask).get (.batchset v.id) = st'.rows.get (.batchset v.id)
  again : ∀ {next next' : Store} {cs ins out vs},
    next.rows.get (.batch v.id) = st'.rows.get (.batch v.id) →
    next.rows.get (.batchset v.id) = st'.rows.get (.batchset v.id) →
    passVisits hashKeyId fromSlice true ((.ok :: cs) :: ins) next = some (vs, out, next') →
    ∃ w ∈ vs, w.id = v.id ∧ w.Made hashKeyId (settlement v.id v.snapshot)

variable {hashKeyId} {fromSlice : PersistedBatch → Option PersistedBatch}
variable {ins : Inputs} {st st' : Store} {v : Visit}

theorem counted_of_unmarked
    (hturn : Turned hashKeyId v.id v.snapshot v.inputs v.before v.counted ins v.after)
    (hmark : v.before.rows.get (.batchset v.id) = none) :
    v.counted = true ∧ v.Made hashKeyId (settlement v.id v.snapshot) := by
  obtain ⟨id, snapshot, counted, inputs, before, after⟩ := v
  cases hturn with
  | found hmarked =>
    rw [hmark] at hmarked
    cases hmarked
  | tried hopen hcall => exact ⟨rfl, _, by simp, _, hcall⟩

/-- A counted turn settles exactly when nothing fails it. -/
theorem settled_iff_sound
    (hturn : Turned hashKeyId v.id v.snapshot v.inputs v.before v.counted ins v.after) :
    (v.counted = true → v.Settled hashKeyId) ↔ v.Sound hashKeyId := by
  obtain ⟨id, snapshot, counted, inputs, before, after⟩ := v
  cases hturn with
  | found hmarked => exact ⟨fun _ => Or.inl ⟨hmarked, _, _, rfl⟩, fun _ => nofun⟩
  | tried hopen hcall =>
    constructor
    · intro hsettled
      obtain ⟨group, hcommit, hmem, hrecorded⟩ := hsettled rfl
      rcases settlement_cases hcall with ⟨hun, hcredit, -⟩ | ⟨-, hrows | ⟨-, b, hrows⟩⟩
      · refine Or.inr ⟨hcredit, fun cs hcs => ?_⟩
        cases hcs
        exact hun
      · exact absurd (hrows.symm.trans hcommit) (ne_commit hmem)
      · exact absurd (hrows.symm.trans hcommit) (put_ne_commit _ _)
    · intro hsound _
      rcases hsound with ⟨hmarked, cs, ins, heq⟩ | ⟨hcredit, hun⟩
      · cases heq
        rw [hopen rfl] at hmarked
        cases hmarked
      · rcases settlement_cases hcall with ⟨-, -, group, hrows, hmem, -, hrecorded⟩ | ⟨hno, -⟩
        · exact ⟨group, hrows, hmem, hrecorded⟩
        · exact absurd hcredit (hno (hun _ rfl))

/-- A turn that leaves its batch unsettled leaves the rows alone. -/
theorem rows_of_failed
    (hturn : Turned hashKeyId v.id v.snapshot v.inputs v.before v.counted ins v.after)
    (hfailed : v.Failed) : v.after.rows = v.before.rows := by
  obtain ⟨id, snapshot, counted, inputs, before, after⟩ := v
  obtain ⟨hbefore, hafter⟩ := hfailed
  cases hturn with
  | found hmarked => rfl
  | tried hopen hcall =>
    rcases settlement_cases hcall with ⟨-, -, group, hrows, hmem, -⟩ | ⟨-, hrows | ⟨hmark, -⟩⟩
    · have hset := get_of_durable (@isSome_get_commit before.rows _ _ hmem)
      rw [← hrows, hafter] at hset
      cases hset
    · exact hrows
    · rw [hbefore] at hmark
      cases hmark

theorem retried_of_failed (hplaced : Placed hashKeyId fromSlice (batchRows st.rows) st st' v)
    (hfailed : v.Failed) : v.Retried hashKeyId fromSlice st' := by
  obtain ⟨ins, hturn⟩ := hplaced.turn
  have hrows := rows_of_failed hturn hfailed
  have hlater := hplaced.later
  rw [hrows] at hlater
  have hunmarked : st'.rows.get (.batchset v.id) = none := hlater.marker.trans hfailed.1
  refine ⟨(counted_of_unmarked hturn hfailed.1).2, fun hsynced mask => ⟨?_, ?_⟩, ?_⟩
  · exact DurableStore.get_crash_of_synced (hlater.synced hsynced)
  · rw [hunmarked, get_crash_of_none hunmarked]
  · intro next next' cs ins out vs hbatch hmarker hpass
    obtain ⟨bytes, hmem, hbytes⟩ := hplaced.row
    have hrow : next.rows.get (.batch v.id) = some bytes := by
      rw [hbatch, hlater.snapshot, hplaced.earlier.snapshot]
      exact mem_batchRows.1 hmem
    rcases passVisits_cases hpass with ⟨cs, rest, heq, hvisits⟩ | ⟨-, hfault⟩
    · obtain ⟨w, hw, hid, hsnapshot⟩ := visits_complete hvisits (mem_batchRows.2 hrow) hbytes
      obtain ⟨ins', hturn'⟩ := (passVisits_placed hpass hw).turn
      have hmark : w.before.rows.get (.batchset w.id) = none := by
        rw [(passVisits_placed hpass hw).earlier.marker, hid, hmarker]
        exact hunmarked
      have hmade := (counted_of_unmarked hturn' hmark).2
      rw [hid, hsnapshot] at hmade
      exact ⟨w, hw, hid, hmade⟩
    · obtain ⟨e, cs', rest, heq⟩ := hfault rfl
      cases heq

end Visit

/-- The pass returns how many batches it opened to readers and how many it tried to settle. The
tried ones are settled by it, and what it could not settle is left uncounted for the next pass,
exactly when no try fails; what it could not settle is left for the next pass in any case. -/
theorem counted_settled_iff {hashKeyId : String → String}
    {fromSlice : PersistedBatch → Option PersistedBatch} {persist : Bool}
    {ins out : Inputs} {st st' : Store} {rehydrated settled : Nat}
    (hrun : solo hashKeyId (recoverCounted persist fromSlice) ins st =
      some ((rehydrated, settled), out, st')) :
    ∃ vs, passVisits hashKeyId fromSlice persist ins st = some (vs, out, st') ∧
      rehydrated = vs.length ∧ settled = vs.countP (·.counted) ∧
      (∀ v ∈ vs, v.Failed → v.Retried hashKeyId fromSlice st') ∧
      (((∀ v ∈ vs, v.counted = true → v.Settled hashKeyId ∧
            (st'.rows.durable.dlookup (.batchset v.id)).isSome = true) ∧
          ∀ v ∈ vs, v.Failed → v.counted = false ∧ v.Retried hashKeyId fromSlice st') ↔
        ∀ v ∈ vs, v.Sound hashKeyId) := by
  rw [solo_recoverCounted] at hrun
  obtain ⟨⟨vs, r⟩, hpass, heq⟩ := Option.map_eq_some_iff.1 hrun
  cases heq
  have hplaced := fun v (hv : v ∈ vs) => passVisits_placed hpass hv
  have hretried : ∀ v ∈ vs, v.Failed → v.Retried hashKeyId fromSlice st' :=
    fun v hv => Visit.retried_of_failed (hplaced v hv)
  refine ⟨vs, hpass, rfl, rfl, hretried, ?_⟩
  constructor
  · intro h v hv
    obtain ⟨ins', hturn⟩ := (hplaced v hv).turn
    exact (Visit.settled_iff_sound hturn).1 fun hcounted => (h.1 v hv hcounted).1
  · intro hsound
    have hsettled : ∀ v ∈ vs, v.counted = true → v.Settled hashKeyId := by
      intro v hv
      obtain ⟨ins', hturn⟩ := (hplaced v hv).turn
      exact (Visit.settled_iff_sound hturn).2 (hsound v hv)
    have hmarked : ∀ v ∈ vs, v.Settled hashKeyId →
        (v.after.rows.durable.dlookup (.batchset v.id)).isSome = true := by
      intro v hv h
      obtain ⟨group, hrows, hmem, -⟩ := h
      rw [hrows]
      exact isSome_get_commit hmem
    refine ⟨fun v hv hcounted => ?_, fun v hv hfailed => ?_⟩
    · have h := hsettled v hv hcounted
      exact ⟨h, (hplaced v hv).kept v.id (hmarked v hv h)⟩
    · obtain ⟨ins', hturn⟩ := (hplaced v hv).turn
      have hcounted := (Visit.counted_of_unmarked hturn hfailed.1).1
      have hset := get_of_durable (hmarked v hv (hsettled v hv hcounted))
      rw [hfailed.2] at hset
      cases hset

end Honesty

section Samples

/-- A batch that the restart caught before its one request was sent. -/
def interruptedBatch : PersistedBatch where
  id := "batch_1"
  status := .running
  paidEscrowGrains := "5"
  releasedGrains := "0"
  refundedGrains := "0"
  payerApiKeyId := some KeyStore.sampleKeyId
  x402Payer := none
  readTokenHash := none
  slots := [⟨.pending, ⟨"llama", [⟨"user", "hi"⟩], none, false⟩, "5", none⟩]
  createdAt := 7
  refundSettled := false

def interruptedStore : Store where
  rows := ⟨[⟨.batch "batch_1", interruptedBatch⟩,
    ⟨.bal (KeyStore.sampleHash KeyStore.sampleKeyId), ⟨"acme", 7, false, 1, 0, 95⟩⟩], []⟩
  issued := []

/-- The write of the credit fails. -/
def failingInputs : Inputs :=
  [[.ok], [.ok], [.ok, .ok, .ok, .fail (.db "IO error: No space left on device"), .ok]]

theorem counted_settled_iff_failing :
    ∃ vs, passVisits KeyStore.sampleHash some true failingInputs interruptedStore =
        some (vs, [], interruptedStore) ∧ vs.countP (·.counted) = 1 ∧
      ∀ v ∈ vs, v.Failed → v.Retried KeyStore.sampleHash some interruptedStore := by
  have hrun : solo KeyStore.sampleHash (recoverCounted true some) failingInputs
      interruptedStore = some ((1, 1), [], interruptedStore) := rfl
  obtain ⟨vs, hpass, -, hcount, hretried, -⟩ := counted_settled_iff hrun
  exact ⟨vs, hpass, hcount.symm, hretried⟩

theorem failed_settlement_counted :
    ∃ v, passVisits KeyStore.sampleHash some true failingInputs interruptedStore =
        some ([v], [], interruptedStore) ∧
      solo KeyStore.sampleHash (recoverCounted true some) failingInputs interruptedStore =
        some ((1, 1), [], interruptedStore) ∧
      v.counted = true ∧ v.Failed ∧ ¬v.Settled KeyStore.sampleHash := by
  refine ⟨⟨"batch_1", interruptedBatch, true, failingInputs.tail, interruptedStore,
    interruptedStore⟩, rfl, rfl, rfl, ⟨rfl, rfl⟩, ?_⟩
  rintro ⟨group, hrows, hmem, -⟩
  exact ne_commit hmem hrows

end Samples
end Gateway.App
