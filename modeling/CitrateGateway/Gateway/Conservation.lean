import CitrateGateway.Gateway.Ledger

/-!
# Conservation of balances

The balance of a key is its first balance, less the debits that committed and with the credits
that committed. A call that returns `Ok` has committed, and one that returns an error has not.
-/

namespace Gateway.KeyStore
set_option autoImplicit false
open Words Effects Durable

section Histories
variable {hashKeyId : String → String} {m : Method} {past : List Event}

/-- The marker of the batch was found. -/
def foundSettled (id : String) : Event → Bool
  | ⟨.contains (.batchset id'), .ok true⟩ => id' = id
  | _ => false

theorem any_foundSettled {id : String} :
    past.any (foundSettled id) = true ↔ ⟨.contains (.batchset id), .ok true⟩ ∈ past := by
  rw [List.any_eq_true]
  constructor
  · rintro ⟨e, he, hfound⟩
    unfold foundSettled at hfound
    split at hfound
    · rw [← of_decide_eq_true hfound]
      exact he
    · cases hfound
  · intro he
    exact ⟨_, he, by simp [foundSettled]⟩

/-- What a call has written so far: nothing, one unsynced row, or its group. -/
inductive Method.History (hashKeyId : String → String) (m : Method) (past : List Event) :
    Prop where
  | nothing (hw : written past = [])
  | put (row : Row) (early : List Event) (hsub : early ⊆ past)
      (hputs : m.Puts hashKeyId early row) (hw : written past = [row])
  | commit (group : List Row) (early : List Event) (hsub : early ⊆ past)
      (hcommits : m.Commits hashKeyId early group) (hw : written past = group)
      (hfound : ∀ id, past.any (foundSettled id) = true → early.any (foundSettled id) = true)

theorem Method.History.quiet {e : Event} (h : m.History hashKeyId past) (hquiet : wrote e = [])
    (hfound : ∀ id, foundSettled id e = true → written past = []) :
    m.History hashKeyId (e :: past) := by
  have hsame : written (e :: past) = written past := by rw [written_cons, hquiet, List.nil_append]
  cases h with
  | nothing hw => exact .nothing (hsame.trans hw)
  | put row early hsub hputs hw =>
    exact .put row early (List.subset_cons_of_subset _ hsub) hputs (hsame.trans hw)
  | commit group early hsub hcommits hw hearly =>
    refine .commit group early (List.subset_cons_of_subset _ hsub) hcommits (hsame.trans hw) ?_
    intro id hid
    rw [List.any_cons, Bool.or_eq_true] at hid
    rcases hid with hnow | hpast
    · exact absurd (hw.symm.trans (hfound id hnow)) (commits_keys hcommits).2.1
    · exact hearly id hpast

theorem history_of_kept (h : System.Kept (Duty hashKeyId m) past) :
    m.History hashKeyId past := by
  induction past with
  | nil => exact .nothing rfl
  | cons e past ih =>
    obtain ⟨hduty, hpast⟩ := h
    have hcommit : ∀ group, wrote e = group → written past = [] →
        m.Commits hashKeyId past group → (∀ id, foundSettled id e = false) →
        m.History hashKeyId (e :: past) := by
      intro group hw hfirst hcommits hfound
      refine .commit group past (List.subset_cons_self _ _) hcommits ?_ fun id hid => ?_
      · rw [written_cons, hw, hfirst, List.append_nil]
      · rwa [List.any_cons, hfound id, Bool.false_or] at hid
    obtain ⟨o, a⟩ := e
    cases o with
    | put row =>
      cases a with
      | error e => exact (ih hpast).quiet rfl fun _ h => by cases h
      | ok u =>
        refine .put row past (List.subset_cons_self _ _) hduty.2 ?_
        rw [written_cons, hduty.1]
        rfl
    | putSynced row =>
      cases a with
      | error e => exact (ih hpast).quiet rfl fun _ h => by cases h
      | ok u => exact hcommit _ rfl hduty.1 hduty.2 fun _ => rfl
    | writeBatch group =>
      cases a with
      | error e => exact (ih hpast).quiet rfl fun _ h => by cases h
      | ok u => exact hcommit _ rfl hduty.1 hduty.2 fun _ => rfl
    | contains k => exact (ih hpast).quiet rfl fun _ _ => hduty
    | _ => exact (ih hpast).quiet rfl fun _ h => by cases h

/-- A call mints at most one token. -/
theorem uuid_unique (h : System.Kept (Duty hashKeyId m) past) {u v : String}
    (hu : ⟨.newUuid, u⟩ ∈ past) (hv : ⟨.newUuid, v⟩ ∈ past) : u = v := by
  induction past with
  | nil => cases hu
  | cons e past ih =>
    obtain ⟨hduty, hpast⟩ := h
    rcases List.mem_cons.1 hu with rfl | hu'
    · have hnil : past = [] := hduty
      subst hnil
      cases List.mem_singleton.1 hv
      rfl
    · rcases List.mem_cons.1 hv with rfl | hv'
      · have hnil : past = [] := hduty
        subst hnil
        cases hu'
      · exact ih hpast hu' hv'

end Histories

section Amounts
variable (hashKeyId : String → String)

def balanceAt (rows : Rows) (h : String) : Nat := (rows.get (.bal h)).elim 0 (·.balance.toNat)

def Method.debit : Method → Nat
  | .debitBalance _ amount => amount.toNat
  | _ => 0

def Method.credit : Method → Nat
  | .createBalanceKey _ balance _ _ => balance.toNat
  | .refundBalance _ amount => amount.toNat
  | .settleBatchRefund _ refund _ _ => refund.toNat
  | _ => 0

/-- The call has committed a balance row of the key. -/
def moved (h : String) (past : List Event) : Bool := .bal h ∈ (written past).keys

def debits (h : String) (m : Method) (past : List Event) : Nat :=
  if moved h past then m.debit else 0

def credits (h : String) (m : Method) (past : List Event) : Nat :=
  if moved h past then m.credit else 0

/-- What a call that returned took from the key. -/
def debitOk (h : String) (m : Method) (_ : List Event) (a : m.Ans) : Nat :=
  match m, a with
  | .debitBalance keyId amount, .ok _ => if hashKeyId keyId = h then amount.toNat else 0
  | _, _ => 0

/-- What a call that returned gave to the key: its first balance, a refund, or the settlement
of a batch that was not settled before. -/
def creditOk (h : String) (m : Method) (past : List Event) (a : m.Ans) : Nat :=
  match m, a with
  | .createBalanceKey _ balance _ _, .ok id => if hashKeyId id = h then balance.toNat else 0
  | .refundBalance keyId amount, .ok _ => if hashKeyId keyId = h then amount.toNat else 0
  | .settleBatchRefund keyId refund id _, .ok _ =>
    if hashKeyId keyId = h ∧ past.any (foundSettled id) = false then refund.toNat else 0
  | _, _ => 0

/-- A quantity of the calls that returned, added up. -/
def returnedTotal (s : (calls hashKeyId).State)
    (F : (m : Method) → List Event → m.Ans → Nat) : Nat :=
  ∑ t ∈ Finset.range s.tasks.length, match s.tasks[t]? with
    | some ⟨_, some (.ret ⟨m, a⟩)⟩ => F m (System.trace s.log t) a
    | _ => 0

/-- No credit saturates at the step. -/
def unsaturated (s : (calls hashKeyId).State) (act : (calls hashKeyId).Action) : Bool :=
  match act with
  | .exec t _ => match s.tasks[t]? with
    | some ⟨m, some (.op o _)⟩ => o.rows.all fun row => match row with
      | ⟨.bal h, _⟩ => balanceAt (rowsOf s) h + m.credit < 2 ^ 256
      | _ => true
    | _ => true
  | _ => true

/-- The runs of the calls on a store opened with the rows, in which no credit saturates. -/
abbrev LedgerRun (rows₀ : Rows) (s : (calls hashKeyId).State) : Prop :=
  StoreRun hashKeyId rows₀ (fun s act => unsaturated hashKeyId s act = true) s

/-- What one call may do to the balance row of a key. -/
inductive Method.Moves (h : String) : Method → Option BalanceRecord → Option BalanceRecord →
    Prop where
  | create (label : String) (balance : U256) (depositAddress : H160) (backing : UInt8)
      (now : UInt64) : Moves h (.createBalanceKey label balance depositAddress backing) none
        (some ⟨label, now, false, backing, depositAddress, balance⟩)
  | debit (keyId : String) (amount : U256) (r : BalanceRecord) (hkey : hashKeyId keyId = h)
      (hlive : r.revoked = false) (hcover : amount.toNat ≤ r.balance.toNat) :
      Moves h (.debitBalance keyId amount) (some r)
        (some { r with balance := r.balance - amount })
  | refund (keyId : String) (amount : U256) (r : BalanceRecord) (hkey : hashKeyId keyId = h) :
      Moves h (.refundBalance keyId amount) (some r)
        (some { r with balance := saturatingAdd r.balance amount })
  | settle (keyId : String) (refund : U256) (id : String) (b : PersistedBatch)
      (r : BalanceRecord) (hkey : hashKeyId keyId = h) :
      Moves h (.settleBatchRefund keyId refund id b) (some r)
        (some { r with balance := saturatingAdd r.balance refund })
  | revoke (keyId : String) (r : BalanceRecord) (hkey : hashKeyId keyId = h) :
      Moves h (.revoke keyId) (some r) (some { r with revoked := true })

end Amounts

section Returns
variable {hashKeyId : String → String} {m : Method} {past : List Event} {h : String}

theorem moved_of_nothing (hw : written past = []) : moved h past = false := by
  simp [moved, hw]

theorem moved_of_put {row : Row} {early : List Event} (hputs : m.Puts hashKeyId early row)
    (hw : written past = [row]) : moved h past = false := by
  have := bal_not_puts (h := h) hputs
  simp [moved, hw, Ne.symm this]

theorem moved_of_returned_ok (keyId : String) {a : m.Ans}
    (hist : m.History hashKeyId past) (hret : m.Returned hashKeyId past a)
    (hok : m.isOk a = true) (hwrite : m.isWrite = true)
    (hnoput : ∀ early row, early ⊆ past → m.Puts hashKeyId early row → False)
    (hkeys : ∀ early group, m.Commits hashKeyId early group →
      (RowKey.bal h ∈ group.keys ↔ hashKeyId keyId = h)) :
    moved h past = true ↔ hashKeyId keyId = h := by
  cases hist with
  | nothing hw => exact absurd hw (hret.of_ok hok hwrite)
  | put row early hsub hputs hw => exact (hnoput early row hsub hputs).elim
  | commit group early hsub hcommits hw hfound =>
    rw [← hkeys early group hcommits]
    simp [moved, hw]

theorem not_moved_of_error {a : m.Ans} (hret : m.Returned hashKeyId past a)
    (hno : m.isOk a = false) : moved h past = false := by
  rcases hret.of_error hno with hw | href
  · exact moved_of_nothing hw
  · cases m with
    | settleBatchRefund keyId refund id b => simp [moved, href.2]
    | _ => exact href.elim

theorem moved_of_debited {keyId : String} {amount new : U256}
    (hist : (Method.debitBalance keyId amount).History hashKeyId past)
    (hret : (Method.debitBalance keyId amount).Returned hashKeyId past (.ok new)) :
    moved h past = true ↔ hashKeyId keyId = h := by
  refine moved_of_returned_ok _ hist hret rfl rfl (fun _ _ _ hputs => hputs) ?_
  intro early group hcommits
  obtain ⟨r, _, _, _, rfl⟩ := hcommits
  simp [eq_comm]

theorem debits_of_returned {a : m.Ans} (hist : m.History hashKeyId past)
    (hret : m.Returned hashKeyId past a) :
    debits h m past = debitOk hashKeyId h m past a := by
  cases m with
  | debitBalance keyId amount =>
    cases a with
    | error e => simp [debits, debitOk, not_moved_of_error hret rfl]
    | ok new =>
      simp [debits, debitOk, Method.debit, moved_of_debited hist hret]
  | _ => cases a <;> simp [debits, debitOk, Method.debit]

theorem moved_of_created {label : String} {balance : U256} {depositAddress : H160}
    {backing : UInt8} {id : String}
    (hkept : System.Kept (Duty hashKeyId (.createBalanceKey label balance depositAddress backing))
      past)
    (hret : (Method.createBalanceKey label balance depositAddress backing).Returned hashKeyId past
      (.ok id)) : moved h past = true ↔ hashKeyId id = h := by
  obtain ⟨uuid, huuid, rfl⟩ := hret.named
  cases history_of_kept hkept with
  | nothing hw => exact absurd hw (hret.of_ok rfl rfl)
  | put row early hsub hputs hw => exact hputs.elim
  | commit group early hsub hcommits hw hfound =>
    obtain ⟨uuid', now, huuid', rfl⟩ := hcommits
    rw [uuid_unique hkept huuid (hsub huuid')]
    simp [moved, hw, tokenHash, eq_comm]

theorem moved_of_settled {keyId id : String} {refund : U256} {b : PersistedBatch} {new : U256}
    (hist : (Method.settleBatchRefund keyId refund id b).History hashKeyId past)
    (hret : (Method.settleBatchRefund keyId refund id b).Returned hashKeyId past (.ok new)) :
    moved h past = true ↔ hashKeyId keyId = h ∧ past.any (foundSettled id) = false := by
  cases hist with
  | nothing hw => exact absurd hw (hret.of_ok rfl rfl)
  | put row early hsub hputs hw =>
    have hfound := any_foundSettled.2 (hsub hputs.1)
    simp [moved_of_put hputs hw, hfound]
  | commit group early hsub hcommits hw hfound =>
    obtain ⟨r, _, hnot, rfl⟩ := hcommits
    have hfirst : past.any (foundSettled id) = false := by
      by_contra hany
      exact hnot (any_foundSettled.1 (hfound id (Bool.eq_true_of_not_eq_false hany)))
    simp [moved, hw, hfirst, eq_comm]

theorem credits_of_returned {a : m.Ans} (hkept : System.Kept (Duty hashKeyId m) past)
    (hret : m.Returned hashKeyId past a) :
    credits h m past = creditOk hashKeyId h m past a := by
  have hist := history_of_kept hkept
  cases m with
  | createBalanceKey label balance depositAddress backing =>
    cases a with
    | error e => simp [credits, creditOk, not_moved_of_error hret rfl]
    | ok id => simp [credits, creditOk, Method.credit, moved_of_created hkept hret]
  | refundBalance keyId amount =>
    cases a with
    | error e => simp [credits, creditOk, not_moved_of_error hret rfl]
    | ok new =>
      have := moved_of_returned_ok (h := h) keyId hist hret rfl rfl
        (fun _ _ _ hputs => hputs) fun early group hcommits => by
          obtain ⟨r, _, rfl⟩ := hcommits
          simp [eq_comm]
      simp [credits, creditOk, Method.credit, this]
  | settleBatchRefund keyId refund id b =>
    cases a with
    | error e => simp [credits, creditOk, not_moved_of_error hret rfl]
    | ok new =>
      simp only [credits, creditOk, Method.credit, moved_of_settled hist hret]
  | _ => cases a <;> simp [credits, creditOk, Method.credit]

end Returns

section Runs
variable {hashKeyId : String → String} {rows₀ : Rows}
variable {ok : (calls hashKeyId).State → (calls hashKeyId).Action → Prop}
variable {s s' : (calls hashKeyId).State}

theorem rows_of_wrote {o : Op} {a : o.Ans} {row : Row} (h : row ∈ wrote ⟨o, a⟩) :
    row ∈ o.rows := by
  cases o with
  | put row' => cases a <;> first | exact h | cases h
  | putSynced row' => cases a <;> first | exact h | cases h
  | writeBatch group => cases a <;> first | exact h | cases h
  | _ => cases h

/-- A commit is one of the moves of its call, on the row that the store holds. -/
theorem moves_of_commit {t : Nat} {m : Method} {group : List Row} {h : String}
    (hI : LockInv rows₀ s) (hrunning : s.running t = true)
    (hfirst : written (System.trace s.log t) = [])
    (hcommits : m.Commits hashKeyId (System.trace s.log t) group)
    (hmem : .bal h ∈ group.keys) :
    m.Moves hashKeyId h ((rowsOf s).get (.bal h)) (((rowsOf s).commit group).get (.bal h)) := by
  obtain ⟨hnodup, _, _⟩ := commits_keys hcommits
  have hnew : ∀ r, ⟨.bal h, r⟩ ∈ group →
      ((rowsOf s).commit group).get (.bal h) = some r := fun r hr =>
    DurableStore.get_commit_mem _ hnodup hr
  cases m with
  | createBalanceKey label balance depositAddress backing =>
    obtain ⟨uuid, now, huuid, rfl⟩ := hcommits
    have hkey : h = tokenHash hashKeyId uuid := by simpa using hmem
    subst hkey
    rw [hnew _ List.mem_cons_self, hI.unused t uuid huuid hfirst]
    exact .create label balance depositAddress backing now
  | debitBalance keyId amount =>
    obtain ⟨r, hlocked, hlive, hcover, rfl⟩ := hcommits
    have hkey : h = hashKeyId keyId := by simpa using hmem
    subst hkey
    rw [hnew _ List.mem_cons_self, hI.read t _ r hrunning hlocked hfirst]
    exact .debit keyId amount r rfl hlive hcover
  | refundBalance keyId amount =>
    obtain ⟨r, hlocked, rfl⟩ := hcommits
    have hkey : h = hashKeyId keyId := by simpa using hmem
    subst hkey
    rw [hnew _ List.mem_cons_self, hI.read t _ r hrunning hlocked hfirst]
    exact .refund keyId amount r rfl
  | settleBatchRefund keyId refund id b =>
    obtain ⟨r, hlocked, _, rfl⟩ := hcommits
    have hkey : h = hashKeyId keyId := by simpa using hmem
    subst hkey
    rw [hnew _ List.mem_cons_self, hI.read t _ r hrunning hlocked hfirst]
    exact .settle keyId refund id b r rfl
  | revoke keyId =>
    obtain ⟨r, hlocked, rfl⟩ := hcommits
    have hkey : h = hashKeyId keyId := by simpa using hmem
    subst hkey
    rw [hnew _ List.mem_cons_self, hI.read t _ r hrunning hlocked hfirst]
    exact .revoke keyId r rfl
  | markBatchSettled =>
    cases hcommits
    simp at hmem
  | recordRefundOwed =>
    obtain ⟨owed, rfl⟩ := hcommits
    simp at hmem
  | setModelBudget | debitModelBudget | refundModelBudget =>
    obtain ⟨v, rfl⟩ := hcommits
    simp at hmem
  | getBalanceRecord | persistBatch | loadBatches | batchWasSettled => exact hcommits.elim

/-- What one access does to the balance row of a key: nothing, or the one move of its call. -/
theorem bal_of_advance {t : Nat} {m : Method} {o : Op} {k : o.Ans → M ((m : Method) × m.Ans)}
    {a : o.Ans} {sh : Shared} (hI : LockInv rows₀ s)
    (htask : s.tasks[t]? = some ⟨m, some (.op o k)⟩)
    (hduty : Duty hashKeyId m (System.trace s.log t) ⟨o, a⟩)
    (hacc : Accessed hashKeyId s.shared t ⟨o, a⟩ sh) (h : String) :
    (sh.store.rows.get (.bal h) = (rowsOf s).get (.bal h) ∧
      moved h (⟨o, a⟩ :: System.trace s.log t) = moved h (System.trace s.log t)) ∨
    (m.Moves hashKeyId h ((rowsOf s).get (.bal h)) (sh.store.rows.get (.bal h)) ∧
      moved h (System.trace s.log t) = false ∧
      moved h (⟨o, a⟩ :: System.trace s.log t) = true ∧ .bal h ∈ o.rows.keys) := by
  have hchange := change_of hacc hduty
  generalize sh.store.rows = rows' at hchange ⊢
  cases hchange with
  | quiet e hquiet => exact Or.inl ⟨rfl, by simp [moved, hquiet]⟩
  | put row hfirst hputs =>
    have hne : RowKey.bal h ≠ row.1 := (bal_not_puts hputs).symm
    exact Or.inl ⟨DurableStore.get_put_ne _ hne, by simp [moved, wrote, hne]⟩
  | commit e group hwrote hfirst hcommits =>
    by_cases hmem : RowKey.bal h ∈ group.keys
    · refine Or.inr ⟨moves_of_commit hI (System.running_of_task htask) hfirst hcommits hmem,
        moved_of_nothing hfirst, ?_, ?_⟩
      · simp [moved, hwrote, hmem]
      · obtain ⟨r, hr⟩ := List.mem_keys.1 hmem
        rw [← hwrote] at hr
        exact List.mem_keys_of_mem (rows_of_wrote hr)
    · refine Or.inl ⟨DurableStore.get_commit_ne _ hmem, ?_⟩
      simp [moved, hwrote, hmem]

theorem Method.Moves.conserve {m : Method} {h : String} {before after : Option BalanceRecord}
    (hmoves : m.Moves hashKeyId h before after)
    (hroom : before.elim 0 (·.balance.toNat) + m.credit < 2 ^ 256) :
    after.elim 0 (·.balance.toNat) + m.debit = before.elim 0 (·.balance.toNat) + m.credit := by
  cases hmoves with
  | create label balance depositAddress backing now => simp [Method.debit, Method.credit]
  | debit keyId amount r hkey hlive hcover =>
    have hle : amount ≤ r.balance := hcover
    simp only [Option.elim_some, Method.debit, Method.credit, BitVec.toNat_sub_of_le hle]
    omega
  | refund keyId amount r hkey =>
    exact saturatingAdd_toNat_of_lt hroom
  | settle keyId refund id b r hkey =>
    exact saturatingAdd_toNat_of_lt hroom
  | revoke keyId r hkey => rfl

/-- The ledger: what the store holds for a key is accounted for by the commits. -/
theorem balance_of_run (hopen : Opened rows₀) (hrun : LedgerRun hashKeyId rows₀ s) (h : String) :
    balanceAt (rowsOf s) h + s.total (debits h) =
      balanceAt rows₀ h + s.total (credits h) := by
  have hdebits : ∀ m, debits h m [] = 0 := fun m => rfl
  have hcredits : ∀ m, credits h m [] = 0 := fun m => rfl
  refine System.Reach.invariant (fun s => balanceAt (rowsOf s) h + s.total (debits h) =
    balanceAt rows₀ h + s.total (credits h)) hrun rfl ?_
  intro s s' act hr hinv hstep hT
  have hI := lockInv_of_run hopen hr
  cases hT with
  | start m sh hstart =>
    cases hstart
    rw [hr.total_begin hdebits, hr.total_begin hcredits]
    exact hinv
  | exec t c m o k a sh htask hhandle =>
    have hd := hr.total_advance hdebits htask a sh
    have hc := hr.total_advance hcredits htask a sh
    have hroom := hstep
    simp only [unsaturated, htask, List.all_eq_true] at hroom
    rw [rowsOf, advance_store]
    rcases bal_of_advance hI htask (duty_of_task hr htask a) (handle_cases hhandle) h with
      ⟨hsame, hstay⟩ | ⟨hmoves, hbefore, hafter, hmem⟩
    · have hbal : balanceAt sh.store.rows h = balanceAt (rowsOf s) h := by
        rw [balanceAt, hsame, balanceAt]
      rw [debits, debits, hstay] at hd
      rw [credits, credits, hstay] at hc
      omega
    · obtain ⟨r, hr⟩ := List.mem_keys.1 hmem
      have hbal : balanceAt sh.store.rows h + m.debit = balanceAt (rowsOf s) h + m.credit :=
        hmoves.conserve (of_decide_eq_true (hroom _ hr))
      rw [debits, debits, hbefore, hafter, if_pos rfl, if_neg Bool.false_ne_true] at hd
      rw [credits, credits, hbefore, hafter, if_pos rfl, if_neg Bool.false_ne_true] at hc
      omega
  | drop t m o k htask =>
    have hjob : s.job t = some m := by simp [System.job_of_task htask]
    rw [System.total_dropped hjob, System.total_dropped hjob]
    exact hinv
  | world w sh hworld =>
    obtain ⟨mask⟩ := w
    cases hworld
    rw [System.total_turned, System.total_turned]
    have hsame : ((rowsOf s).crash mask).get (.bal h) = (rowsOf s).get (.bal h) :=
      DurableStore.get_crash_of_synced (hI.synced h)
    show ((rowsOf s).crash mask |>.get (.bal h)).elim 0 _ + _ = _
    rw [hsame]
    exact hinv

/-- What one step does to the balance row of a key, with the call that did it. -/
theorem bal_of_step (hopen : Opened rows₀) (hr : StoreRun hashKeyId rows₀ ok s)
    {act : (calls hashKeyId).Action} (hstep : (calls hashKeyId).step s act = some s')
    (h : String) :
    ((rowsOf s').get (.bal h) = (rowsOf s).get (.bal h) ∧
      ∀ u, moved h (System.trace s'.log u) = moved h (System.trace s.log u)) ∨
    ∃ t c m, act = .exec t c ∧ s.job t = some m ∧
      m.Moves hashKeyId h ((rowsOf s).get (.bal h)) ((rowsOf s').get (.bal h)) ∧
      ∀ u ≠ t, moved h (System.trace s'.log u) = moved h (System.trace s.log u) := by
  have hI := lockInv_of_run hopen hr
  cases System.step_cases hstep with
  | start m sh hstart =>
    cases hstart
    exact Or.inl ⟨rfl, fun _ => rfl⟩
  | exec t c m o k a sh htask hhandle =>
    have hother : ∀ u ≠ t, moved h (System.trace (s.advance t m o k a sh).log u) =
        moved h (System.trace s.log u) := fun u hut => by rw [System.trace_advance_ne s hut]
    simp only [rowsOf, advance_store]
    rcases bal_of_advance hI htask (duty_of_task hr htask a) (handle_cases hhandle) h with
      ⟨hsame, hstay⟩ | ⟨hmoves, _, _, _⟩
    · refine Or.inl ⟨hsame, fun u => ?_⟩
      by_cases hut : u = t
      · rw [hut, System.trace_advance_self, hstay]
      · exact hother u hut
    · exact Or.inr ⟨t, c, m, rfl, by simp [System.job_of_task htask], hmoves, hother⟩
  | drop t m o k htask => exact Or.inl ⟨rfl, fun _ => rfl⟩
  | world w sh hworld =>
    obtain ⟨mask⟩ := w
    cases hworld
    exact Or.inl ⟨DurableStore.get_crash_of_synced (hI.synced h), fun _ => rfl⟩

/-- No debit of the key can commit: its row is revoked, or it is no balance key. -/
def Unspendable (rows₀ : Rows) (s : (calls hashKeyId).State) (h : String) : Prop :=
  (∃ r, (rowsOf s).get (.bal h) = some r ∧ r.revoked = true) ∨
    (rows₀.get (.record h)).isSome = true

theorem Unspendable.step {h : String} (hu : Unspendable rows₀ s h) (hopen : Opened rows₀)
    (hr : StoreRun hashKeyId rows₀ ok s) {act : (calls hashKeyId).Action}
    (hstep : (calls hashKeyId).step s act = some s') : Unspendable rows₀ s' h := by
  refine hu.imp_left fun ⟨r, hget, hrevoked⟩ => ?_
  rcases bal_of_step hopen hr hstep h with ⟨hsame, _⟩ | ⟨t, c, m, _, _, hmoves, _⟩
  · exact ⟨r, hsame.trans hget, hrevoked⟩
  · rw [hget] at hmoves
    generalize hafter : (rowsOf s').get (.bal h) = after at hmoves ⊢
    cases hmoves with
    | debit keyId amount r' hkey hlive hcover => simp [hrevoked] at hlive
    | refund keyId amount r' hkey => exact ⟨_, rfl, hrevoked⟩
    | settle keyId refund id b r' hkey => exact ⟨_, rfl, hrevoked⟩
    | revoke keyId r' hkey => exact ⟨_, rfl, rfl⟩

theorem Unspendable.no_debit {h : String} (hu : Unspendable rows₀ s h) (hopen : Opened rows₀)
    (hr : StoreRun hashKeyId rows₀ ok s) {act : (calls hashKeyId).Action}
    (hstep : (calls hashKeyId).step s act = some s') {u : Nat} {keyId : String} {amount : U256}
    (hjob : s.job u = some (.debitBalance keyId amount)) :
    moved h (System.trace s'.log u) = moved h (System.trace s.log u) := by
  rcases bal_of_step hopen hr hstep h with ⟨_, hsame⟩ | ⟨t, c, m, _, hm, hmoves, hother⟩
  · exact hsame u
  · refine hother u ?_
    rintro rfl
    rw [hjob] at hm
    cases hm
    generalize (rowsOf s').get (.bal h) = after at hmoves
    generalize hbefore : (rowsOf s).get (.bal h) = before at hmoves
    cases hmoves with
    | debit _ _ r hkey hlive hcover =>
      rcases hu with ⟨r', hget, hrevoked⟩ | hrecord
      · rw [hbefore] at hget
        cases hget
        simp [hrevoked] at hlive
      · have := (lockInv_of_run hopen hr).disjoint h r hbefore
        simp [this] at hrecord

/-- A revocation that has committed leaves the key unspendable for good. -/
theorem unspendable_of_moved (hopen : Opened rows₀) (hr : StoreRun hashKeyId rows₀ ok s)
    {t : Nat} {keyId h : String} (hjob : s.job t = some (.revoke keyId))
    (hmoved : moved h (System.trace s.log t) = true) : Unspendable rows₀ s h := by
  induction hr with
  | refl => cases hmoved
  | @step s s' act hr hok hstep ih =>
    have hr' : StoreRun hashKeyId rows₀ ok s' := .step hr hok hstep
    by_cases hbefore : moved h (System.trace s.log t) = true
    · have hlt : t < s.tasks.length := by
        by_contra hge
        rw [hr.trace_eq_nil (by omega)] at hbefore
        cases hbefore
      rw [System.job_eq_of_step hstep hlt] at hjob
      exact (ih hjob hbefore).step hopen hr hstep
    · rcases bal_of_step hopen hr hstep h with ⟨_, hsame⟩ | ⟨u, c, m, _, hm, hmoves, hother⟩
      · exact absurd ((hsame t).symm.trans hmoved) hbefore
      · by_cases htu : t = u
        · subst htu
          have := System.job_step hstep hm
          rw [hjob] at this
          cases this
          generalize hafter : (rowsOf s').get (.bal h) = after at hmoves
          generalize (rowsOf s).get (.bal h) = before at hmoves
          cases hmoves with
          | revoke _ r hkey => exact Or.inl ⟨_, hafter, rfl⟩
        · exact absurd ((hother t htu).symm.trans hmoved) hbefore

theorem returned_of_run (hr : StoreRun hashKeyId rows₀ ok s) {t : Nat} {m : Method}
    {r : (m : Method) × m.Ans} (htask : s.tasks[t]? = some ⟨m, some (.ret r)⟩) :
    ∃ a, r = ⟨m, a⟩ ∧ m.Returned hashKeyId (System.trace s.log t) a :=
  hr.meets contract (contract_served ok) htask

theorem returned_of_task (hr : StoreRun hashKeyId rows₀ ok s) {t : Nat} {m : Method} {a : m.Ans}
    (htask : s.tasks[t]? = some ⟨m, some (.ret ⟨m, a⟩)⟩) :
    m.Returned hashKeyId (System.trace s.log t) a := by
  obtain ⟨a', ha, hret⟩ := returned_of_run hr htask
  cases ha
  exact hret

theorem kept_of_run (hr : StoreRun hashKeyId rows₀ ok s) {t : Nat} {m : Method}
    (hjob : s.job t = some m) : System.Kept (Duty hashKeyId m) (System.trace s.log t) :=
  hr.kept contract (contract_served ok) hjob

theorem unspendable_of_revoked (hopen : Opened rows₀) (hr : StoreRun hashKeyId rows₀ ok s)
    {t : Nat} {keyId : String}
    (htask : s.tasks[t]? = some ⟨.revoke keyId, some (.ret ⟨.revoke keyId, .ok ()⟩)⟩) :
    Unspendable rows₀ s (hashKeyId keyId) := by
  have hjob : s.job t = some (.revoke keyId) := by simp [System.job_of_task htask]
  obtain ⟨a, ha, hret⟩ := returned_of_run hr htask
  cases ha
  cases history_of_kept (kept_of_run hr hjob) with
  | nothing hw => exact absurd hw (hret.of_ok rfl rfl)
  | put row early hsub hputs hw =>
    obtain ⟨r, hread, _⟩ := hputs
    exact Or.inr ((lockInv_of_run hopen hr).readRecords t _ r (hsub hread))
  | commit group early hsub hcommits hw hfound =>
    obtain ⟨r, _, rfl⟩ := hcommits
    exact unspendable_of_moved hopen hr hjob (by simp [moved, hw])

/-- Once a revocation has returned, no debit of the key commits any more. -/
theorem no_debit_after_revoke (hopen : Opened rows₀) (hr : StoreRun hashKeyId rows₀ ok s)
    {h : String} (hu : Unspendable rows₀ s h)
    (hrest : System.Reach (calls hashKeyId) ok s s') :
    Unspendable rows₀ s' h ∧ ∀ u keyId amount, s'.job u = some (.debitBalance keyId amount) →
      moved h (System.trace s'.log u) = moved h (System.trace s.log u) := by
  induction hrest with
  | refl => exact ⟨hu, fun _ _ _ _ => rfl⟩
  | @step s₁ s₂ act hmid hok hstep ih =>
    obtain ⟨hu₁, hsame⟩ := ih
    have hr₁ := hr.trans hmid
    refine ⟨hu₁.step hopen hr₁ hstep, fun u keyId amount hjob => ?_⟩
    by_cases hlt : u < s₁.tasks.length
    · rw [System.job_eq_of_step hstep hlt] at hjob
      rw [hu₁.no_debit hopen hr₁ hstep hjob, hsame u keyId amount hjob]
    · -- a debit that has just begun has no history yet, in either state
      have hnew : System.trace s₁.log u = [] := hr₁.trace_eq_nil (Nat.not_lt.1 hlt)
      have hold : System.trace s.log u = [] := by
        refine hr.trace_eq_nil (Nat.le_of_not_lt fun hus => hlt ?_)
        obtain ⟨p, hp⟩ := System.job_eq_some.1
          (hmid.job_mono (System.job_of_task (List.getElem?_eq_getElem hus)))
        exact (List.getElem?_eq_some_iff.1 hp).1
      have hstay : moved h (System.trace s₂.log u) = moved h (System.trace s₁.log u) := by
        rcases bal_of_step hopen hr₁ hstep h with ⟨_, hall⟩ | ⟨t, c, m, _, hm, _, hother⟩
        · exact hall u
        · refine hother u fun heq => hlt ?_
          obtain ⟨p, hp⟩ := System.job_eq_some.1 hm
          exact heq ▸ (List.getElem?_eq_some_iff.1 hp).1
      rw [hstay, hnew, hold]

/-- Every call that has written has returned. -/
def Quiescent (s : (calls hashKeyId).State) : Prop :=
  ∀ t, written (System.trace s.log t) ≠ [] → ∃ m r, s.tasks[t]? = some ⟨m, some (.ret r)⟩

theorem total_eq_returnedTotal (hr : StoreRun hashKeyId rows₀ ok s) (hquiet : Quiescent s)
    {F : Method → List Event → Nat} {G : (m : Method) → List Event → m.Ans → Nat}
    (hnothing : ∀ m past, written past = [] → F m past = 0)
    (hF : ∀ t m a, s.tasks[t]? = some ⟨m, some (.ret ⟨m, a⟩)⟩ →
      F m (System.trace s.log t) = G m (System.trace s.log t) a) :
    s.total F = returnedTotal hashKeyId s G := by
  refine Finset.sum_congr rfl fun t ht => ?_
  have hlt := Finset.mem_range.1 ht
  rw [System.job_of_task (List.getElem?_eq_getElem hlt), List.getElem?_eq_getElem hlt]
  have htask := List.getElem?_eq_getElem hlt
  generalize s.tasks[t] = task at htask
  obtain ⟨m, p⟩ := task
  match p with
  | some (.ret r) =>
    obtain ⟨a, rfl, _⟩ := returned_of_run hr htask
    exact hF t m a htask
  | none | some (.op o k) =>
    refine hnothing m _ (by_contra fun hw => ?_)
    obtain ⟨m', r, hr'⟩ := hquiet t hw
    rw [htask] at hr'
    cases hr'

/-- Everything a run of the ledger keeps. -/
structure Conserved (hashKeyId : String → String) (rows₀ : Rows)
    (s : (calls hashKeyId).State) : Prop where
  committed : ∀ h, balanceAt (rowsOf s) h + s.total (debits h) =
    balanceAt rows₀ h + s.total (credits h)
  returned : Quiescent s → ∀ h,
    balanceAt (rowsOf s) h + returnedTotal hashKeyId s (debitOk hashKeyId h) =
      balanceAt rows₀ h + returnedTotal hashKeyId s (creditOk hashKeyId h)
  /-- A debit returns `Ok` iff it has committed. -/
  paid : ∀ (t : Nat) keyId amount (a : Except BalanceError U256),
    s.tasks[t]? = some ⟨.debitBalance keyId amount, some (.ret ⟨.debitBalance keyId amount, a⟩)⟩ →
      (a.isOk = true ↔ moved (hashKeyId keyId) (System.trace s.log t) = true)
  moves : ∀ act s', (calls hashKeyId).step s act = some s' → ∀ h,
    (rowsOf s').get (.bal h) = (rowsOf s).get (.bal h) ∨
      ∃ t c m, act = .exec t c ∧ s.job t = some m ∧
        m.Moves hashKeyId h ((rowsOf s).get (.bal h)) ((rowsOf s').get (.bal h))
  revoked : ∀ (t : Nat) (keyId : String),
    s.tasks[t]? = some ⟨.revoke keyId, some (.ret ⟨.revoke keyId, .ok ()⟩)⟩ →
      ∀ s', System.Reach (calls hashKeyId)
        (fun s act => unsaturated hashKeyId s act = true) s s' →
      ∀ u debited amount, s'.job u = some (.debitBalance debited amount) →
        hashKeyId debited = hashKeyId keyId →
        moved (hashKeyId keyId) (System.trace s'.log u) =
          moved (hashKeyId keyId) (System.trace s.log u)
  hindered : ∀ (t : Nat) (m : Method) (a : m.Ans), s.tasks[t]? = some ⟨m, some (.ret ⟨m, a⟩)⟩ →
    m.isOk a = false → m.Hindered hashKeyId (System.trace s.log t)
  errors : ∀ (t : Nat) (m : Method) (a : m.Ans), s.tasks[t]? = some ⟨m, some (.ret ⟨m, a⟩)⟩ →
    m.isOk a = false → written (System.trace s.log t) = [] ∨ m.Refreshed (System.trace s.log t)
  /-- Rows change by a recorded write of the call that moves, or by a restart. -/
  rows : ∀ act s', (calls hashKeyId).step s act = some s' →
    rowsOf s' = rowsOf s ∨ (∃ mask, act = .world (.restart mask)) ∨
      ∃ t c, act = .exec t c ∧
        written (System.trace s'.log t) ≠ written (System.trace s.log t)

theorem rows_of_step (hr : StoreRun hashKeyId rows₀ ok s)
    {act : (calls hashKeyId).Action} (hstep : (calls hashKeyId).step s act = some s') :
    rowsOf s' = rowsOf s ∨ (∃ mask, act = .world (.restart mask)) ∨
      ∃ t c, act = .exec t c ∧
        written (System.trace s'.log t) ≠ written (System.trace s.log t) := by
  cases System.step_cases hstep with
  | start m sh hstart =>
    cases hstart
    exact Or.inl rfl
  | exec t c m o k a sh htask hhandle =>
    have hchange := change_of (handle_cases hhandle) (duty_of_task hr htask a)
    by_cases hw : wrote (⟨o, a⟩ : Event) = []
    · refine Or.inl ?_
      rw [rowsOf, advance_store]
      generalize sh.store.rows = rows' at hchange
      cases hchange with
      | quiet e hquiet => rfl
      | put row hfirst hputs => cases hw
      | commit e group hwrote hfirst hcommits =>
        exact absurd (hwrote.symm.trans hw) (commits_keys hcommits).2.1
    · refine Or.inr (Or.inr ⟨t, c, rfl, ?_⟩)
      rw [System.trace_advance_self, written_cons]
      exact fun heq => hw (List.append_left_eq_self.1 heq)
  | drop t m o k htask => exact Or.inl rfl
  | world w sh hworld =>
    obtain ⟨mask⟩ := w
    exact Or.inr (Or.inl ⟨mask, rfl⟩)

theorem conserved_of_run (hopen : Opened rows₀) (hrun : LedgerRun hashKeyId rows₀ s) :
    Conserved hashKeyId rows₀ s where
  committed := balance_of_run hopen hrun
  returned hquiet h := by
    rw [← total_eq_returnedTotal (F := debits h) hrun hquiet ?_ ?_,
      ← total_eq_returnedTotal (F := credits h) hrun hquiet ?_ ?_]
    · exact balance_of_run hopen hrun h
    · intro m past hw
      simp [credits, moved_of_nothing hw]
    · intro t m a htask
      exact credits_of_returned (kept_of_run hrun (by simp [System.job_of_task htask]))
        (returned_of_task hrun htask)
    · intro m past hw
      simp [debits, moved_of_nothing hw]
    · intro t m a htask
      exact debits_of_returned
        (history_of_kept (kept_of_run hrun (by simp [System.job_of_task htask])))
        (returned_of_task hrun htask)
  paid t keyId amount a htask := by
    have hret := returned_of_task hrun htask
    have hist := history_of_kept (kept_of_run hrun (System.job_of_task htask))
    cases a with
    | error e => simp [not_moved_of_error hret rfl, Except.isOk, Except.toBool]
    | ok new => simp [moved_of_debited hist hret, Except.isOk, Except.toBool]
  moves act s' hstep h :=
    (bal_of_step hopen hrun hstep h).imp (·.1) fun ⟨t, c, m, hact, hm, hmoves, _⟩ =>
      ⟨t, c, m, hact, hm, hmoves⟩
  revoked t keyId htask s' hrest u debited amount hjob hkey :=
    (no_debit_after_revoke hopen hrun (unspendable_of_revoked hopen hrun htask) hrest).2 u debited
      amount hjob
  hindered t m a htask hno := (returned_of_task hrun htask).hindered hno
  errors t m a htask hno := (returned_of_task hrun htask).of_error hno
  rows act s' hstep := rows_of_step hrun hstep

end Runs

section Sample

def sampleUuid : String := "0f8fad5b-d9cb-469f-a165-70867728950e"

def sampleKeyId : String := "cgk_" ++ sampleUuid

/-- A key id that was never handed out. -/
def strayKeyId : String := "cgk_7c9e6679-7425-40de-944b-e07fc1f90ae7"

def sampleHash (keyId : String) : String :=
  if keyId = sampleKeyId then "242ea112ccfe192f3f8b3e94ff1fff9f85feed8bf9606195ebd14f79ebc452bf"
  else if keyId = strayKeyId then "fbe8587cdd416b6fe56beb7b7d4dba0760aa5e48bb0bda9fbd0edaf5f60b81ad"
  else ""

def snapshot (released refunded : String) : PersistedBatch where
  id := "batch_1"
  status := .completed
  paidEscrowGrains := "10"
  releasedGrains := released
  refundedGrains := refunded
  payerApiKeyId := some sampleKeyId
  x402Payer := none
  readTokenHash := none
  slots := []
  createdAt := 7
  refundSettled := true

/-- What a ledger run of the jobs under the inputs leads to. -/
def ledgerOutcome (rows : Rows) (acts : List (calls sampleHash).Action) :
    Option (calls sampleHash).State :=
  (calls sampleHash).run (unsaturated sampleHash) ((calls sampleHash).init (Shared.opened rows))
    acts

theorem ledgerRun_of_outcome {rows : Rows} {acts : List (calls sampleHash).Action}
    {s : (calls sampleHash).State} (h : ledgerOutcome rows acts = some s) :
    LedgerRun sampleHash rows s :=
  .of_run (fun _ _ h => h) h

def ofTask (t n : Nat) : List (calls sampleHash).Action := List.replicate n (.exec t .ok)

/-- A key of 100 grains is debited by 30, and the store restarts while a refund of 5 that has
committed still holds its lock. -/
def sampleActs : List (calls sampleHash).Action :=
  [.start (.createBalanceKey "acme" 100 0 1), .exec 0 (.uuid sampleUuid), .exec 0 (.secs 7),
    .exec 0 .ok, .start (.debitBalance sampleKeyId 30), .start (.refundBalance sampleKeyId 5)] ++
    ofTask 1 4 ++ ofTask 2 3 ++ [.world (.restart [])]

theorem opened_empty : Opened (DurableStore.empty : Rows) := ⟨rfl, fun h r hget => by cases hget⟩

theorem conserved_of_run_sample : ∃ s, LedgerRun sampleHash DurableStore.empty s ∧
    balanceAt (rowsOf s) (sampleHash sampleKeyId) = 75 ∧
    Conserved sampleHash DurableStore.empty s := by
  have houtcome : (ledgerOutcome DurableStore.empty sampleActs).map
      (fun s => balanceAt (rowsOf s) (sampleHash sampleKeyId)) = some 75 := by
    decide +kernel
  obtain ⟨s, hs, hbalance⟩ := Option.map_eq_some_iff.1 houtcome
  have hrun := ledgerRun_of_outcome hs
  exact ⟨s, hrun, hbalance, conserved_of_run opened_empty hrun⟩

def sampleRows : Rows where
  durable := [⟨.bal (sampleHash sampleKeyId), ⟨"acme", 7, false, 1, 0, 90⟩⟩]
  pending := []

def settleActs : List (calls sampleHash).Action :=
  .start (.settleBatchRefund sampleKeyId 4 "batch_1" (snapshot "6" "4")) :: ofTask 0 5

/-- The batch is settled again, for a key that does not exist. -/
def strayActs : List (calls sampleHash).Action :=
  .start (.settleBatchRefund strayKeyId 4 "batch_1" (snapshot "0" "10")) :: ofTask 1 5

def hasFailed (k : (calls sampleHash).Task) : Bool :=
  match k.prog with
  | some (.ret ⟨m, a⟩) => !m.isOk a
  | _ => false

/-- A settlement that returns an error has rewritten the snapshot of the batch. -/
theorem settle_error_rewrites_snapshot :
    ∃ s s', LedgerRun sampleHash sampleRows s ∧
      (calls sampleHash).run (unsaturated sampleHash) s strayActs = some s' ∧
      (∃ k ∈ s'.tasks[1]?, hasFailed k = true) ∧
      (rowsOf s).get (.batch "batch_1") = some (snapshot "6" "4") ∧
      (rowsOf s').get (.batch "batch_1") = some (snapshot "0" "10") := by
  have houtcome : ((ledgerOutcome sampleRows settleActs).bind fun s =>
      ((calls sampleHash).run (unsaturated sampleHash) s strayActs).map fun s' =>
        ((s'.tasks[1]?).any hasFailed, (rowsOf s).get (.batch "batch_1"),
          (rowsOf s').get (.batch "batch_1"))) =
      some (true, some (snapshot "6" "4"), some (snapshot "0" "10")) := by
    decide +kernel
  obtain ⟨s, hs, hrest⟩ := Option.bind_eq_some_iff.1 houtcome
  obtain ⟨s', hs', heq⟩ := Option.map_eq_some_iff.1 hrest
  obtain ⟨hfailed, hrows⟩ := Prod.mk.inj heq
  obtain ⟨hbefore, hafter⟩ := Prod.mk.inj hrows
  obtain ⟨k, hk, hno⟩ := (Option.any_eq_true _ _).1 hfailed
  exact ⟨s, s', ledgerRun_of_outcome hs, hs', ⟨k, hk, hno⟩, hbefore, hafter⟩

end Sample
end Gateway.KeyStore
