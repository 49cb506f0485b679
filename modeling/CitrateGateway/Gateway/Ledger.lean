import CitrateGateway.Gateway.StoreAccess
import CitrateGateway.Gateway.StorePromise

/-!
# The balance ledger under concurrency

The lock of a key keeps its balance row as the holder read it, and no other row of a balance
is written. So every committed group changes the balance of one key by exactly the amount of
its call, for all interleavings of the single accesses and with restarts anywhere.
-/

namespace Gateway.KeyStore
set_option autoImplicit false
open Words Effects Durable

section Steps
variable {hashKeyId : String → String}

/-- What an access does to the rows, with what the call owes for it. -/
inductive Change (hashKeyId : String → String) (m : Method) (past : List Event) (rows : Rows) :
    Event → Rows → Prop where
  | quiet (e : Event) (hquiet : wrote e = []) : Change hashKeyId m past rows e rows
  | put (row : Row) (hfirst : written past = []) (hputs : m.Puts hashKeyId past row) :
      Change hashKeyId m past rows ⟨.put row, .ok ()⟩ (rows.put row)
  | commit (e : Event) (group : List Row) (hwrote : wrote e = group)
      (hfirst : written past = []) (hcommits : m.Commits hashKeyId past group) :
      Change hashKeyId m past rows e (rows.commit group)

theorem change_of {sh sh' : Shared} {t : Nat} {e : Event} {m : Method} {past : List Event}
    (hacc : Accessed hashKeyId sh t e sh') (hduty : Duty hashKeyId m past e) :
    Change hashKeyId m past sh.store.rows e sh'.store.rows := by
  cases hacc with
  | put row => exact .put row hduty.1 hduty.2
  | putSynced row => exact .commit _ [row] rfl hduty.1 hduty.2
  | writeBatch group => exact .commit _ group rfl hduty.1 hduty.2
  | _ => exact .quiet _ rfl

/-- Who writes a balance row holds the row it read, or mints its key. -/
theorem bal_mem_commits {m : Method} {past : List Event} {group : List Row} {h : String}
    (hcommits : m.Commits hashKeyId past group) (hmem : RowKey.bal h ∈ group.keys) :
    (∃ r, Locked past h r) ∨
      ∃ uuid, ⟨.newUuid, uuid⟩ ∈ past ∧ h = tokenHash hashKeyId uuid := by
  cases m with
  | createBalanceKey =>
    obtain ⟨uuid, now, huuid, rfl⟩ := hcommits
    simp only [List.keys_cons, List.keys_nil, List.mem_singleton, RowKey.bal.injEq] at hmem
    exact Or.inr ⟨uuid, huuid, hmem⟩
  | debitBalance =>
    obtain ⟨r, hlocked, _, _, rfl⟩ := hcommits
    simp only [List.keys_cons, List.keys_nil, List.mem_singleton, RowKey.bal.injEq] at hmem
    exact Or.inl ⟨r, hmem ▸ hlocked⟩
  | refundBalance =>
    obtain ⟨r, hlocked, rfl⟩ := hcommits
    simp only [List.keys_cons, List.keys_nil, List.mem_singleton, RowKey.bal.injEq] at hmem
    exact Or.inl ⟨r, hmem ▸ hlocked⟩
  | settleBatchRefund =>
    obtain ⟨r, hlocked, _, rfl⟩ := hcommits
    simp only [List.keys_cons, List.keys_nil, List.mem_cons, RowKey.bal.injEq, reduceCtorEq,
      List.not_mem_nil, or_false] at hmem
    exact Or.inl ⟨r, hmem ▸ hlocked⟩
  | revoke =>
    obtain ⟨r, hlocked, rfl⟩ := hcommits
    simp only [List.keys_cons, List.keys_nil, List.mem_singleton, RowKey.bal.injEq] at hmem
    exact Or.inl ⟨r, hmem ▸ hlocked⟩
  | markBatchSettled =>
    cases hcommits
    simp at hmem
  | recordRefundOwed =>
    obtain ⟨owed, rfl⟩ := hcommits
    simp at hmem
  | setModelBudget | debitModelBudget | refundModelBudget =>
    obtain ⟨v, rfl⟩ := hcommits
    simp at hmem
  | getBalanceRecord | persistBatch | loadBatches | batchWasSettled => exact hcommits.elim

/-- Only a revocation touches the record of a proxy key, and it has read one. -/
theorem record_mem_puts {m : Method} {past : List Event} {row : Row} {h : String}
    (hputs : m.Puts hashKeyId past row) (hkey : row.1 = .record h) :
    ∃ r, ⟨.get (.record h), .ok (some r)⟩ ∈ past := by
  cases m with
  | persistBatch =>
    cases hputs
    cases hkey
  | settleBatchRefund =>
    obtain ⟨_, rfl⟩ := hputs
    cases hkey
  | revoke =>
    obtain ⟨r, hread, rfl⟩ := hputs
    cases hkey
    exact ⟨r, hread⟩
  | _ => exact hputs.elim

theorem bal_not_puts {m : Method} {past : List Event} {row : Row} {h : String}
    (hputs : m.Puts hashKeyId past row) : row.1 ≠ .bal h := by
  rintro hkey
  cases m with
  | persistBatch => cases hputs; cases hkey
  | settleBatchRefund => obtain ⟨_, rfl⟩ := hputs; cases hkey
  | revoke => obtain ⟨r, _, rfl⟩ := hputs; cases hkey
  | _ => exact hputs.elim

theorem commits_keys {m : Method} {past : List Event} {group : List Row}
    (hcommits : m.Commits hashKeyId past group) :
    group.NodupKeys ∧ group ≠ [] ∧ ∀ h, RowKey.record h ∉ group.keys := by
  cases m with
  | createBalanceKey => obtain ⟨uuid, now, _, rfl⟩ := hcommits; simp [List.NodupKeys]
  | debitBalance => obtain ⟨r, _, _, _, rfl⟩ := hcommits; simp [List.NodupKeys]
  | refundBalance => obtain ⟨r, _, rfl⟩ := hcommits; simp [List.NodupKeys]
  | settleBatchRefund => obtain ⟨r, _, _, rfl⟩ := hcommits; simp [List.NodupKeys]
  | revoke => obtain ⟨r, _, rfl⟩ := hcommits; simp [List.NodupKeys]
  | markBatchSettled => cases hcommits; simp [List.NodupKeys]
  | recordRefundOwed => obtain ⟨owed, rfl⟩ := hcommits; simp [List.NodupKeys]
  | setModelBudget | debitModelBudget | refundModelBudget =>
    obtain ⟨v, rfl⟩ := hcommits
    simp [List.NodupKeys]
  | getBalanceRecord | persistBatch | loadBatches | batchWasSettled => exact hcommits.elim

end Steps

section Invariant
variable {hashKeyId : String → String}

/-- A store as it is opened: nothing outstanding, and no hash has a row of both kinds. -/
structure Opened (rows : Rows) : Prop where
  pending : rows.pending = []
  disjoint : ∀ h r, rows.get (.bal h) = some r → rows.get (.record h) = none

variable (hashKeyId) in
/-- The runs of the calls on a store opened with the rows. -/
abbrev StoreRun (rows₀ : Rows)
    (ok : (calls hashKeyId).State → (calls hashKeyId).Action → Prop) :=
  System.Reach (calls hashKeyId) ok ((calls hashKeyId).init (Shared.opened rows₀))

abbrev rowsOf (s : (calls hashKeyId).State) : Rows := s.shared.store.rows

structure LockInv (rows₀ : Rows) (s : (calls hashKeyId).State) : Prop where
  locked : ∀ t h, s.running t = true → held (System.trace s.log t) = some h →
    s.shared.holder h = some t
  read : ∀ t h r, s.running t = true → Locked (System.trace s.log t) h r →
    written (System.trace s.log t) = [] → (rowsOf s).get (.bal h) = some r
  minted : ∀ t x, ⟨.newUuid, x⟩ ∈ System.trace s.log t →
    tokenHash hashKeyId x ∈ s.shared.store.issued ∧ rows₀.get (.record (tokenHash hashKeyId x)) = none
  distinct : ∀ t u x y, ⟨.newUuid, x⟩ ∈ System.trace s.log t →
    ⟨.newUuid, y⟩ ∈ System.trace s.log u → tokenHash hashKeyId x = tokenHash hashKeyId y → t = u
  unused : ∀ t x, ⟨.newUuid, x⟩ ∈ System.trace s.log t → written (System.trace s.log t) = [] →
    (rowsOf s).get (.bal (tokenHash hashKeyId x)) = none
  records : ∀ h r, (rowsOf s).Possible (.record h) r → (rows₀.get (.record h)).isSome = true
  durableRecords : ∀ h, (rows₀.get (.record h)).isSome = true →
    ((rowsOf s).durable.dlookup (.record h)).isSome = true
  readRecords : ∀ t h r, ⟨.get (.record h), .ok (some r)⟩ ∈ System.trace s.log t →
    (rows₀.get (.record h)).isSome = true
  disjoint : ∀ h r, (rowsOf s).get (.bal h) = some r → rows₀.get (.record h) = none
  synced : ∀ h, (rowsOf s).Synced (.bal h)

section Exec
variable {rows₀ : Rows} {ok : (calls hashKeyId).State → (calls hashKeyId).Action → Prop}
variable {s : (calls hashKeyId).State} {t : Nat} {m : Method} {o : Op}
variable {k : o.Ans → M ((m : Method) × m.Ans)} {a : o.Ans} {sh : Shared}

theorem Change.get_bal {past : List Event} {rows rows' : Rows} {e : Event} (h : String)
    (hchange : Change hashKeyId m past rows e rows') :
    rows'.get (.bal h) = rows.get (.bal h) ∨
      (.bal h ∈ (wrote e).keys ∧ written past = [] ∧
        m.Commits hashKeyId past (wrote e)) := by
  cases hchange with
  | quiet e hquiet => exact Or.inl rfl
  | put row hfirst hputs =>
    exact Or.inl (DurableStore.get_put_ne _ (bal_not_puts hputs).symm)
  | commit e group hwrote hfirst hcommits =>
    subst hwrote
    by_cases hmem : RowKey.bal h ∈ (wrote e).keys
    · exact Or.inr ⟨hmem, hfirst, hcommits⟩
    · exact Or.inl (DurableStore.get_commit_ne _ hmem)

theorem held_of_mem {h : String} {l : List Event} (hheld : held l = some h) : l ≠ [] := by
  rintro rfl
  cases hheld

theorem depth_of_held {h : String} {l : List Event} (hheld : held l = some h) :
    0 < depth (.key h) l := by
  fun_induction held l with
  | case1 => cases hheld
  | case2 h' a l =>
    cases hheld
    simp [depth]
  | case3 => cases hheld
  | case4 e l hlock hunlock ih =>
    obtain ⟨o, a⟩ := e
    cases o with
    | lock h' => exact absurd rfl (hlock h' a)
    | unlock h' => exact absurd rfl (hunlock h' a)
    | lockPool | unlockPool => simpa [depth] using ih hheld
    | _ => exact ih hheld

/-- Who took a lock and runs is its holder. -/
def LocksHeld (s : (calls hashKeyId).State) : Prop :=
  ∀ t h, s.running t = true → held (System.trace s.log t) = some h → s.shared.holder h = some t

variable (hI : LockInv rows₀ s) (hr : StoreRun hashKeyId rows₀ ok s)
variable (htask : s.tasks[t]? = some ⟨m, some (.op o k)⟩)
variable (hduty : Duty hashKeyId m (System.trace s.log t) ⟨o, a⟩)
variable (hacc : Accessed hashKeyId s.shared t ⟨o, a⟩ sh)
include hI hr htask hduty hacc

omit hr in
/-- A commit of `t` leaves the balance row of a key that another call holds alone. -/
theorem get_bal_of_holder {u : Nat} {h : String} (hut : u ≠ t) (hholder : s.shared.holder h = some u)
    (hrow : (rowsOf s).get (.bal h) ≠ none) :
    sh.store.rows.get (.bal h) = (rowsOf s).get (.bal h) := by
  rcases (change_of hacc hduty).get_bal h with hsame | ⟨hmem, hfirst, hcommits⟩
  · exact hsame
  rcases bal_mem_commits hcommits hmem with ⟨r, hlocked⟩ | ⟨x, hx, rfl⟩
  · have := hI.locked t h (System.running_of_task htask) hlocked.1
    rw [hholder] at this
    exact absurd (Option.some.inj this) hut
  · exact absurd (hI.unused t x hx hfirst) hrow

theorem read_advance {u : Nat} {h : String} {r : BalanceRecord}
    (hu : (s.advance t m o k a sh).running u = true)
    (hlocked : Locked (System.trace (s.advance t m o k a sh).log u) h r)
    (hw : written (System.trace (s.advance t m o k a sh).log u) = []) :
    (rowsOf (s.advance t m o k a sh)).get (.bal h) = some r := by
  rw [rowsOf, advance_store]
  by_cases hut : u = t
  · subst hut
    rw [System.trace_advance_self] at hlocked hw
    have hrunning := System.running_of_task htask
    have hquiet : wrote ⟨o, a⟩ = [] := (List.append_eq_nil_iff.1 hw).1
    have hpast := (List.append_eq_nil_iff.1 hw).2
    cases hacc with
    | read key =>
      cases key with
      | bal h' =>
        obtain ⟨hheld, hlast⟩ := hlocked
        cases hget : (rowsOf s).get (.bal h') with
        | none =>
          rw [show s.shared.store.rows.get (.bal h') = none from hget] at hheld hlast
          exact hI.read u h r hrunning ⟨hheld, hlast⟩ hpast
        | some r' =>
          rw [show s.shared.store.rows.get (.bal h') = some r' from hget] at hlast
          cases hlast
          exact hget
      | _ => exact hI.read u h r hrunning hlocked hpast
    | getFailed key e => cases key <;> exact hI.read u h r hrunning hlocked hpast
    | put row => cases hquiet
    | putSynced row => cases hquiet
    | writeBatch group =>
      have := (commits_keys hduty.2).2.1
      exact absurd hquiet this
    | locked h' hfree => cases hlocked.2
    | unlocked h' => cases hlocked.1
    | _ => exact hI.read u h r hrunning hlocked hpast
  · rw [System.trace_advance_ne s hut] at hlocked hw
    have hrunning := hr.running_advance hut hu (held_of_mem hlocked.1)
    have hold := hI.read u h r hrunning hlocked hw
    rw [get_bal_of_holder hI htask hduty hacc hut (hI.locked u h hrunning hlocked.1)
      (by rw [hold]; simp), hold]

omit hr in
/-- A freshly minted key has no row of either kind. -/
theorem fresh_of_minted {x : String} (he : (⟨o, a⟩ : Event) = ⟨.newUuid, x⟩) :
    tokenHash hashKeyId x ∉ s.shared.store.issued ∧
      tokenHash hashKeyId x ∈ sh.store.issued ∧ sh.store.rows = rowsOf s ∧
      (rowsOf s).get (.bal (tokenHash hashKeyId x)) = none ∧
      rows₀.get (.record (tokenHash hashKeyId x)) = none := by
  cases hacc with
  | minted u hfresh =>
    cases he
    simp only [Store.fresh, Bool.and_eq_true, decide_eq_true_eq, Option.isNone_iff_eq_none]
      at hfresh
    obtain ⟨⟨hissued, hbal⟩, hrecord⟩ := hfresh
    refine ⟨hissued, List.mem_cons_self, rfl, hbal, ?_⟩
    by_contra hsome
    have := hI.durableRecords _ (Option.isSome_iff_ne_none.2 hsome)
    rw [DurableStore.get_eq, Option.or_eq_none_iff] at hrecord
    simp [hrecord.2] at this
  | _ => cases he

theorem LockInv.advance (hlocks : LocksHeld (s.advance t m o k a sh)) :
    LockInv rows₀ (s.advance t m o k a sh) := by
  have hchange := change_of hacc hduty
  have hmem : ∀ u e, e ∈ System.trace (s.advance t m o k a sh).log u →
      (u = t ∧ e = ⟨o, a⟩) ∨ e ∈ System.trace s.log u := by
    intro u e he
    by_cases hut : u = t
    · subst hut
      rw [System.trace_advance_self] at he
      exact (List.mem_cons.1 he).imp (⟨rfl, ·⟩) id
    · rw [System.trace_advance_ne s hut] at he
      exact Or.inr he
  refine
    { locked := hlocks
      read := fun u h r => read_advance hI hr htask hduty hacc
      minted := ?_, distinct := ?_, unused := ?_, records := ?_, durableRecords := ?_
      readRecords := ?_, disjoint := ?_, synced := ?_ }
  · intro u x hx
    rw [advance_store]
    rcases hmem u _ hx with ⟨_, he⟩ | hx
    · obtain ⟨_, hissued, _, _, hrecord⟩ := fresh_of_minted hI htask hduty hacc he.symm
      exact ⟨hissued, hrecord⟩
    · exact ⟨issued_mono hacc (hI.minted u x hx).1, (hI.minted u x hx).2⟩
  · intro u v x y hx hy hxy
    rcases hmem u _ hx with ⟨rfl, he⟩ | hx' <;> rcases hmem v _ hy with ⟨rfl, he'⟩ | hy'
    · rfl
    · have := (fresh_of_minted hI htask hduty hacc he.symm).1
      rw [hxy] at this
      exact absurd (hI.minted v y hy').1 this
    · have := (fresh_of_minted hI htask hduty hacc he'.symm).1
      rw [← hxy] at this
      exact absurd (hI.minted u x hx').1 this
    · exact hI.distinct u v x y hx' hy' hxy
  · intro u x hx hw
    rw [rowsOf, advance_store]
    rcases hmem u _ hx with ⟨_, he⟩ | hx'
    · obtain ⟨_, _, hrows, hbal, _⟩ := fresh_of_minted hI htask hduty hacc he.symm
      rw [hrows, hbal]
    · have hpast : written (System.trace s.log u) = [] ∧ (u = t → wrote ⟨o, a⟩ = []) := by
        by_cases hut : u = t
        · subst hut
          rw [System.trace_advance_self] at hw
          exact ⟨(List.append_eq_nil_iff.1 hw).2, fun _ => (List.append_eq_nil_iff.1 hw).1⟩
        · rw [System.trace_advance_ne s hut] at hw
          exact ⟨hw, fun h => absurd h hut⟩
      have hnone := hI.unused u x hx' hpast.1
      rcases hchange.get_bal (tokenHash hashKeyId x) with hsame | ⟨hkey, hfirst, hcommits⟩
      · rw [hsame, ← hnone]
      rcases bal_mem_commits hcommits hkey with ⟨r, hlocked⟩ | ⟨y, hy, heq⟩
      · have := hI.read t _ r (System.running_of_task htask) hlocked hfirst
        rw [hnone] at this
        cases this
      · have hut := hI.distinct u t x y hx' hy heq
        rw [hpast.2 hut] at hkey
        cases hkey
  · intro h r hpossible
    rw [rowsOf, advance_store] at hpossible
    generalize sh.store.rows = rows' at hchange hpossible
    cases hchange with
    | quiet e hquiet => exact hI.records h r hpossible
    | put row hfirst hputs =>
      rcases DurableStore.possible_put hpossible with rfl | hold
      · obtain ⟨r', hread⟩ := record_mem_puts hputs rfl
        exact hI.readRecords t h r' hread
      · exact hI.records h r hold
    | commit e group hwrote hfirst hcommits =>
      obtain ⟨hnodup, _, hnot⟩ := commits_keys hcommits
      rcases DurableStore.possible_commit hnodup hpossible with hin | ⟨_, hold⟩
      · exact absurd (List.mem_keys_of_mem hin) (hnot h)
      · exact hI.records h r (DurableStore.possible_of_get hold)
  · intro h hsome
    have hold := hI.durableRecords h hsome
    rw [rowsOf, advance_store]
    generalize sh.store.rows = rows' at hchange
    cases hchange with
    | quiet e hquiet => exact hold
    | put row hfirst hputs => exact hold
    | commit e group hwrote hfirst hcommits =>
      exact DurableStore.isSome_durable_commit group hold
  · intro u h r hread
    rcases hmem u _ hread with ⟨_, he⟩ | hread
    · rw [← he] at hacc
      exact hI.records h r (DurableStore.possible_of_get (get_of_accessed hacc))
    · exact hI.readRecords u h r hread
  · intro h r hrow
    rw [rowsOf, advance_store] at hrow
    rcases hchange.get_bal h with hsame | ⟨hkey, hfirst, hcommits⟩
    · rw [hsame] at hrow
      exact hI.disjoint h r hrow
    rcases bal_mem_commits hcommits hkey with ⟨r', hlocked⟩ | ⟨x, hx, rfl⟩
    · exact hI.disjoint h r' (hI.read t h r' (System.running_of_task htask) hlocked hfirst)
    · exact (hI.minted t x hx).2
  · intro h
    rw [rowsOf, advance_store]
    generalize sh.store.rows = rows' at hchange
    cases hchange with
    | quiet e hquiet => exact hI.synced h
    | put row hfirst hputs =>
      exact (DurableStore.synced_put_ne (bal_not_puts hputs).symm).2 (hI.synced h)
    | commit e group hwrote hfirst hcommits =>
      exact DurableStore.synced_commit _ _ _

end Exec

section Runs
variable {rows₀ : Rows} {ok : (calls hashKeyId).State → (calls hashKeyId).Action → Prop}
variable {s : (calls hashKeyId).State}

theorem contract_served (ok : (calls hashKeyId).State → (calls hashKeyId).Action → Prop) :
    (@contract hashKeyId).Served ok :=
  fun _ _ _ _ _ _ _ _ => trivial

theorem duty_of_task (hr : StoreRun hashKeyId rows₀ ok s) {t : Nat} {m : Method} {o : Op}
    {k : o.Ans → M ((m : Method) × m.Ans)} (htask : s.tasks[t]? = some ⟨m, some (.op o k)⟩)
    (a : o.Ans) : Duty hashKeyId m (System.trace s.log t) ⟨o, a⟩ :=
  (Prog.meets_op.1 (hr.meets contract (contract_served ok) htask) a trivial).1

theorem guarded_of_duty (m : Method) (past : List Event) (e : Event)
    (hduty : Duty hashKeyId m past e) : Guarded past e := by
  obtain ⟨o, a⟩ := e
  cases o with
  | unlock h => exact depth_of_held hduty
  | unlockPool => exact hduty.elim
  | _ => trivial

theorem locksHeld_of_run (hrun : StoreRun hashKeyId rows₀ ok s) : LocksHeld s :=
  fun t h hr hheld => (held_of_run contract guarded_of_duty (contract_served ok) hrun).holder t
    (.key h) hr (depth_of_held hheld)

theorem LockInv.init (hopen : Opened rows₀) :
    LockInv rows₀ ((calls hashKeyId).init (Shared.opened rows₀)) := by
  have hdurable : ∀ k, rows₀.get k = rows₀.durable.dlookup k := by
    intro k
    rw [DurableStore.get, hopen.pending, List.nil_append]
  refine
    { locked := ?_, read := ?_, minted := ?_, distinct := ?_, unused := ?_, records := ?_
      durableRecords := ?_, readRecords := ?_, disjoint := hopen.disjoint, synced := ?_ }
  · intro t h hr
    simp [System.State.running, System.init] at hr
  · intro t h r hr
    simp [System.State.running, System.init] at hr
  · intro t x hx
    simp [System.init] at hx
  · intro t u x y hx
    simp [System.init] at hx
  · intro t x hx
    simp [System.init] at hx
  · rintro h r (hpending | hlookup)
    · have hmem : ⟨.record h, r⟩ ∈ rows₀.pending := hpending
      rw [hopen.pending] at hmem
      cases hmem
    · rw [hdurable, show rows₀.durable.dlookup (.record h) = some r from hlookup]
      rfl
  · intro h hsome
    rw [hdurable] at hsome
    exact hsome
  · intro t h r hx
    simp [System.init] at hx
  · intro h
    show RowKey.bal h ∉ rows₀.pending.keys
    rw [hopen.pending]
    exact List.not_mem_nil

theorem LockInv.crash (hI : LockInv rows₀ s) (mask : List Bool) (sh : Shared)
    (hrows : sh.store.rows = (rowsOf s).crash mask) (hissued : sh.store.issued =
      s.shared.store.issued) : LockInv rows₀ (s.turned (.restart mask) sh) := by
  have hstopped : ∀ t, (s.turned (.restart mask) sh).running t = true → False := by
    intro t h
    rw [System.running_of_halted rfl] at h
    cases h
  have hbal : ∀ h, sh.store.rows.get (.bal h) = (rowsOf s).get (.bal h) := fun h => by
    rw [hrows, DurableStore.get_crash_of_synced (hI.synced h)]
  refine
    { locked := fun t h hr => (hstopped t hr).elim
      read := fun t h r hr => (hstopped t hr).elim
      minted := fun t x hx => ?_, distinct := hI.distinct
      unused := fun t x hx hw => (hbal _).trans (hI.unused t x hx hw)
      records := fun h r hpossible => ?_, durableRecords := fun h hsome => ?_
      readRecords := hI.readRecords
      disjoint := fun h r hrow => hI.disjoint h r ((hbal h).symm.trans hrow)
      synced := fun h => ?_ }
  · show _ ∈ sh.store.issued ∧ _
    rw [hissued]
    exact hI.minted t x hx
  · have hget : sh.store.rows.get (.record h) = some r :=
      (DurableStore.possible_iff_of_synced (by
        rw [hrows]; exact DurableStore.synced_crash _ _ _)).1 hpossible
    rw [hrows] at hget
    exact hI.records h r (DurableStore.possible_of_crash hget)
  · show (sh.store.rows.durable.dlookup _).isSome = true
    rw [hrows, DurableStore.crash, List.dlookup_append, Option.isSome_or,
      hI.durableRecords h hsome, Bool.or_true]
  · show sh.store.rows.Synced _
    rw [hrows]
    exact DurableStore.synced_crash _ _ _

theorem lockInv_of_run (hopen : Opened rows₀) (hrun : StoreRun hashKeyId rows₀ ok s) :
    LockInv rows₀ s := by
  refine System.Reach.invariant (LockInv rows₀) hrun (LockInv.init hopen) ?_
  intro s s' act hr hI hok hT
  have hr' : StoreRun hashKeyId rows₀ ok s' := .step hr hok (System.step_of_transition hT)
  cases hT with
  | start m sh hstart =>
    cases hstart
    refine { hI with locked := locksHeld_of_run hr', read := fun u h r hu hl hw => ?_ }
    · exact hI.read u h r (hr.running_begin hu (held_of_mem hl.1)) hl hw
  | exec t c m o k a sh htask hhandle =>
    exact hI.advance hr htask (duty_of_task hr htask a) (handle_cases hhandle)
      (locksHeld_of_run hr')
  | drop t m o k htask =>
    refine { hI with locked := locksHeld_of_run hr', read := fun u h r hu hl hw => ?_ }
    · exact hI.read u h r (System.running_of_dropped hu).2 hl hw
  | world w sh hworld =>
    obtain ⟨mask⟩ := w
    cases hworld
    exact hI.crash mask _ rfl rfl

end Runs
end Invariant
end Gateway.KeyStore
