import CitrateGateway.Shared.Linearize
import CitrateGateway.Gateway.Ledger

/-!
# Model budgets under concurrency

A debit and a refund of a model budget read the row and write it back under the lock of the
key; setting a budget writes the row with no lock. Each call takes effect at one operation.
The calls come out as if they had run one after another, in the order of these operations, as
long as no set slips in between the read and the write of another call.
-/

namespace Gateway.KeyStore
set_option autoImplicit false
open Words Effects Durable

section Calls
variable (hashKeyId : String → String)

def isBudget : RowKey → Bool
  | .mbudget _ _ => true
  | _ => false

/-- The budget row that a method works on. -/
def Method.budgetRow : Method → Option RowKey
  | .setModelBudget keyId model _ | .debitModelBudget keyId model _
  | .refundModelBudget keyId model _ => some (.mbudget (hashKeyId keyId) model)
  | _ => none

/-- The answer of a budget call, at the operation that decides it. -/
def Method.effect : (m : Method) → Event → Option m.Ans
  | .setModelBudget _ _ _, ⟨.putSynced _, .ok ()⟩ => some (.ok ())
  | .debitModelBudget _ _ _, ⟨.putSynced _, .ok ()⟩ => some (.ok ())
  | .debitModelBudget _ _ _, ⟨.get (.mbudget _ _), .ok none⟩ => some (.ok ())
  | .debitModelBudget _ _ amount, ⟨.get (.mbudget _ _), .ok (some cur)⟩ =>
    if (cur : U256).toNat < amount.toNat then some (.error (.exceeded cur)) else none
  | .refundModelBudget _ _ _, ⟨.putSynced _, .ok ()⟩ => some (.ok ())
  | .refundModelBudget _ _ _, ⟨.get (.mbudget _ _), .ok none⟩ => some (.ok ())
  | _, _ => none

/-- The call returned for the store's failure. -/
def Method.refused : (m : Method) → m.Ans → Bool
  | .setModelBudget _ _ _, .error _ | .refundModelBudget _ _ _, .error _ => true
  | .debitModelBudget _ _ _, .error (.store _) | .debitModelBudget _ _ _, .error (.crypt _) => true
  | _, _ => false

def Effectless (m : Method) (past : List Event) : Prop := ∀ e ∈ past, m.effect e = none

/-- The last thing the call did was to read the row, under the lock of its key. -/
def JustRead (past : List Event) (h model : String) (cur : U256) : Prop :=
  held past = some h ∧ past.head? = some ⟨.get (.mbudget h model), .ok (some cur)⟩

/-- The budget row that a call writes. -/
def Method.Writes (m : Method) (past : List Event) (row : Row) : Prop :=
  match m with
  | .setModelBudget keyId model amount => row = ⟨.mbudget (hashKeyId keyId) model, amount⟩
  | .debitModelBudget keyId model amount =>
    ∃ cur, JustRead past (hashKeyId keyId) model cur ∧ amount.toNat ≤ cur.toNat ∧
      row = ⟨.mbudget (hashKeyId keyId) model, cur - amount⟩
  | .refundModelBudget keyId model amount =>
    ∃ cur, JustRead past (hashKeyId keyId) model cur ∧
      row = ⟨.mbudget (hashKeyId keyId) model, saturatingAdd cur amount⟩
  | _ => False

def BudgetDuty (m : Method) (past : List Event) (e : Event) : Prop :=
  match e.1 with
  | .get (.mbudget h model) =>
    m.budgetRow hashKeyId = some (.mbudget h model) ∧ held past = some h ∧ Effectless m past
  | .put row => isBudget row.1 = false
  | .putSynced row => (m.budgetRow hashKeyId = none ∧ isBudget row.1 = false) ∨
      (m.Writes hashKeyId past row ∧ Effectless m past)
  | .writeBatch group => ∀ k ∈ group.keys, isBudget k = false
  | _ => True

/-- What the answer of a call says: it took effect, or the store refused it. -/
structure Method.Decided (m : Method) (past : List Event) (a : m.Ans) : Prop where
  took : m.budgetRow hashKeyId ≠ none → m.refused a = true ∨ ∃ e ∈ past, m.effect e = some a
  agrees : ∀ e ∈ past, ∀ b, m.effect e = some b → b = a

end Calls

section Promise
variable {hashKeyId : String → String} {m : Method} {past : List Event}

theorem effect_eq_none (hrow : m.budgetRow hashKeyId = none) (e : Event) : m.effect e = none := by
  cases m <;> first | rfl | cases hrow

theorem effectless_nil : Effectless m [] := fun _ h => absurd h List.not_mem_nil

theorem effectless_cons {e : Event} (he : m.effect e = none) (h : Effectless m past) :
    Effectless m (e :: past) := by
  intro e' hmem
  rcases List.mem_cons.1 hmem with rfl | hmem
  · exact he
  · exact h e' hmem

theorem decided_of_row_none (hrow : m.budgetRow hashKeyId = none) (a : m.Ans) :
    m.Decided hashKeyId past a :=
  ⟨fun h => absurd hrow h, fun e _ b hb => by simp [effect_eq_none hrow] at hb⟩

theorem decided_refused {a : m.Ans} (href : m.refused a = true) (hnone : Effectless m past) :
    m.Decided hashKeyId past a :=
  ⟨fun _ => Or.inl href, fun e he b hb => by simp [hnone e he] at hb⟩

theorem decided_took {a : m.Ans} {e : Event} (he : m.effect e = some a)
    (hnone : Effectless m past) : m.Decided hashKeyId (e :: past) a where
  took _ := Or.inr ⟨e, List.mem_cons_self, he⟩
  agrees e' hmem b hb := by
    rcases List.mem_cons.1 hmem with rfl | hmem
    · rw [he] at hb
      exact (Option.some.inj hb).symm
    · simp [hnone e' hmem] at hb

theorem Method.Decided.unlock {a : m.Ans} (h : m.Decided hashKeyId past a) (hash : String) :
    m.Decided hashKeyId (⟨.unlock hash, ()⟩ :: past) a where
  took hrow := (h.took hrow).imp id fun ⟨e, he, hea⟩ => ⟨e, List.mem_cons_of_mem _ he, hea⟩
  agrees e hmem b hb := by
    rcases List.mem_cons.1 hmem with rfl | hmem
    · cases m <;> cases hb
    · exact h.agrees e hmem b hb

variable (hashKeyId) in
/-- The judgement of the budget calls. -/
abbrev Budgeted (m : Method) (p : M m.Ans) (past : List Event) : Prop :=
  p.Meets AnyEvent (BudgetDuty hashKeyId m) (m.Decided hashKeyId) past

theorem withLock_budgeted {h : String} {body : M m.Ans}
    (hbody : Budgeted hashKeyId m body (⟨.lock h, ()⟩ :: past)) :
    Budgeted hashKeyId m (withLock h body) past := by
  refine Prog.meets_perform_bind.2 fun _ _ => ⟨trivial, ?_⟩
  refine Prog.Meets.bind hbody fun past' a hdec => ?_
  exact Prog.meets_perform_bind.2 fun _ _ => ⟨trivial, hdec.unlock h⟩

theorem setModelBudget_budgeted (keyId model : String) (amount : U256) :
    Budgeted hashKeyId (.setModelBudget keyId model amount)
      (setModelBudget hashKeyId keyId model amount) [] := by
  refine Prog.meets_perform_bind.2 fun w _ => ⟨Or.inr ⟨rfl, effectless_nil⟩, ?_⟩
  cases w with
  | error e => exact decided_refused rfl (effectless_cons rfl effectless_nil)
  | ok u => exact decided_took rfl effectless_nil

theorem debitModelBudget_budgeted (keyId model : String) (amount : U256) :
    Budgeted hashKeyId (.debitModelBudget keyId model amount)
      (debitModelBudget hashKeyId keyId model amount) [] := by
  refine withLock_budgeted (m := .debitModelBudget keyId model amount) ?_
  have hlocked : Effectless (.debitModelBudget keyId model amount)
      [⟨.lock (hashKeyId keyId), ()⟩] := effectless_cons rfl effectless_nil
  refine Prog.meets_perform_bind.2 fun answer _ => ⟨⟨rfl, rfl, hlocked⟩, ?_⟩
  match answer with
  | .error e =>
    cases e <;> exact decided_refused rfl (effectless_cons rfl hlocked)
  | .ok none => exact decided_took rfl hlocked
  | .ok (some cur) =>
    simp only
    split
    · rename_i hlow
      exact decided_took (if_pos hlow) hlocked
    · rename_i hlow
      have hread := effectless_cons (m := .debitModelBudget keyId model amount)
        (e := ⟨.get (.mbudget (hashKeyId keyId) model), .ok (some cur)⟩) (if_neg hlow) hlocked
      refine Prog.meets_perform_bind.2 fun w _ => ⟨Or.inr ⟨⟨cur, ⟨rfl, rfl⟩, ?_, rfl⟩, hread⟩, ?_⟩
      · omega
      · cases w with
        | error e => cases e <;> exact decided_refused rfl (effectless_cons rfl hread)
        | ok u => exact decided_took rfl hread

theorem refundModelBudget_budgeted (keyId model : String) (amount : U256) :
    Budgeted hashKeyId (.refundModelBudget keyId model amount)
      (refundModelBudget hashKeyId keyId model amount) [] := by
  refine withLock_budgeted (m := .refundModelBudget keyId model amount) ?_
  have hlocked : Effectless (.refundModelBudget keyId model amount)
      [⟨.lock (hashKeyId keyId), ()⟩] := effectless_cons rfl effectless_nil
  refine Prog.meets_perform_bind.2 fun answer _ => ⟨⟨rfl, rfl, hlocked⟩, ?_⟩
  match answer with
  | .error e => exact decided_refused rfl (effectless_cons rfl hlocked)
  | .ok none => exact decided_took rfl hlocked
  | .ok (some cur) =>
    have hread := effectless_cons (m := .refundModelBudget keyId model amount)
      (e := ⟨.get (.mbudget (hashKeyId keyId) model), .ok (some cur)⟩) rfl hlocked
    refine Prog.meets_perform_bind.2 fun w _ => ⟨Or.inr ⟨⟨cur, ⟨rfl, rfl⟩, rfl⟩, hread⟩, ?_⟩
    cases w with
    | error e => exact decided_refused rfl (effectless_cons rfl hread)
    | ok u => exact decided_took rfl hread

/-- Accesses that leave every budget row alone. -/
def OffBudgets : Op → Prop
  | .get k => isBudget k = false
  | .put row | .putSynced row => isBudget row.1 = false
  | .writeBatch group => ∀ k ∈ group.keys, isBudget k = false
  | _ => True

abbrev Off {α : Type} (p : M α) (past : List Event) : Prop :=
  p.Meets AnyEvent (fun _ e => OffBudgets e.1) (fun _ _ => True) past

theorem withLock_off {α : Type} {h : String} {body : M α}
    (hbody : Off body (⟨.lock h, ()⟩ :: past)) : Off (withLock h body) past := by
  refine Prog.meets_perform_bind.2 fun _ _ => ⟨trivial, ?_⟩
  refine Prog.Meets.bind hbody fun past' a _ => ?_
  exact Prog.meets_perform_bind.2 fun _ _ => ⟨trivial, trivial⟩

theorem settleBatchRefund_off (keyId : String) (refund : U256) (id : String)
    (b : PersistedBatch) : Off (settleBatchRefund hashKeyId keyId refund id b) [] := by
  refine withLock_off (Prog.meets_perform_bind.2 fun found _ => ⟨trivial, ?_⟩)
  match found with
  | .error e => trivial
  | .ok true =>
    refine Prog.meets_perform_bind.2 fun w _ => ⟨rfl, ?_⟩
    cases w with
    | error e => trivial
    | ok u =>
      refine Prog.meets_perform_bind.2 fun answer _ => ⟨rfl, ?_⟩
      rcases answer with e | ⟨_ | r⟩ <;> trivial
  | .ok false =>
    refine Prog.meets_perform_bind.2 fun answer _ => ⟨rfl, ?_⟩
    rcases answer with e | ⟨_ | r⟩
    · trivial
    · trivial
    · refine Prog.meets_perform_bind.2 fun w _ => ⟨by simp [OffBudgets, isBudget], ?_⟩
      cases w <;> trivial

theorem debitBalance_off (keyId : String) (amount : U256) :
    Off (debitBalance hashKeyId keyId amount) [] := by
  refine withLock_off (Prog.meets_perform_bind.2 fun answer _ => ⟨rfl, ?_⟩)
  match answer with
  | .error e => trivial
  | .ok none => trivial
  | .ok (some r) =>
    simp only
    split
    · trivial
    · split
      · trivial
      · refine Prog.meets_perform_bind.2 fun w _ => ⟨rfl, ?_⟩
        cases w <;> trivial

theorem refundBalance_off (keyId : String) (amount : U256) :
    Off (refundBalance hashKeyId keyId amount) [] := by
  refine withLock_off (Prog.meets_perform_bind.2 fun answer _ => ⟨rfl, ?_⟩)
  match answer with
  | .error e => trivial
  | .ok none => trivial
  | .ok (some r) =>
    refine Prog.meets_perform_bind.2 fun w _ => ⟨rfl, ?_⟩
    cases w <;> trivial

theorem revoke_off (keyId : String) : Off (revoke hashKeyId keyId) [] := by
  refine Prog.meets_perform_bind.2 fun found _ => ⟨rfl, ?_⟩
  match found with
  | .error e => trivial
  | .ok (some r) => exact Prog.meets_perform_bind.2 fun w _ => ⟨rfl, trivial⟩
  | .ok none =>
    refine withLock_off (Prog.meets_perform_bind.2 fun answer _ => ⟨rfl, ?_⟩)
    match answer with
    | .error e => trivial
    | .ok none => trivial
    | .ok (some r) => exact Prog.meets_perform_bind.2 fun w _ => ⟨rfl, trivial⟩

/-- A method without a budget row stays off all of them. -/
theorem prog_off (hrow : m.budgetRow hashKeyId = none) : Off (m.prog hashKeyId) [] := by
  cases m with
  | createBalanceKey label balance depositAddress backing =>
    refine Prog.meets_perform_bind.2 fun uuid _ => ⟨trivial, ?_⟩
    refine Prog.meets_perform_bind.2 fun now _ => ⟨trivial, ?_⟩
    refine Prog.meets_perform_bind.2 fun w _ => ⟨rfl, ?_⟩
    cases w <;> trivial
  | debitBalance keyId amount => exact debitBalance_off keyId amount
  | refundBalance keyId amount => exact refundBalance_off keyId amount
  | settleBatchRefund keyId refund id b => exact settleBatchRefund_off keyId refund id b
  | revoke keyId => exact revoke_off keyId
  | getBalanceRecord keyId =>
    refine Prog.meets_perform_bind.2 fun answer _ => ⟨rfl, ?_⟩
    cases answer <;> trivial
  | loadBatches | batchWasSettled =>
    refine Prog.meets_perform_bind.2 fun answer _ => ⟨trivial, ?_⟩
    cases answer <;> trivial
  | persistBatch id b => exact Prog.meets_perform_bind.2 fun w _ => ⟨rfl, trivial⟩
  | markBatchSettled id b =>
    exact Prog.meets_perform_bind.2 fun w _ => ⟨by simp [OffBudgets, isBudget], trivial⟩
  | recordRefundOwed id payer refund b =>
    refine Prog.meets_perform_bind.2 fun now _ => ⟨trivial, ?_⟩
    exact Prog.meets_perform_bind.2 fun w _ => ⟨by simp [OffBudgets, isBudget], trivial⟩
  | setModelBudget | debitModelBudget | refundModelBudget => cases hrow

theorem budgetDuty_of_off {e : Event} (hrow : m.budgetRow hashKeyId = none)
    (hoff : OffBudgets e.1) : BudgetDuty hashKeyId m past e := by
  obtain ⟨o, a⟩ := e
  cases o with
  | get k => cases k <;> trivial
  | put row => exact hoff
  | putSynced row => exact Or.inl ⟨hrow, hoff⟩
  | writeBatch group => exact hoff
  | _ => trivial

theorem prog_budgeted (m : Method) :
    Budgeted hashKeyId m (m.prog hashKeyId) [] := by
  have hquiet : m.budgetRow hashKeyId = none → Budgeted hashKeyId m
      (m.prog hashKeyId) [] := fun hrow =>
    ((prog_off hrow).mono_guar fun _ _ _ hoff => budgetDuty_of_off hrow hoff).mono
      fun _ a _ => decided_of_row_none hrow a
  cases m with
  | setModelBudget keyId model amount => exact setModelBudget_budgeted keyId model amount
  | debitModelBudget keyId model amount => exact debitModelBudget_budgeted keyId model amount
  | refundModelBudget keyId model amount => exact refundModelBudget_budgeted keyId model amount
  | _ => exact hquiet rfl

def budgetContract : System.Contract (calls hashKeyId) where
  rely := AnyEvent
  guar := BudgetDuty hashKeyId
  post := fun m past r => ∃ a, r = ⟨m, a⟩ ∧ m.Decided hashKeyId past a
  meets := fun m => (prog_budgeted m).bind fun _ a hdec => ⟨a, rfl, hdec⟩

end Promise

section Sequence
variable (hashKeyId : String → String)

/-- A call with its answer. -/
abbrev Answered := (m : Method) × m.Ans

/-- The calls one after another, none of them with a failure of the store. -/
def OneByOne : List Answered → Store → Store → Prop
  | [], st, st' => st' = st
  | ⟨m, a⟩ :: rest, st, st' =>
    ∃ mid, alone hashKeyId (m.prog hashKeyId) [.ok, .ok, .ok, .ok] st = some (a, mid) ∧
      OneByOne rest mid st'

variable {hashKeyId} {st st' : Store}

theorem OneByOne.concat {rs : List Answered} {m : Method} {a : m.Ans} {mid : Store}
    (h : OneByOne hashKeyId rs st mid)
    (halone : alone hashKeyId (m.prog hashKeyId) [.ok, .ok, .ok, .ok] mid = some (a, st')) :
    OneByOne hashKeyId (rs ++ [⟨m, a⟩]) st st' := by
  induction rs generalizing st with
  | nil =>
    cases h
    exact ⟨st', halone, rfl⟩
  | cons r rs ih =>
    obtain ⟨next, hnext, hrest⟩ := h
    exact ⟨next, hnext, ih hrest⟩

theorem alone_setModelBudget (keyId model : String) (amount : U256) (st : Store) :
    alone hashKeyId (setModelBudget hashKeyId keyId model amount) [.ok, .ok, .ok, .ok] st =
      some (.ok (), { st with
        rows := st.rows.commit [⟨.mbudget (hashKeyId keyId) model, amount⟩] }) :=
  rfl

theorem alone_debitModelBudget (keyId model : String) (amount : U256) (st : Store) :
    alone hashKeyId (debitModelBudget hashKeyId keyId model amount) [.ok, .ok, .ok, .ok] st =
      some (match st.rows.get (.mbudget (hashKeyId keyId) model) with
        | none => (.ok (), st)
        | some cur =>
          if (cur : U256).toNat < amount.toNat then (.error (.exceeded cur), st)
          else (.ok (), { st with
            rows := st.rows.commit [⟨.mbudget (hashKeyId keyId) model, (cur : U256) - amount⟩] })) := by
  rw [debitModelBudget, withLock, alone_lock, Prog.bind_assoc, alone_get]
  cases st.rows.get (.mbudget (hashKeyId keyId) model) with
  | none => rfl
  | some cur =>
    by_cases hlow : (cur : U256).toNat < amount.toNat
    · simp only [if_pos hlow]
      rfl
    · simp only [if_neg hlow]
      rfl

theorem alone_refundModelBudget (keyId model : String) (amount : U256) (st : Store) :
    alone hashKeyId (refundModelBudget hashKeyId keyId model amount) [.ok, .ok, .ok, .ok] st =
      some (match st.rows.get (.mbudget (hashKeyId keyId) model) with
        | none => (.ok (), st)
        | some cur => (.ok (), { st with
            rows := st.rows.commit
              [⟨.mbudget (hashKeyId keyId) model, saturatingAdd (cur : U256) amount⟩] })) := by
  rw [refundModelBudget, withLock, alone_lock, Prog.bind_assoc, alone_get]
  cases st.rows.get (.mbudget (hashKeyId keyId) model) with
  | none => rfl
  | some cur => rfl

end Sequence

section Effects
variable {hashKeyId : String → String} {m : Method} {past : List Event} {e : Event}
variable {sh sh' : Shared} {t : Nat} {h model : String}

theorem writes_row {row : Row} (hwrites : m.Writes hashKeyId past row) :
    m.budgetRow hashKeyId = some row.1 ∧ m.effect ⟨.putSynced row, .ok ()⟩ ≠ none := by
  cases m with
  | setModelBudget keyId model amount =>
    cases hwrites
    exact ⟨rfl, by simp [Method.effect]⟩
  | debitModelBudget keyId model amount =>
    obtain ⟨cur, _, _, rfl⟩ := hwrites
    exact ⟨rfl, by simp [Method.effect]⟩
  | refundModelBudget keyId model amount =>
    obtain ⟨cur, _, rfl⟩ := hwrites
    exact ⟨rfl, by simp [Method.effect]⟩
  | _ => exact hwrites.elim

/-- Only an effect on its row changes a budget. -/
theorem row_of_effectless (hduty : BudgetDuty hashKeyId m past e)
    (hacc : Accessed hashKeyId sh t e sh')
    (hnone : m.budgetRow hashKeyId = some (.mbudget h model) → m.effect e = none) :
    sh'.store.rows.get (.mbudget h model) = sh.store.rows.get (.mbudget h model) := by
  cases hacc with
  | put row =>
    refine DurableStore.get_put_ne _ fun heq => ?_
    have hoff : isBudget row.1 = false := hduty
    rw [← heq] at hoff
    cases hoff
  | putSynced row =>
    refine DurableStore.get_commit_ne _ fun hmem => ?_
    have heq : RowKey.mbudget h model = row.1 := by simpa [List.keys] using hmem
    rcases hduty with ⟨_, hoff⟩ | ⟨hwrites, _⟩
    · rw [← heq] at hoff
      cases hoff
    · obtain ⟨hrow, heffect⟩ := writes_row hwrites
      exact heffect (hnone (heq ▸ hrow))
  | writeBatch group =>
    refine DurableStore.get_commit_ne _ fun hmem => ?_
    exact absurd (hduty _ hmem) (by simp [isBudget])
  | _ => rfl

/-- At its effect a call does to the row what it does with nothing in between, provided that a
write goes to the value that was read. -/
theorem alone_of_effect {a : m.Ans} {st : Store} (hduty : BudgetDuty hashKeyId m past e)
    (hacc : Accessed hashKeyId sh t e sh')
    (hrow : m.budgetRow hashKeyId = some (.mbudget h model)) (heffect : m.effect e = some a)
    (hfresh : ∀ cur v, e = ⟨.putSynced ⟨.mbudget h model, v⟩, .ok ()⟩ →
      JustRead past h model cur → sh.store.rows.get (.mbudget h model) = some cur)
    (hst : st.rows.get (.mbudget h model) = sh.store.rows.get (.mbudget h model)) :
    ∃ st', alone hashKeyId (m.prog hashKeyId) [.ok, .ok, .ok, .ok] st = some (a, st') ∧
      st'.rows.get (.mbudget h model) = sh'.store.rows.get (.mbudget h model) := by
  cases m with
  | setModelBudget keyId model' amount =>
    cases hrow
    cases hacc with
    | putSynced row =>
      cases heffect
      rcases hduty with ⟨hnone, _⟩ | ⟨hwrites, _⟩
      · cases hnone
      cases hwrites
      refine ⟨_, alone_setModelBudget keyId model amount st, ?_⟩
      rw [DurableStore.get_commit_self, DurableStore.get_commit_self]
    | _ => cases heffect
  | debitModelBudget keyId model' amount =>
    cases hrow
    have halone := @alone_debitModelBudget hashKeyId keyId model amount st
    cases hacc with
    | read k =>
      cases k with
      | mbudget h' model' =>
        obtain ⟨hrow', _, _⟩ := hduty
        cases hrow'
        cases hget : sh.store.rows.get (.mbudget (hashKeyId keyId) model) with
        | none =>
          rw [hget] at heffect hst
          cases heffect
          rw [hst] at halone
          exact ⟨st, halone, hst⟩
        | some cur =>
          rw [hget] at heffect hst
          simp only [Method.effect, Option.ite_none_right_eq_some, Option.some.injEq] at heffect
          obtain ⟨hlow, rfl⟩ := heffect
          rw [hst] at halone
          simp only [if_pos hlow] at halone
          exact ⟨st, halone, hst⟩
      | _ => cases heffect
    | putSynced row =>
      cases heffect
      rcases hduty with ⟨hnone, _⟩ | ⟨⟨cur, hread, hle, rfl⟩, _⟩
      · cases hnone
      rw [hst, hfresh cur _ rfl hread] at halone
      simp only [if_neg (Nat.not_lt.2 hle)] at halone
      refine ⟨_, halone, ?_⟩
      rw [DurableStore.get_commit_self, DurableStore.get_commit_self]
    | getFailed k => cases k <;> cases heffect
    | _ => cases heffect
  | refundModelBudget keyId model' amount =>
    cases hrow
    have halone := @alone_refundModelBudget hashKeyId keyId model amount st
    cases hacc with
    | read k =>
      cases k with
      | mbudget h' model' =>
        obtain ⟨hrow', _, _⟩ := hduty
        cases hrow'
        cases hget : sh.store.rows.get (.mbudget (hashKeyId keyId) model) with
        | none =>
          rw [hget] at heffect hst
          cases heffect
          rw [hst] at halone
          exact ⟨st, halone, hst⟩
        | some cur =>
          rw [hget] at heffect
          cases heffect
      | _ => cases heffect
    | putSynced row =>
      cases heffect
      rcases hduty with ⟨hnone, _⟩ | ⟨⟨cur, hread, rfl⟩, _⟩
      · cases hnone
      rw [hst, hfresh cur _ rfl hread] at halone
      refine ⟨_, halone, ?_⟩
      rw [DurableStore.get_commit_self, DurableStore.get_commit_self]
    | getFailed k => cases k <;> cases heffect
    | _ => cases heffect
  | _ => cases hrow

/-- A budget is changed by a set, or by the holder of its key's lock. -/
theorem set_or_held (hduty : BudgetDuty hashKeyId m past e) (hacc : Accessed hashKeyId sh t e sh')
    (hne : sh'.store.rows.get (.mbudget h model) ≠ sh.store.rows.get (.mbudget h model)) :
    (∃ keyId amount, m = .setModelBudget keyId model amount ∧
      e = ⟨.putSynced ⟨.mbudget h model, amount⟩, .ok ()⟩) ∨ held past = some h := by
  cases hacc with
  | put row =>
    refine absurd (DurableStore.get_put_ne _ fun heq => ?_) hne
    have hoff : isBudget row.1 = false := hduty
    rw [← heq] at hoff
    cases hoff
  | putSynced row =>
    have heq : RowKey.mbudget h model = row.1 := by
      by_contra hother
      exact hne (DurableStore.get_commit_ne _ (by simpa [List.keys] using hother))
    rcases hduty with ⟨_, hoff⟩ | ⟨hwrites, _⟩
    · rw [← heq] at hoff
      cases hoff
    cases m with
    | setModelBudget keyId model' amount =>
      cases hwrites
      cases heq
      exact Or.inl ⟨keyId, amount, rfl, rfl⟩
    | debitModelBudget keyId model' amount =>
      obtain ⟨cur, hread, _, rfl⟩ := hwrites
      cases heq
      exact Or.inr hread.1
    | refundModelBudget keyId model' amount =>
      obtain ⟨cur, hread, rfl⟩ := hwrites
      cases heq
      exact Or.inr hread.1
    | _ => exact hwrites.elim
  | writeBatch group =>
    refine absurd (DurableStore.get_commit_ne _ fun hmem => ?_) hne
    exact absurd (hduty _ hmem) (by simp [isBudget])
  | _ => exact absurd rfl hne

theorem effectless_of_effect (hduty : BudgetDuty hashKeyId m past e) (heffect : m.effect e ≠ none) :
    Effectless m past := by
  obtain ⟨o, a⟩ := e
  cases o with
  | get k =>
    cases k with
    | mbudget h model => exact hduty.2.2
    | _ => cases m <;> exact absurd rfl heffect
  | putSynced row =>
    rcases hduty with ⟨hrow, _⟩ | ⟨_, hnone⟩
    · exact absurd (effect_eq_none hrow _) heffect
    · exact hnone
  | _ => cases m <;> exact absurd rfl heffect

end Effects

section Runs
variable (hashKeyId : String → String)

/-- The answer of a call on the row, at the operation where it takes effect. -/
def effectAt (row : RowKey) (s : (calls hashKeyId).State) (t : Nat) (e : Event) :
    Option Answered :=
  (s.job t).bind fun m =>
    if m.budgetRow hashKeyId = some row then (m.effect e).map (⟨m, ·⟩) else none

def budgetOrder (row : RowKey) (s : (calls hashKeyId).State) : List (Nat × Answered) :=
  System.effectsOf (effectAt hashKeyId row s) s.log

/-- A sequential order of the calls on one budget that explains the state: the calls that took
effect, with the answers that those of them that are over returned. -/
structure Linearized (rows₀ : Rows) (h model : String) (s : (calls hashKeyId).State)
    (order : List (Nat × Answered)) : Prop where
  nodup : (order.map Prod.fst).Nodup
  call : ∀ t r, (t, r) ∈ order →
    s.job t = some r.1 ∧ r.1.budgetRow hashKeyId = some (.mbudget h model)
  answered : ∀ (t : Nat) m r, s.tasks[t]? = some ⟨m, some (.ret r)⟩ →
    m.budgetRow hashKeyId = some (.mbudget h model) → r.1.refused r.2 = true ∨ (t, r) ∈ order
  agrees : ∀ (t : Nat) r m r', (t, r) ∈ order → s.tasks[t]? = some ⟨m, some (.ret r')⟩ → r' = r
  realTime : order.Pairwise fun x y => ¬ System.Precedes s.log y.1 x.1
  sequential : ∃ st, OneByOne hashKeyId (order.map Prod.snd) ⟨rows₀, []⟩ st ∧
    st.rows.get (.mbudget h model) = (rowsOf s).get (.mbudget h model)

variable {hashKeyId} {rows₀ : Rows} {s s' : (calls hashKeyId).State} {h model : String}
variable {ok : (calls hashKeyId).State → (calls hashKeyId).Action → Prop}

/-- A set took effect on the row after the last operation of `t`. -/
def SetSince (s : (calls hashKeyId).State) (t : Nat) (h model : String) : Prop :=
  ∃ x ∈ s.log.takeWhile (fun x => x.1 != t), ∃ keyId amount,
    s.job x.1 = some (.setModelBudget keyId model amount) ∧
      x.2 = ⟨.putSynced ⟨.mbudget h model, amount⟩, .ok ()⟩

/-- The next operation of `t` writes what it computed from a value that a set has replaced. -/
def Overwrites (s : (calls hashKeyId).State) (t : Nat) : Prop :=
  ∃ m h model v k cur, s.tasks[t]? = some ⟨m, some (.op (.putSynced ⟨.mbudget h model, v⟩) k)⟩ ∧
    JustRead (System.trace s.log t) h model cur ∧ SetSince s t h model ∧
      (rowsOf s).get (.mbudget h model) ≠ some cur

/-- No write of a debit or a refund overwrites a set that came after its read. -/
def Unraced (s : (calls hashKeyId).State) (act : (calls hashKeyId).Action) : Prop :=
  ∀ t, act = .exec t .ok → ¬ Overwrites s t

structure BudgetInv (rows₀ : Rows) (h model : String) (s : (calls hashKeyId).State) : Prop where
  read : ∀ t cur, s.running t = true → JustRead (System.trace s.log t) h model cur →
    (rowsOf s).get (.mbudget h model) = some cur ∨ SetSince s t h model
  sequence : ∃ st, OneByOne hashKeyId
      ((budgetOrder hashKeyId (.mbudget h model) s).map Prod.snd) ⟨rows₀, []⟩ st ∧
    st.rows.get (.mbudget h model) = (rowsOf s).get (.mbudget h model)
  synced : (rowsOf s).Synced (.mbudget h model)

theorem effectAt_of_step {act : (calls hashKeyId).Action} (hr : StoreRun hashKeyId rows₀ ok s)
    (hstep : (calls hashKeyId).step s act = some s') {row : RowKey} {x : Nat × Event}
    (hx : x ∈ s.log) :
    effectAt hashKeyId row s' x.1 x.2 = effectAt hashKeyId row s x.1 x.2 := by
  rw [effectAt, System.job_eq_of_step hstep (hr.log_lt hx), effectAt]

theorem budgetOrder_of_quiet {act : (calls hashKeyId).Action} (hr : StoreRun hashKeyId rows₀ ok s)
    (hstep : (calls hashKeyId).step s act = some s') (hlog : s'.log = s.log) (row : RowKey) :
    budgetOrder hashKeyId row s' = budgetOrder hashKeyId row s := by
  rw [budgetOrder, hlog]
  exact System.effectsOf_congr fun x hx => effectAt_of_step hr hstep hx

theorem setSince_of_quiet {act : (calls hashKeyId).Action}
    (hstep : (calls hashKeyId).step s act = some s') (hlog : s'.log = s.log) {t : Nat}
    (hset : SetSince s t h model) : SetSince s' t h model := by
  obtain ⟨x, hx, keyId, amount, hjob, he⟩ := hset
  refine ⟨x, hlog ▸ hx, keyId, amount, ?_, he⟩
  exact System.job_step hstep hjob

section Exec
variable {t : Nat} {m : Method} {o : Op} {k : o.Ans → M Answered} {a : o.Ans} {sh : Shared}
variable {c : Input} (hI : BudgetInv rows₀ h model s) (hr : StoreRun hashKeyId rows₀ ok s)
variable (htask : s.tasks[t]? = some ⟨m, some (.op o k)⟩)
variable (hstep : (calls hashKeyId).step s (.exec t c) = some (s.advance t m o k a sh))
variable (hduty : BudgetDuty hashKeyId m (System.trace s.log t) ⟨o, a⟩)
variable (hacc : Accessed hashKeyId s.shared t ⟨o, a⟩ sh)
include hI hr htask hstep hduty hacc

theorem budgetRead_advance {u : Nat} {cur : U256}
    (hu : (s.advance t m o k a sh).running u = true)
    (hread : JustRead (System.trace (s.advance t m o k a sh).log u) h model cur) :
    (rowsOf (s.advance t m o k a sh)).get (.mbudget h model) = some cur ∨
      SetSince (s.advance t m o k a sh) u h model := by
  rw [rowsOf, advance_store]
  by_cases hut : u = t
  · subst hut
    rw [System.trace_advance_self] at hread
    rw [Option.some.inj hread.2] at hacc
    rw [shared_of_read hacc]
    exact Or.inl (get_of_accessed hacc)
  · rw [System.trace_advance_ne s hut] at hread
    have hrunning := hr.running_advance hut hu (held_of_mem hread.1)
    have hkept : SetSince s u h model → SetSince (s.advance t m o k a sh) u h model := by
      rintro ⟨x, hx, keyId, amount, hjob, he⟩
      refine ⟨x, ?_, keyId, amount, System.job_step hstep hjob, he⟩
      rw [System.State.advance, List.takeWhile_cons_of_pos (by simpa using Ne.symm hut)]
      exact List.mem_cons_of_mem _ hx
    by_cases hsame : sh.store.rows.get (.mbudget h model) = (rowsOf s).get (.mbudget h model)
    · rw [hsame]
      exact (hI.read u cur hrunning hread).imp id hkept
    · rcases set_or_held hduty hacc hsame with ⟨keyId, amount, rfl, he⟩ | hheld
      · refine Or.inr ⟨(t, ⟨o, a⟩), ?_, keyId, amount, ?_, he⟩
        · rw [System.State.advance, List.takeWhile_cons_of_pos (by simpa using Ne.symm hut)]
          exact List.mem_cons_self
        · exact System.job_step hstep (System.job_of_task htask)
      · -- the writer and the reader hold the same lock
        have hlocks := locksHeld_of_run hr
        have := hlocks t h (System.running_of_task htask) hheld
        rw [hlocks u h hrunning hread.1] at this
        exact absurd (Option.some.inj this) hut

theorem budgetSequence_advance (hok : Unraced s (.exec t c))
    (hhandle : handle hashKeyId s.shared t o c = some (a, sh)) :
    ∃ st, OneByOne hashKeyId ((budgetOrder hashKeyId (.mbudget h model)
        (s.advance t m o k a sh)).map Prod.snd) ⟨rows₀, []⟩ st ∧
      st.rows.get (.mbudget h model) =
        (rowsOf (s.advance t m o k a sh)).get (.mbudget h model) := by
  obtain ⟨st, hseq, hst⟩ := hI.sequence
  have hlog : (s.advance t m o k a sh).log = (t, ⟨o, a⟩) :: s.log := rfl
  have hold : System.effectsOf (effectAt hashKeyId (.mbudget h model) (s.advance t m o k a sh))
      s.log = budgetOrder hashKeyId (.mbudget h model) s :=
    System.effectsOf_congr fun x hx => effectAt_of_step hr hstep hx
  have hnew : effectAt hashKeyId (.mbudget h model) (s.advance t m o k a sh) t ⟨o, a⟩ =
      if m.budgetRow hashKeyId = some (.mbudget h model) then (m.effect ⟨o, a⟩).map (⟨m, ·⟩)
      else none := by
    rw [effectAt, System.job_step hstep (System.job_of_task htask), Option.bind_some]
  rw [rowsOf, advance_store]
  by_cases heffect : m.budgetRow hashKeyId = some (.mbudget h model) ∧ m.effect ⟨o, a⟩ ≠ none
  · obtain ⟨hrow, hsome⟩ := heffect
    obtain ⟨b, hb⟩ := Option.ne_none_iff_exists'.1 hsome
    rw [if_pos hrow, hb, Option.map_some] at hnew
    have hfresh : ∀ cur v, (⟨o, a⟩ : Event) = ⟨.putSynced ⟨.mbudget h model, v⟩, .ok ()⟩ →
        JustRead (System.trace s.log t) h model cur →
          (rowsOf s).get (.mbudget h model) = some cur := by
      intro cur v he hread
      refine (hI.read t cur (System.running_of_task htask) hread).elim id fun hset => ?_
      by_contra hne
      cases he
      cases c <;> cases hhandle
      exact hok t rfl ⟨m, h, model, v, k, cur, htask, hread, hset, hne⟩
    obtain ⟨st', halone, hst'⟩ := alone_of_effect hduty hacc hrow hb hfresh hst
    refine ⟨st', ?_, hst'⟩
    rw [budgetOrder, hlog, System.effectsOf_cons_some hnew, hold, List.map_append]
    exact hseq.concat halone
  · have hnone : effectAt hashKeyId (.mbudget h model) (s.advance t m o k a sh) t ⟨o, a⟩ = none := by
      rw [hnew]
      split
      · rename_i hrow
        rw [not_and_not_right.1 heffect hrow, Option.map_none]
      · rfl
    refine ⟨st, ?_, ?_⟩
    · rw [budgetOrder, hlog, System.effectsOf_cons_none hnone, hold]
      exact hseq
    · rw [row_of_effectless hduty hacc (not_and_not_right.1 heffect)]
      exact hst

theorem BudgetInv.advance (hok : Unraced s (.exec t c))
    (hhandle : handle hashKeyId s.shared t o c = some (a, sh)) :
    BudgetInv rows₀ h model (s.advance t m o k a sh) where
  read u cur := budgetRead_advance hI hr htask hstep hduty hacc
  sequence := budgetSequence_advance hI hr htask hstep hduty hacc hok hhandle
  synced := by
    have hsynced := hI.synced
    rw [rowsOf, advance_store]
    cases hacc with
    | put row =>
      refine (DurableStore.synced_put_ne fun heq => ?_).2 hsynced
      have hoff : isBudget row.1 = false := hduty
      rw [← heq] at hoff
      cases hoff
    | putSynced row => exact DurableStore.synced_commit _ _ _
    | writeBatch group => exact DurableStore.synced_commit _ _ _
    | _ => exact hsynced

end Exec

theorem budgetDuty_of_task (hr : StoreRun hashKeyId rows₀ ok s) {t : Nat} {m : Method} {o : Op}
    {k : o.Ans → M Answered} (htask : s.tasks[t]? = some ⟨m, some (.op o k)⟩) (a : o.Ans) :
    BudgetDuty hashKeyId m (System.trace s.log t) ⟨o, a⟩ :=
  (Prog.meets_op.1 (hr.meets budgetContract (fun _ _ _ _ _ _ _ _ => trivial) htask) a trivial).1

theorem budgetInv_of_run (hopen : rows₀.pending = [])
    (hrun : StoreRun hashKeyId rows₀ Unraced s) : BudgetInv rows₀ h model s := by
  refine System.Reach.invariant (BudgetInv rows₀ h model) hrun ?_ ?_
  · refine ⟨fun t cur hr => ?_, ⟨_, rfl, rfl⟩, ?_⟩
    · simp [System.State.running, System.init] at hr
    · show RowKey.mbudget h model ∉ rows₀.pending.keys
      rw [hopen]
      exact List.not_mem_nil
  intro s s' act hr hI hok hT
  have hstep := System.step_of_transition hT
  have hquiet : s'.log = s.log → rowsOf s' = rowsOf s →
      (∀ u, s'.running u = true → System.trace s.log u ≠ [] → s.running u = true) →
        BudgetInv rows₀ h model s' := by
    intro hlog hrows hrunning
    refine ⟨fun u cur hu hread => ?_, ?_, hrows ▸ hI.synced⟩
    · rw [hlog] at hread
      rw [hrows]
      refine (hI.read u cur (hrunning u hu (held_of_mem hread.1)) hread).imp id ?_
      exact setSince_of_quiet hstep hlog
    · rw [budgetOrder_of_quiet hr hstep hlog, hrows]
      exact hI.sequence
  cases hT with
  | start m sh hstart =>
    cases hstart
    exact hquiet rfl rfl fun u hu hne => hr.running_begin hu hne
  | exec t c m o k a sh htask hhandle =>
    exact hI.advance hr htask hstep (budgetDuty_of_task hr htask a) (handle_cases hhandle) hok
      hhandle
  | drop t m o k htask =>
    exact hquiet rfl rfl fun u hu _ => (System.running_of_dropped hu).2
  | world w sh hworld =>
    obtain ⟨mask⟩ := w
    cases hworld
    obtain ⟨st, hseq, hst⟩ := hI.sequence
    refine ⟨fun u cur hu _ => ?_, ⟨st, ?_, ?_⟩, ?_⟩
    · rw [System.running_of_halted rfl] at hu
      cases hu
    · rw [budgetOrder_of_quiet hr hstep rfl]
      exact hseq
    · exact hst.trans (DurableStore.get_crash_of_synced hI.synced).symm
    · exact DurableStore.synced_crash _ _ _

theorem mem_budgetOrder {t : Nat} {r : Answered} {row : RowKey} :
    (t, r) ∈ budgetOrder hashKeyId row s ↔ ∃ e ∈ System.trace s.log t,
      s.job t = some r.1 ∧ r.1.budgetRow hashKeyId = some row ∧ r.1.effect e = some r.2 := by
  rw [budgetOrder, System.mem_effectsOf]
  refine exists_congr fun e => and_congr_right fun _ => ?_
  simp only [effectAt, Option.bind_eq_some_iff, Option.ite_none_right_eq_some,
    Option.map_eq_some_iff]
  constructor
  · rintro ⟨m, hjob, hrow, a, heffect, rfl⟩
    exact ⟨hjob, hrow, heffect⟩
  · rintro ⟨hjob, hrow, heffect⟩
    exact ⟨r.1, hjob, hrow, r.2, heffect, rfl⟩

theorem nodup_budgetOrder (hr : StoreRun hashKeyId rows₀ ok s) (row : RowKey) :
    ((budgetOrder hashKeyId row s).map Prod.fst).Nodup := by
  refine System.nodup_effectsOf fun t => System.countP_le_one fun late e early hl he => ?_
  obtain ⟨late', early', hlog, rfl⟩ := System.trace_split hl
  obtain ⟨m, hjob, _, hduty⟩ := hr.guar budgetContract (fun _ _ _ _ _ _ _ _ => trivial) hlog
  have heffect : m.effect e ≠ none := by
    intro hnone
    simp [effectAt, hjob, hnone] at he
  rw [List.countP_eq_zero]
  intro e' hmem
  simp [effectAt, hjob, effectless_of_effect hduty heffect e' hmem]

/-- As long as no debit or refund overwrites a set that came between its read and its write,
the calls on a budget come out as if they had run one after another. -/
theorem linearized_of_run (hopen : rows₀.pending = [])
    (hrun : StoreRun hashKeyId rows₀ Unraced s) (h model : String) :
    ∃ order, Linearized hashKeyId rows₀ h model s order := by
  have hdecided : ∀ (t : Nat) m r, s.tasks[t]? = some ⟨m, some (.ret r)⟩ →
      ∃ a, r = ⟨m, a⟩ ∧ m.Decided hashKeyId (System.trace s.log t) a :=
    fun t m r htask => hrun.meets budgetContract (fun _ _ _ _ _ _ _ _ => trivial) htask
  refine ⟨budgetOrder hashKeyId (.mbudget h model) s, nodup_budgetOrder hrun _, ?_, ?_, ?_,
    System.pairwise_effectsOf, (budgetInv_of_run hopen hrun).sequence⟩
  · intro t r hmem
    obtain ⟨e, _, hjob, hrow, _⟩ := mem_budgetOrder.1 hmem
    exact ⟨hjob, hrow⟩
  · intro t m r htask hrow
    obtain ⟨a, rfl, hdec⟩ := hdecided t m r htask
    refine (hdec.took (by simp [hrow])).imp id ?_
    rintro ⟨e, he, heffect⟩
    exact mem_budgetOrder.2 ⟨e, he, System.job_of_task htask, hrow, heffect⟩
  · intro t r m r' hmem htask
    obtain ⟨a, rfl, hdec⟩ := hdecided t m r' htask
    obtain ⟨e, he, hjob, _, heffect⟩ := mem_budgetOrder.1 hmem
    obtain ⟨m', b⟩ := r
    rw [System.job_of_task htask] at hjob
    cases hjob
    rw [hdec.agrees e he b heffect]

end Runs

section Samples

def budgetRows : Rows := ⟨[⟨.mbudget "key" "model", 10⟩], []⟩

abbrev debitCall : Method := .debitModelBudget "key" "model" 3

abbrev setCall : Method := .setModelBudget "key" "model" 100

def budgetScript (events : List Nat) : List (calls id).Action :=
  System.script (S := calls id) [debitCall, setCall] (events.map fun t => (t, .ok))

/-- A task goes on only if nothing came between. -/
def uninterrupted (s : (calls id).State) : (calls id).Action → Bool
  | .exec t _ => (System.trace s.log t).isEmpty || (s.log.head?.map Prod.fst == some t)
  | _ => true

theorem unraced_of_uninterrupted {s : (calls id).State} {act : (calls id).Action}
    (h : uninterrupted s act = true) : Unraced s act := by
  rintro t rfl ⟨m, hash, model, v, k, cur, htask, hread, ⟨x, hx, _⟩, _⟩
  simp only [uninterrupted, Bool.or_eq_true, List.isEmpty_iff, beq_iff_eq, Option.map_eq_some_iff]
    at h
  rcases h with hnil | ⟨y, hy, rfl⟩
  · rw [hnil] at hread
    cases hread.1
  · obtain ⟨rest, hrest⟩ := List.head?_eq_some_iff.1 hy
    rw [hrest, List.takeWhile_cons_of_neg (by simp)] at hx
    cases hx

theorem linearized_of_run_sample : ∃ s, StoreRun id budgetRows Unraced s ∧
    (rowsOf s).get (.mbudget "key" "model") = some 97 ∧
    ∃ order, Linearized id budgetRows "key" "model" s order := by
  obtain ⟨s, hs, hrow⟩ : ∃ s, (calls id).run uninterrupted
      ((calls id).init (Shared.opened budgetRows)) (budgetScript [1, 0, 0, 0, 0]) = some s ∧
      (rowsOf s).get (.mbudget "key" "model") = some 97 := ⟨_, rfl, rfl⟩
  have hrun : StoreRun id budgetRows Unraced s :=
    System.Reach.of_run (fun _ _ => unraced_of_uninterrupted) hs
  exact ⟨s, hrun, hrow, linearized_of_run rfl hrun "key" "model"⟩

/-- The set lands between the read and the write of the debit. -/
theorem raced_outcome : ∃ s, StoreRun id budgetRows (fun _ _ => True) s ∧
    s.tasks = [⟨debitCall, some (.ret ⟨debitCall, .ok ()⟩)⟩,
      ⟨setCall, some (.ret ⟨setCall, .ok ()⟩)⟩] ∧
    (rowsOf s).get (.mbudget "key" "model") = some 7 := by
  obtain ⟨s, hs, hrest⟩ : ∃ s, (calls id).run (fun _ _ => true)
      ((calls id).init (Shared.opened budgetRows)) (budgetScript [0, 0, 1, 0, 0]) = some s ∧
      s.tasks = [⟨debitCall, some (.ret ⟨debitCall, .ok ()⟩)⟩,
        ⟨setCall, some (.ret ⟨setCall, .ok ()⟩)⟩] ∧
      (rowsOf s).get (.mbudget "key" "model") = some 7 := ⟨_, rfl, rfl, rfl⟩
  exact ⟨s, System.Reach.of_run (fun _ _ _ => trivial) hs, hrest⟩

theorem row_of_debit_set {st : Store}
    (h : OneByOne id [⟨debitCall, .ok ()⟩, ⟨setCall, .ok ()⟩] ⟨budgetRows, []⟩ st) :
    st.rows.get (.mbudget "key" "model") = some 100 := by
  obtain ⟨mid, _, st', hset, rfl⟩ := h
  rw [show setCall.prog id = setModelBudget id "key" "model" 100 from rfl,
    alone_setModelBudget] at hset
  cases hset
  exact DurableStore.get_commit_self _ _ _

theorem row_of_set_debit {st : Store}
    (h : OneByOne id [⟨setCall, .ok ()⟩, ⟨debitCall, .ok ()⟩] ⟨budgetRows, []⟩ st) :
    st.rows.get (.mbudget "key" "model") = some 97 := by
  obtain ⟨mid, hset, st', hdebit, rfl⟩ := h
  cases hset
  cases hdebit
  rfl

/-- The debit wrote back what it had computed from the budget before the set. -/
theorem set_overwritten : ∃ s, StoreRun id budgetRows (fun _ _ => True) s ∧
    ∀ order, ¬ Linearized id budgetRows "key" "model" s order := by
  obtain ⟨s, hrun, htasks, hrow⟩ := raced_outcome
  refine ⟨s, hrun, fun order hlin => ?_⟩
  have hdebit : s.tasks[0]? = some ⟨debitCall, some (.ret ⟨debitCall, .ok ()⟩)⟩ := by rw [htasks]; rfl
  have hset : s.tasks[1]? = some ⟨setCall, some (.ret ⟨setCall, .ok ()⟩)⟩ := by rw [htasks]; rfl
  have hmem : ∀ x, x ∈ order ↔
      x ∈ [(0, (⟨debitCall, .ok ()⟩ : Answered)), (1, ⟨setCall, .ok ()⟩)] := by
    rintro ⟨t, r⟩
    simp only [List.mem_cons, List.not_mem_nil, or_false]
    constructor
    · intro hin
      obtain ⟨p, htask⟩ := System.job_eq_some.1 (hlin.call t r hin).1
      have ht : t < 2 := by simpa [htasks] using (List.getElem?_eq_some_iff.1 htask).1
      match t, ht with
      | 0, _ => exact Or.inl (by rw [hlin.agrees 0 r _ _ hin hdebit])
      | 1, _ => exact Or.inr (by rw [hlin.agrees 1 r _ _ hin hset])
    · rintro (h | h) <;> cases h
      · exact (hlin.answered 0 _ _ hdebit rfl).resolve_left Bool.false_ne_true
      · exact (hlin.answered 1 _ _ hset rfl).resolve_left Bool.false_ne_true
  have hnodup : order.Nodup := hlin.nodup.of_map _
  have hperm := (List.perm_ext_iff_of_nodup hnodup (by simp)).2 hmem
  obtain ⟨x, y, rfl⟩ := List.length_eq_two.1 hperm.length_eq
  obtain ⟨st, hseq, hfinal⟩ := hlin.sequential
  rw [hrow] at hfinal
  have hx := (hmem x).1 (by simp)
  have hy := (hmem y).1 (by simp)
  simp only [List.mem_cons, List.not_mem_nil, or_false] at hx hy
  rcases hx with rfl | rfl <;> rcases hy with rfl | rfl
  · simp at hnodup
  · rw [row_of_debit_set hseq] at hfinal
    cases hfinal
  · rw [row_of_set_debit hseq] at hfinal
    cases hfinal
  · simp at hnodup

end Samples
end Gateway.KeyStore
