import CitrateGateway.Gateway.Backends
import CitrateGateway.Gateway.ModelBudgets

/-!
# One call of the key store

Either backend, and what one call with nothing in between does to a model budget. On the
persistent backend any access of the call can fail.
-/

namespace Gateway
set_option autoImplicit false
open Words Effects Durable

namespace KeyStore
section Alone
variable {hashKeyId : String → String} {α : Type}

theorem alone_op {o : Op} {k : o.Ans → M α} {cs : List Input} {st st' : Store} {r : α}
    (h : alone hashKeyId (.op o k) cs st = some (r, st')) :
    ∃ c rest a mid, cs = c :: rest ∧ st.access hashKeyId o c = some (a, mid) ∧
      alone hashKeyId (k a) rest mid = some (r, st') := by
  cases cs with
  | nil => cases h
  | cons c rest =>
    obtain ⟨⟨a, mid⟩, hacc, hrest⟩ := Option.bind_eq_some_iff.1 h
    exact ⟨c, rest, a, mid, rfl, hacc, hrest⟩

/-- What every access of a program preserves, the program preserves. -/
theorem alone_preserves {rely : Event → Prop} {guar : List Event → Event → Prop}
    {post : List Event → α → Prop} (I : Store → Prop) {p : M α} {past : List Event}
    (hp : p.Meets rely guar post past) (hrely : ∀ e, rely e)
    (hstep : ∀ past st o c a mid, guar past ⟨o, a⟩ → st.access hashKeyId o c = some (a, mid) →
      I st → I mid)
    {cs : List Input} {st st' : Store} {r : α} (hI : I st)
    (h : alone hashKeyId p cs st = some (r, st')) : I st' := by
  induction p generalizing past cs st with
  | ret a =>
    cases h
    exact hI
  | op o k ih =>
    obtain ⟨c, rest, a, mid, rfl, hacc, hrest⟩ := alone_op h
    have hmeets := hp a (hrely _)
    exact ih a hmeets.2 (hstep past st o c a mid hmeets.1 hacc hI) hrest

/-- The two ways one access can change the rows. -/
theorem access_rows {st mid : Store} {o : Op} {c : Input} {a : o.Ans}
    (h : st.access hashKeyId o c = some (a, mid)) :
    mid.rows = st.rows ∨ (∃ row, o = .put row ∧ mid.rows = st.rows.put row) ∨
      (∃ row, o = .putSynced row ∧ mid.rows = st.rows.commit [row]) ∨
      ∃ group, o = .writeBatch group ∧ mid.rows = st.rows.commit group := by
  cases o with
  | put row =>
    cases c <;> cases h
    · exact Or.inr (Or.inl ⟨row, rfl, rfl⟩)
    · exact Or.inl rfl
  | putSynced row =>
    cases c <;> cases h
    · exact Or.inr (Or.inr (Or.inl ⟨row, rfl, rfl⟩))
    · exact Or.inl rfl
  | writeBatch group =>
    cases c <;> cases h
    · exact Or.inr (Or.inr (Or.inr ⟨group, rfl, rfl⟩))
    · exact Or.inl rfl
  | newUuid =>
    cases c <;> simp only [Store.access, reduceCtorEq] at h
    split at h
    · cases h
      exact Or.inl rfl
    · cases h
  | _ => cases c <;> cases h <;> exact Or.inl rfl

/-- Every budget is on disk as it is read. -/
def BudgetsSynced (rows : Rows) : Prop := ∀ h model, rows.Synced (.mbudget h model)

/-- The budgets of two stores are the same, and on disk. -/
def SameBudgets (st st' : Store) : Prop :=
  BudgetsSynced st'.rows ∧ ∀ h model, st'.rows.get (.mbudget h model) = st.rows.get (.mbudget h model)

theorem sameBudgets_of_off {p : M α} {past : List Event} (hoff : Off p past) {cs : List Input}
    {st st' : Store} {r : α} (hsynced : BudgetsSynced st.rows)
    (h : alone hashKeyId p cs st = some (r, st')) : SameBudgets st st' := by
  refine alone_preserves (SameBudgets st) hoff (fun _ => trivial) ?_ ⟨hsynced, fun _ _ => rfl⟩ h
  rintro past mid o c a mid' hguar hacc ⟨hmid, hsame⟩
  have hne : ∀ {row : Row}, isBudget row.1 = false → ∀ h model, RowKey.mbudget h model ≠ row.1 := by
    intro row hrow h model heq
    rw [← heq] at hrow
    cases hrow
  rcases access_rows hacc with hrows | ⟨row, rfl, hrows⟩ | ⟨row, rfl, hrows⟩ | ⟨group, rfl, hrows⟩
  · exact ⟨by rw [BudgetsSynced, hrows]; exact hmid, by rw [hrows]; exact hsame⟩
  · refine ⟨fun h model => ?_, fun h model => ?_⟩
    · rw [hrows, DurableStore.synced_put_ne (hne hguar h model)]
      exact hmid h model
    · rw [hrows, DurableStore.get_put_ne _ (hne hguar h model)]
      exact hsame h model
  · refine ⟨fun h model => ?_, fun h model => ?_⟩
    · rw [hrows]
      exact DurableStore.synced_commit _ _ _
    · rw [hrows, DurableStore.get_commit_ne _ (by simpa [List.keys] using hne hguar h model)]
      exact hsame h model
  · refine ⟨fun h model => ?_, fun h model => ?_⟩
    · rw [hrows]
      exact DurableStore.synced_commit _ _ _
    · have hnot : RowKey.mbudget h model ∉ group.keys := fun hmem => by cases hguar _ hmem
      rw [hrows, DurableStore.get_commit_ne _ hnot]
      exact hsame h model

theorem access_get {st mid : Store} {k : RowKey} {c : Input} {a : Op.Ans (.get k)}
    (h : st.access hashKeyId (.get k) c = some (a, mid)) :
    mid = st ∧ ((c = .ok ∧ a = .ok (st.rows.get k)) ∨ ∃ e, c = .fail e ∧ a = .error e) := by
  cases c <;> cases h
  · exact ⟨rfl, Or.inl ⟨rfl, rfl⟩⟩
  · exact ⟨rfl, Or.inr ⟨_, rfl, rfl⟩⟩

theorem access_putSynced {st mid : Store} {row : Row} {c : Input} {a : Op.Ans (.putSynced row)}
    (h : st.access hashKeyId (.putSynced row) c = some (a, mid)) :
    (c = .ok ∧ a = .ok () ∧ mid = { st with rows := st.rows.commit [row] }) ∨
      ∃ e, c = .fail e ∧ a = .error e ∧ mid = st := by
  cases c <;> cases h
  · exact Or.inl ⟨rfl, rfl, rfl⟩
  · exact Or.inr ⟨_, rfl, rfl, rfl⟩

theorem access_unit {st mid : Store} {o : Op} {c : Input} {a : o.Ans} {h : String}
    (ho : o = .lock h ∨ o = .unlock h) (hacc : st.access hashKeyId o c = some (a, mid)) :
    mid = st := by
  rcases ho with rfl | rfl <;> cases c <;> cases hacc <;> rfl

theorem alone_bind {β : Type} {p : M β} {f : β → M α} {cs : List Input} {st st' : Store} {r : α}
    (h : alone hashKeyId (p >>= f) cs st = some (r, st')) :
    ∃ cs₁ cs₂ b mid, cs = cs₁ ++ cs₂ ∧ alone hashKeyId p cs₁ st = some (b, mid) ∧
      alone hashKeyId (f b) cs₂ mid = some (r, st') := by
  induction p generalizing cs st with
  | ret b => exact ⟨[], cs, b, st, rfl, rfl, h⟩
  | op o k ih =>
    obtain ⟨c, rest, a, mid, rfl, hacc, hrest⟩ := alone_op h
    obtain ⟨cs₁, cs₂, b, mid', rfl, hp, hf⟩ := ih a hrest
    refine ⟨c :: cs₁, cs₂, b, mid', rfl, ?_, hf⟩
    show (st.access hashKeyId o c).bind _ = _
    rw [hacc]
    exact hp

/-- A call under a lock ends with the result and the store of its body. -/
theorem alone_withLock {h : String} {body : M α} {cs : List Input} {st st' : Store} {r : α}
    (hrun : alone hashKeyId (withLock h body) cs st = some (r, st')) :
    ∃ cs', cs' ⊆ cs ∧ alone hashKeyId body cs' st = some (r, st') := by
  obtain ⟨c, rest, a, mid, rfl, hacc, hrest⟩ := alone_op hrun
  cases access_unit (Or.inl rfl) hacc
  have hrest : alone hashKeyId (body >>= fun a => unlock h >>= fun _ => pure a) rest st =
    some (r, st') := hrest
  obtain ⟨cs₁, cs₂, b, mid, rfl, hbody, hunlock⟩ := alone_bind hrest
  obtain ⟨c', rest', a', mid', rfl, hacc', hret⟩ := alone_op hunlock
  cases access_unit (Or.inr rfl) hacc'
  cases hret
  exact ⟨cs₁, fun x hx => by simp [hx], hbody⟩

end Alone

section Budgets
variable {hashKeyId : String → String} {keyId model : String} {amount : U256}
variable {cs : List Input} {st st' : Store}

open ApiKeyStore (synced)

theorem setModelBudget_cases {r : Except StoreError Unit}
    (h : alone hashKeyId (setModelBudget hashKeyId keyId model amount) cs st = some (r, st')) :
    (r = .ok () ∧ st' = synced st ⟨.mbudget (hashKeyId keyId) model, amount⟩) ∨
      ((∃ e, r = .error e) ∧ st' = st) := by
  obtain ⟨c, rest, a, mid, rfl, hacc, hret⟩ := alone_op h
  cases hret
  rcases access_putSynced hacc with ⟨_, rfl, rfl⟩ | ⟨e, _, rfl, rfl⟩
  · exact Or.inl ⟨rfl, rfl⟩
  · exact Or.inr ⟨⟨_, rfl⟩, rfl⟩

theorem debitModelBudget_cases {r : Except ModelBudgetError Unit}
    (h : alone hashKeyId (debitModelBudget hashKeyId keyId model amount) cs st = some (r, st')) :
    (st' = st ∧ (r = .ok () → st.rows.get (.mbudget (hashKeyId keyId) model) = none)) ∨
      ∃ cur : U256, st.rows.get (.mbudget (hashKeyId keyId) model) = some cur ∧
        amount.toNat ≤ cur.toNat ∧ r = .ok () ∧
        st' = synced st ⟨.mbudget (hashKeyId keyId) model, cur - amount⟩ := by
  obtain ⟨cs', _, hbody⟩ := alone_withLock h
  obtain ⟨c, rest, a, mid, rfl, hacc, hrest⟩ := alone_op hbody
  obtain ⟨rfl, ⟨rfl, rfl⟩ | ⟨e, rfl, rfl⟩⟩ := access_get hacc
  · cases hrow : mid.rows.get (.mbudget (hashKeyId keyId) model) with
    | none =>
      rw [hrow] at hrest
      cases hrest
      exact Or.inl ⟨rfl, fun _ => rfl⟩
    | some cur =>
      rw [hrow] at hrest
      simp only [Prog.bind] at hrest
      split at hrest
      · cases hrest
        exact Or.inl ⟨rfl, fun h => by cases h⟩
      · rename_i hle
        obtain ⟨c', rest', a', mid', rfl, hput, hret⟩ := alone_op hrest
        rcases access_putSynced hput with ⟨_, rfl, rfl⟩ | ⟨e, _, rfl, rfl⟩
        · cases hret
          exact Or.inr ⟨cur, rfl, Nat.le_of_not_lt hle, rfl, rfl⟩
        · cases hret
          exact Or.inl ⟨rfl, fun h => by cases e <;> cases h⟩
  · cases hrest
    exact Or.inl ⟨rfl, fun h => by cases h⟩

theorem refundModelBudget_cases {r : Except StoreError Unit}
    (h : alone hashKeyId (refundModelBudget hashKeyId keyId model amount) cs st = some (r, st')) :
    (st' = st ∧ (st.rows.get (.mbudget (hashKeyId keyId) model) = none ∨ ∃ e, .fail e ∈ cs)) ∨
      ∃ cur : U256, st.rows.get (.mbudget (hashKeyId keyId) model) = some cur ∧
        st' = synced st ⟨.mbudget (hashKeyId keyId) model, saturatingAdd cur amount⟩ := by
  obtain ⟨cs', hsub, hbody⟩ := alone_withLock h
  obtain ⟨c, rest, a, mid, rfl, hacc, hrest⟩ := alone_op hbody
  obtain ⟨rfl, ⟨rfl, rfl⟩ | ⟨e, rfl, rfl⟩⟩ := access_get hacc
  · cases hrow : mid.rows.get (.mbudget (hashKeyId keyId) model) with
    | none =>
      rw [hrow] at hrest
      cases hrest
      exact Or.inl ⟨rfl, Or.inl rfl⟩
    | some cur =>
      rw [hrow] at hrest
      obtain ⟨c', rest', a', mid', rfl, hput, hret⟩ := alone_op hrest
      cases hret
      rcases access_putSynced hput with ⟨_, _, rfl⟩ | ⟨e, rfl, _, rfl⟩
      · exact Or.inr ⟨cur, rfl, rfl⟩
      · exact Or.inl ⟨rfl, Or.inr ⟨e, hsub (by simp)⟩⟩
  · cases hrest
    exact Or.inl ⟨rfl, Or.inr ⟨e, hsub (by simp)⟩⟩

end Budgets
end KeyStore
end Gateway

namespace Gateway.ApiKeyStore
open Words Effects Durable KeyStore

section Backends
variable (hashKeyId : String → String)

inductive Backend where
  | memory (m : Memory)
  | persistent (st : Store)

namespace Backend

/-- A call with nothing in between; a minted id in memory shares its hash with no other key. -/
def perform (b : Backend) (minted : Minted) (cs : List Input) (c : Call) :
    Option (c.Ans × Backend) :=
  match b with
  | .memory m =>
    if ∀ h ∈ Step.mints hashKeyId ⟨c, minted.uuid, 0, 0⟩, (m h).isNone then
      let r := m.perform hashKeyId minted c
      some (r.1, .memory r.2)
    else none
  | .persistent st =>
    (alone hashKeyId (c.prog hashKeyId) cs st).bind fun r => r.1.map fun a => (a, .persistent r.2)

/-- A call of the batch methods, which only the persistent backend has. -/
def method (b : Backend) (cs : List Input) (m : Method) : Option (m.Ans × Backend) :=
  match b with
  | .memory _ => none
  | .persistent st => (alone hashKeyId (m.prog hashKeyId) cs st).map fun r => (r.1, .persistent r.2)

/-- What is left of the budget of a key, by the hash of its bearer, for a model. -/
def budget (b : Backend) (h model : String) : Option U256 :=
  match b with
  | .memory m => (m h).bind fun r => r.modelBudgets[model]?
  | .persistent st => st.rows.get (.mbudget h model)

/-- No budget waits to be written to disk. -/
def Durable (b : Backend) : Prop :=
  match b with
  | .memory _ => True
  | .persistent st => BudgetsSynced st.rows

end Backend

/-- The budget that an answered call set. -/
def budgetSet (h model : String) : Answer → Option U256
  | ⟨.setModelBudget keyId m amount, .ok ()⟩ =>
    if hashKeyId keyId = h ∧ m = model then some amount else none
  | _ => none

/-- What an answered call takes from the budget, if there is one. -/
def budgetTaken (h model : String) : Answer → Nat
  | ⟨.debitModelBudget keyId m amount, .ok ()⟩ =>
    if hashKeyId keyId = h ∧ m = model then amount.toNat else 0
  | _ => 0

/-- What an answered call gives back to the budget, if the store does not fail. -/
def budgetGiven (h model : String) : Answer → Nat
  | ⟨.refundModelBudget keyId m amount, ()⟩ =>
    if hashKeyId keyId = h ∧ m = model then amount.toNat else 0
  | _ => 0

end Backends

section Steps
variable {hashKeyId : String → String} {m : Memory} {st : Store} {h model : String}

@[simp] theorem budget_set (h' : String) (r : ApiKeyRecord) :
    (Backend.memory (m.set h' r)).budget h model =
      if h = h' then r.modelBudgets[model]? else (Backend.memory m).budget h model := by
  simp only [Backend.budget, Memory.set, Function.update_apply]
  split <;> rfl

@[simp] theorem budget_synced (h' model' : String) (v : U256) :
    (Backend.persistent (synced st ⟨.mbudget h' model', v⟩)).budget h model =
      if h = h' ∧ model = model' then some v else (Backend.persistent st).budget h model := by
  simp only [Backend.budget]
  rw [get_synced]
  by_cases heq : h = h' ∧ model = model'
  · obtain ⟨rfl, rfl⟩ := heq
    simp
  · rw [dif_neg (by simpa using heq), if_neg heq]

/-- How a budget is changed: it is set, or what is left of it moves. A failing access can keep
what should be given back. -/
structure Moved (set : Option U256) (taken given : Nat) (fails : Prop)
    (old new : Option U256) : Prop where
  set_eq : ∀ amount, set = some amount → new = some amount
  moved : set = none → ∀ cur, old = some cur → cur.toNat + given < 2 ^ 256 →
    ∃ left, new = some left ∧ ∃ back, left.toNat + taken = cur.toNat + back ∧
      (back = given ∨ back = 0 ∧ fails)

/-- How a call of the key store changes a budget. -/
abbrev CallMoved (hashKeyId : String → String) (h model : String) (cs : List Input) (e : Answer)
    (old new : Option U256) : Prop :=
  Moved (budgetSet hashKeyId h model e) (budgetTaken hashKeyId h model e)
    (budgetGiven hashKeyId h model e) (∃ err, .fail err ∈ cs) old new

theorem moved_quiet {cs : List Input} {e : Answer} {v : Option U256}
    (hset : budgetSet hashKeyId h model e = none) (htaken : v ≠ none → budgetTaken hashKeyId h model e = 0)
    (hgiven : v ≠ none → budgetGiven hashKeyId h model e = 0 ∨ ∃ err, .fail err ∈ cs) :
    CallMoved hashKeyId h model cs e v v where
  set_eq amount heq := by simp [hset] at heq
  moved _ cur hcur _ := by
    have hsome : v ≠ none := by simp [hcur]
    refine ⟨cur, hcur, 0, ?_, ?_⟩
    · rw [htaken hsome]
    · rcases hgiven hsome with hzero | herr
      · exact Or.inl hzero.symm
      · exact Or.inr ⟨rfl, herr⟩

theorem moved_changed {cs : List Input} {e : Answer} {cur left : U256}
    (hset : budgetSet hashKeyId h model e = none)
    (hleft : cur.toNat + budgetGiven hashKeyId h model e < 2 ^ 256 →
      left.toNat + budgetTaken hashKeyId h model e = cur.toNat + budgetGiven hashKeyId h model e) :
    CallMoved hashKeyId h model cs e (some cur) (some left) where
  set_eq amount heq := by simp [hset] at heq
  moved _ cur' hcur hlt := by
    cases hcur
    exact ⟨left, rfl, _, hleft hlt, Or.inl rfl⟩

/-- A record that keeps its budgets keeps every budget. -/
theorem moved_kept {cs : List Input} {e : Answer} {h' : String} {r r' : ApiKeyRecord}
    (hr : m h' = some r) (hkept : r'.modelBudgets = r.modelBudgets)
    (hset : budgetSet hashKeyId h model e = none) (htaken : budgetTaken hashKeyId h model e = 0)
    (hgiven : budgetGiven hashKeyId h model e = 0) :
    CallMoved hashKeyId h model cs e ((Backend.memory m).budget h model)
      ((Backend.memory (m.set h' r')).budget h model) := by
  have hsame : (Backend.memory (m.set h' r')).budget h model =
      (Backend.memory m).budget h model := by
    rw [budget_set]
    split
    · rename_i heq
      rw [heq, Backend.budget, hr, hkept]
      rfl
    · rfl
  rw [hsame]
  exact moved_quiet hset (fun _ => htaken) fun _ => Or.inl hgiven

section Rows
variable {cs : List Input} {keyId model' : String} {amount cur : U256} {old new : Option U256}

theorem moved_set
    (hnew : new = if h = hashKeyId keyId ∧ model = model' then some amount else old) :
    CallMoved hashKeyId h model cs ⟨.setModelBudget keyId model' amount, .ok ()⟩ old new := by
  by_cases hrow : h = hashKeyId keyId ∧ model = model'
  · rw [if_pos hrow] at hnew
    obtain ⟨rfl, rfl⟩ := hrow
    refine ⟨fun amount' hset => ?_, fun hset => by simp [budgetSet] at hset⟩
    rw [hnew]
    simpa [budgetSet] using hset
  · rw [if_neg hrow] at hnew
    subst hnew
    refine moved_quiet ?_ (fun _ => rfl) fun _ => Or.inl rfl
    exact if_neg fun hrow' => hrow ⟨hrow'.1.symm, hrow'.2.symm⟩

theorem moved_debit (hle : amount.toNat ≤ cur.toNat)
    (hcur : h = hashKeyId keyId ∧ model = model' → old = some cur)
    (hnew : new = if h = hashKeyId keyId ∧ model = model' then some (cur - amount) else old) :
    CallMoved hashKeyId h model cs ⟨.debitModelBudget keyId model' amount, .ok ()⟩ old new := by
  by_cases hrow : h = hashKeyId keyId ∧ model = model'
  · rw [if_pos hrow] at hnew
    rw [hcur hrow, hnew]
    obtain ⟨rfl, rfl⟩ := hrow
    refine moved_changed rfl fun _ => ?_
    simp only [budgetTaken, budgetGiven, and_self, if_true]
    rw [BitVec.toNat_sub_of_le (BitVec.le_def.2 hle)]
    omega
  · rw [if_neg hrow] at hnew
    subst hnew
    refine moved_quiet rfl (fun _ => ?_) fun _ => Or.inl rfl
    exact if_neg fun hrow' => hrow ⟨hrow'.1.symm, hrow'.2.symm⟩

theorem moved_refund
    (hcur : h = hashKeyId keyId ∧ model = model' → old = some cur)
    (hnew : new = if h = hashKeyId keyId ∧ model = model' then some (saturatingAdd cur amount)
      else old) :
    CallMoved hashKeyId h model cs ⟨.refundModelBudget keyId model' amount, ()⟩ old new := by
  by_cases hrow : h = hashKeyId keyId ∧ model = model'
  · rw [if_pos hrow] at hnew
    rw [hcur hrow, hnew]
    obtain ⟨rfl, rfl⟩ := hrow
    refine moved_changed rfl fun hlt => ?_
    simp only [budgetTaken, budgetGiven, and_self, if_true] at hlt ⊢
    exact saturatingAdd_toNat_of_lt hlt
  · rw [if_neg hrow] at hnew
    subst hnew
    refine moved_quiet rfl (fun _ => rfl) fun _ => Or.inl ?_
    exact if_neg fun hrow' => hrow ⟨hrow'.1.symm, hrow'.2.symm⟩

theorem budget_insert {h' : String} {r : ApiKeyRecord} (hr : m h' = some r) (v : U256) :
    (Backend.memory (m.set h' { r with modelBudgets := r.modelBudgets.insert model' v })).budget
        h model =
      if h = h' ∧ model = model' then some v else (Backend.memory m).budget h model := by
  rw [budget_set]
  by_cases hh : h = h'
  · subst hh
    rw [Backend.budget, hr]
    by_cases hmodel : model = model'
    · subst hmodel
      simp
    · simp [Std.TreeMap.getElem?_insert, hmodel, Ne.symm hmodel]
  · rw [if_neg hh, if_neg fun h => hh h.1]

end Rows

theorem Memory.moved_perform (minted : Minted) (cs : List Input) (c : Call)
    (hfresh : ∀ h ∈ Step.mints hashKeyId ⟨c, minted.uuid, 0, 0⟩, m h = none) :
    CallMoved hashKeyId h model cs ⟨c, (m.perform hashKeyId minted c).1⟩
      ((Backend.memory m).budget h model)
      ((Backend.memory (m.perform hashKeyId minted c).2).budget h model) := by
  cases c with
  | insert label balance deposit backing =>
    have hnone := hfresh _ (List.mem_singleton_self _)
    have hsame : (Backend.memory (m.perform hashKeyId minted
        (.insert label balance deposit backing)).2).budget h model =
        (Backend.memory m).budget h model := by
      simp only [Memory.perform, Memory.insert]
      rw [budget_set]
      split
      · rename_i heq
        rw [heq, Backend.budget, show m (hashKeyId ("cgk_" ++ minted.uuid)) = none from hnone]
        exact Std.TreeMap.getElem?_emptyc
      · rfl
    rw [hsame]
    exact moved_quiet rfl (fun _ => rfl) fun _ => Or.inl rfl
  | get keyId | getModelBudgets keyId => exact moved_quiet rfl (fun _ => rfl) fun _ => Or.inl rfl
  | debit keyId amount =>
    simp only [Memory.perform, Memory.debit]
    cases hr : m (hashKeyId keyId) with
    | none => exact moved_quiet rfl (fun _ => rfl) fun _ => Or.inl rfl
    | some r =>
      simp only
      split
      · exact moved_quiet rfl (fun _ => rfl) fun _ => Or.inl rfl
      · split
        · exact moved_quiet rfl (fun _ => rfl) fun _ => Or.inl rfl
        · exact moved_kept hr rfl rfl rfl rfl
  | refund keyId amount =>
    simp only [Memory.perform, Memory.refund]
    cases hr : m (hashKeyId keyId) with
    | none => exact moved_quiet rfl (fun _ => rfl) fun _ => Or.inl rfl
    | some r => exact moved_kept hr rfl rfl rfl rfl
  | revoke keyId =>
    simp only [Memory.perform, Memory.revoke]
    cases hr : m (hashKeyId keyId) with
    | none => exact moved_quiet rfl (fun _ => rfl) fun _ => Or.inl rfl
    | some r => exact moved_kept hr rfl rfl rfl rfl
  | setModelBudget keyId model' amount =>
    simp only [Memory.perform, Memory.setModelBudget]
    cases hr : m (hashKeyId keyId) with
    | none => exact moved_quiet rfl (fun _ => rfl) fun _ => Or.inl rfl
    | some r =>
      exact moved_set (budget_insert hr amount)
  | debitModelBudget keyId model' amount =>
    simp only [Memory.perform, Memory.debitModelBudget]
    cases hr : m (hashKeyId keyId) with
    | none =>
      refine moved_quiet rfl (fun hsome => ?_) fun _ => Or.inl rfl
      refine if_neg fun hrow => hsome ?_
      rw [← hrow.1, Backend.budget, hr]
      rfl
    | some r =>
      simp only
      cases hcur : r.modelBudgets[model']? with
      | none =>
        refine moved_quiet rfl (fun hsome => ?_) fun _ => Or.inl rfl
        refine if_neg fun hrow => hsome ?_
        rw [← hrow.1, ← hrow.2, Backend.budget, hr]
        exact hcur
      | some remaining =>
        simp only
        split
        · exact moved_quiet rfl (fun _ => rfl) fun _ => Or.inl rfl
        · rename_i hle
          refine moved_debit (Nat.le_of_not_lt hle) ?_ (budget_insert hr _)
          rintro ⟨rfl, rfl⟩
          rw [Backend.budget, hr]
          exact hcur
  | refundModelBudget keyId model' amount =>
    simp only [Memory.perform, Memory.refundModelBudget]
    cases hr : m (hashKeyId keyId) with
    | none =>
      refine moved_quiet rfl (fun _ => rfl) fun hsome => Or.inl ?_
      refine if_neg fun hrow => hsome ?_
      rw [← hrow.1, Backend.budget, hr]
      rfl
    | some r =>
      simp only
      cases hcur : r.modelBudgets[model']? with
      | none =>
        refine moved_quiet rfl (fun _ => rfl) fun hsome => Or.inl ?_
        refine if_neg fun hrow => hsome ?_
        rw [← hrow.1, ← hrow.2, Backend.budget, hr]
        exact hcur
      | some remaining =>
        refine moved_refund ?_ (budget_insert hr _)
        rintro ⟨rfl, rfl⟩
        rw [Backend.budget, hr]
        exact hcur

/-- The calls that no budget is the business of. -/
def Call.isBudgetCall : Call → Bool
  | .setModelBudget _ _ _ | .debitModelBudget _ _ _ | .refundModelBudget _ _ _ => true
  | _ => false

theorem prog_off_of_call {c : Call} (hc : c.isBudgetCall = false) :
    Off (c.prog hashKeyId) [] := by
  have hmethod : ∀ (m : Method) (f : m.Ans → KeyStore.M (Option c.Ans)),
      m.budgetRow hashKeyId = none → (∀ a past, Off (f a) past) →
        Off (m.prog hashKeyId >>= f) [] :=
    fun m f hrow hf => (prog_off hrow).bind fun past a _ => hf a past
  cases c with
  | insert label balance deposit backing =>
    refine hmethod (.createBalanceKey label balance deposit backing.asU8) _ rfl fun a past => ?_
    cases a <;> trivial
  | get keyId =>
    refine hmethod (.getBalanceRecord keyId) _ rfl fun a past => ?_
    cases a <;> trivial
  | debit keyId amount => exact hmethod (.debitBalance keyId amount) _ rfl fun a past => trivial
  | refund keyId amount => exact hmethod (.refundBalance keyId amount) _ rfl fun a past => trivial
  | revoke keyId => exact hmethod (.revoke keyId) _ rfl fun a past => trivial
  | getModelBudgets keyId =>
    refine Prog.meets_perform_bind.2 fun found _ => ⟨trivial, ?_⟩
    cases found <;> trivial
  | setModelBudget | debitModelBudget | refundModelBudget => cases hc

theorem quiet_of_call (hashKeyId : String → String) {c : Call} (hc : c.isBudgetCall = false)
    (a : c.Ans) :
    budgetSet hashKeyId h model ⟨c, a⟩ = none ∧ budgetTaken hashKeyId h model ⟨c, a⟩ = 0 ∧
      budgetGiven hashKeyId h model ⟨c, a⟩ = 0 := by
  cases c <;> first | exact ⟨rfl, rfl, rfl⟩ | cases hc

theorem moved_persistent {cs : List Input} {c : Call} {a : c.Ans} {st' : Store}
    (hsynced : BudgetsSynced st.rows)
    (hrun : alone hashKeyId (c.prog hashKeyId) cs st = some (some a, st')) :
    CallMoved hashKeyId h model cs ⟨c, a⟩ ((Backend.persistent st).budget h model)
        ((Backend.persistent st').budget h model) ∧ BudgetsSynced st'.rows := by
  have hwritten : ∀ h' model' v, BudgetsSynced (synced st ⟨.mbudget h' model', v⟩).rows :=
    fun _ _ _ _ _ => DurableStore.synced_commit _ _ _
  by_cases hc : c.isBudgetCall = false
  · obtain ⟨hsynced', hsame⟩ := sameBudgets_of_off (prog_off_of_call hc) hsynced hrun
    obtain ⟨hset, htaken, hgiven⟩ := quiet_of_call hashKeyId hc a
    refine ⟨?_, hsynced'⟩
    rw [show (Backend.persistent st').budget h model = (Backend.persistent st).budget h model from
      hsame h model]
    exact moved_quiet hset (fun _ => htaken) fun _ => Or.inl hgiven
  cases c with
  | setModelBudget keyId model' amount =>
    obtain ⟨cs₁, cs₂, r, mid, rfl, hset, hret⟩ := alone_bind hrun
    cases hret
    rcases setModelBudget_cases hset with ⟨rfl, rfl⟩ | ⟨⟨e, rfl⟩, rfl⟩
    · exact ⟨moved_set (budget_synced _ _ _), hwritten _ _ _⟩
    · exact ⟨moved_quiet rfl (fun _ => rfl) fun _ => Or.inl rfl, hsynced⟩
  | debitModelBudget keyId model' amount =>
    obtain ⟨cs₁, cs₂, r, mid, rfl, hdebit, hret⟩ := alone_bind hrun
    cases hret
    rcases debitModelBudget_cases hdebit with ⟨rfl, hnone⟩ | ⟨cur, hcur, hle, rfl, rfl⟩
    · refine ⟨moved_quiet rfl (fun hsome => ?_) fun _ => Or.inl rfl, hsynced⟩
      match a with
      | .error e => rfl
      | .ok () =>
        refine if_neg fun hrow => hsome ?_
        rw [← hrow.1, ← hrow.2]
        exact hnone rfl
    · refine ⟨moved_debit hle ?_ (budget_synced _ _ _), hwritten _ _ _⟩
      rintro ⟨rfl, rfl⟩
      exact hcur
  | refundModelBudget keyId model' amount =>
    obtain ⟨cs₁, cs₂, r, mid, rfl, hrefund, hret⟩ := alone_bind hrun
    cases hret
    rcases refundModelBudget_cases hrefund with ⟨rfl, hnone⟩ | ⟨cur, hcur, rfl⟩
    · refine ⟨moved_quiet rfl (fun _ => rfl) fun hsome => ?_, hsynced⟩
      rcases hnone with hnone | ⟨e, hfail⟩
      · refine Or.inl (if_neg fun hrow => hsome ?_)
        rw [← hrow.1, ← hrow.2]
        exact hnone
      · exact Or.inr ⟨e, List.mem_append_left _ hfail⟩
    · refine ⟨moved_refund ?_ (budget_synced _ _ _), hwritten _ _ _⟩
      rintro ⟨rfl, rfl⟩
      exact hcur
  | _ => exact absurd rfl hc

theorem Backend.moved_perform {b b' : Backend} {minted : Minted} {cs : List Input} {c : Call}
    {a : c.Ans} (hdurable : b.Durable) (hrun : b.perform hashKeyId minted cs c = some (a, b')) :
    CallMoved hashKeyId h model cs ⟨c, a⟩ (b.budget h model) (b'.budget h model) ∧ b'.Durable := by
  cases b with
  | memory m =>
    simp only [perform, Option.ite_none_right_eq_some] at hrun
    obtain ⟨hfresh, hrun⟩ := hrun
    cases hrun
    exact ⟨Memory.moved_perform minted cs c fun h hmem => by simpa using hfresh h hmem, trivial⟩
  | persistent st =>
    obtain ⟨⟨r, st'⟩, halone, hr⟩ := Option.bind_eq_some_iff.1 hrun
    obtain ⟨a', rfl, heq⟩ := Option.map_eq_some_iff.1 hr
    cases heq
    exact moved_persistent hdurable halone

/-- The batch methods move no budget. -/
theorem Backend.budget_method (h model : String) {b b' : Backend} {cs : List Input} {m : Method} {a : m.Ans}
    (hrow : m.budgetRow hashKeyId = none) (hdurable : b.Durable)
    (hrun : b.method hashKeyId cs m = some (a, b')) :
    b'.Durable ∧ b'.budget h model = b.budget h model := by
  cases b with
  | memory m => cases hrun
  | persistent st =>
    obtain ⟨⟨r, st'⟩, halone, heq⟩ := Option.map_eq_some_iff.1 hrun
    cases heq
    obtain ⟨hsynced, hsame⟩ := sameBudgets_of_off (prog_off hrow) hdurable halone
    exact ⟨hsynced, hsame h model⟩

end Steps
end Gateway.ApiKeyStore
