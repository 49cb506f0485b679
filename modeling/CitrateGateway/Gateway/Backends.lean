import CitrateGateway.Gateway.ApiKeys

/-!
# The two backends compared

The same calls with the same minted ids, once in memory and once on the persistent store. The
times that the two read may differ, so a record is compared without it.
-/

namespace Gateway.ApiKeyStore
set_option autoImplicit false
open Words Effects Durable KeyStore

section Sequences
variable (hashKeyId : String → String)

structure Step where
  call : Call
  uuid : String
  memoryNow : UInt64
  storeNow : UInt64
  deriving DecidableEq

abbrev Answer := (c : Call) × c.Ans

def memoryRun : List Step → Memory → List Answer × Memory
  | [], m => ([], m)
  | s :: steps, m =>
    let r := m.perform hashKeyId ⟨s.uuid, s.memoryNow⟩ s.call
    let rest := memoryRun steps r.2
    (⟨s.call, r.1⟩ :: rest.1, rest.2)

def persistentRun : List Step → Store → Option (List Answer × Store)
  | [], st => some ([], st)
  | s :: steps, st =>
    (persistent hashKeyId st ⟨s.uuid, s.storeNow⟩ s.call).bind fun r =>
      (persistentRun steps r.2).map fun rest => (⟨s.call, r.1⟩ :: rest.1, rest.2)

/-- What both backends keep of a key. -/
def shown (r : ApiKeyRecord) : ApiKeyRecord := { r with createdAt := 0, modelBudgets := ∅ }

def observed : Answer → Answer
  | ⟨.get keyId, found⟩ => ⟨.get keyId, Option.map shown found⟩
  | a => a

structure Agrees (mem : List Answer × Memory) (per : List Answer × Store) : Prop where
  answers : mem.1.map observed = per.1.map observed
  records : ∀ keyId, (mem.2 (hashKeyId keyId)).map shown =
    (per.2.rows.get (.bal (hashKeyId keyId))).map fun br => shown (recordFromBalance br)
  budgets : ∀ keyId, mem.2.getModelBudgets hashKeyId keyId =
    budgetsOf per.2.rows (hashKeyId keyId)

/-- The hash that a step mints. -/
def Step.mints (s : Step) : List String :=
  match s.call with
  | .insert _ _ _ _ => [tokenHash hashKeyId s.uuid]
  | _ => []

/-- A budget is set for a key that was minted before. -/
def Step.SetsKnown (known : List String) (s : Step) : Prop :=
  match s.call with
  | .setModelBudget keyId _ _ => hashKeyId keyId ∈ known
  | _ => True

def SetsKnown (known : List String) : List Step → Prop
  | [] => True
  | s :: steps => s.SetsKnown hashKeyId known ∧ SetsKnown (s.mints hashKeyId ++ known) steps

/-- No two minted ids share a hash. -/
def MintsFresh (known : List String) : List Step → Prop
  | [] => True
  | s :: steps => (∀ h ∈ s.mints hashKeyId, h ∉ known) ∧
      MintsFresh (s.mints hashKeyId ++ known) steps

end Sequences

section Budgets
variable {rows : Rows} {h : String}

theorem mem_budgetsOf {model : String} {v : U256} :
    (model, v) ∈ budgetsOf rows h ↔ rows.get (.mbudget h model) = some v := by
  rw [budgetsOf, List.mem_insertionSort, List.mem_filterMap, ← DurableStore.mem_rows]
  constructor
  · rintro ⟨⟨k, w⟩, hmem, hrow⟩
    cases k with
    | mbudget h' model' =>
      simp only [Option.ite_none_right_eq_some, Option.some.injEq, Prod.mk.injEq] at hrow
      obtain ⟨rfl, rfl, rfl⟩ := hrow
      exact hmem
    | _ => cases hrow
  · intro hmem
    exact ⟨_, hmem, by simp⟩

theorem nodup_budgetsOf (rows : Rows) (h : String) : (budgetsOf rows h).Nodup := by
  rw [budgetsOf, (List.perm_insertionSort _ _).nodup_iff]
  refine (DurableStore.nodupKeys_rows rows).nodup.filterMap ?_
  rintro ⟨k, v⟩ ⟨k', v'⟩ b hb hb'
  cases k with
  | mbudget h₁ model₁ =>
    cases k' with
    | mbudget h₂ model₂ =>
      simp only [Option.mem_def, Option.ite_none_right_eq_some, Option.some.injEq] at hb hb'
      obtain ⟨rfl, rfl⟩ := hb
      obtain ⟨rfl, heq⟩ := hb'
      cases heq
      rfl
    | _ => cases hb'
  | _ => cases hb

theorem pairwise_budgetsOf (rows : Rows) (h : String) :
    (budgetsOf rows h).Pairwise fun a b => a.1 ≤ b.1 := by
  have : Std.Total fun a b : String × U256 => a.1 ≤ b.1 := ⟨fun a b => le_total a.1 b.1⟩
  have : IsTrans (String × U256) fun a b => a.1 ≤ b.1 := ⟨fun _ _ _ => le_trans⟩
  exact List.pairwise_insertionSort _ _

/-- The map of a record and the rows of its key list the same budgets in the same order. -/
theorem toList_eq_budgetsOf {budgets : Std.TreeMap String U256}
    (hsame : ∀ model, budgets[model]? = rows.get (.mbudget h model)) :
    budgets.toList = budgetsOf rows h := by
  have hmem : ∀ model v, (model, v) ∈ budgets.toList ↔ (model, v) ∈ budgetsOf rows h := by
    intro model v
    rw [Std.TreeMap.mem_toList_iff_getElem?_eq_some, hsame, mem_budgetsOf]
  have hlt : budgets.toList.Pairwise fun a b => a.1 < b.1 :=
    Std.TreeMap.ordered_keys_toList.imp compare_lt_iff_lt.1
  refine List.Perm.eq_of_pairwise ?_ (hlt.imp le_of_lt) (pairwise_budgetsOf rows h) ?_
  · rintro ⟨model, v⟩ ⟨model', v'⟩ hv hv' hle hge
    obtain rfl : model = model' := le_antisymm hle hge
    have hv₁ := mem_budgetsOf.1 ((hmem _ _).1 hv)
    rw [mem_budgetsOf.1 hv'] at hv₁
    cases hv₁
    rfl
  · refine (List.perm_ext_iff_of_nodup ?_ (nodup_budgetsOf rows h)).2 fun ⟨model, v⟩ =>
      hmem model v
    exact hlt.imp fun hab heq => absurd hab (by rw [heq]; exact lt_irrefl _)

end Budgets

section Calls

/-- The store after one synced write. -/
abbrev synced (st : Store) (row : Row) : Store := { st with rows := st.rows.commit [row] }

variable {hashKeyId : String → String} {st : Store} {minted : Minted} {keyId model : String}
variable {amount : U256}

theorem persistent_eq {c : Call} {α : Type} {p : M α} {f : α → c.Ans}
    (hprog : c.prog hashKeyId = p >>= fun a => pure (some (f a))) :
    persistent hashKeyId st minted c =
      (alone hashKeyId p (c.inputs minted) st).map fun r => (f r.1, r.2) := by
  rw [persistent, hprog, alone_bind_pure]
  cases alone hashKeyId p (c.inputs minted) st <;> rfl

theorem inputs_eq {c : Call} (hc : ∀ label balance deposit backing,
    c ≠ .insert label balance deposit backing) : c.inputs minted = [.ok, .ok, .ok, .ok, .ok] := by
  cases c with
  | insert label balance deposit backing => exact absurd rfl (hc label balance deposit backing)
  | _ => rfl

theorem persistent_insert {label : String} {balance : U256} {deposit : H160}
    {backing : KeyBacking} (hfresh : st.fresh (tokenHash hashKeyId minted.uuid) = true) :
    persistent hashKeyId st minted (.insert label balance deposit backing) =
      some ("cgk_" ++ minted.uuid, {
        rows := st.rows.commit [⟨.bal (tokenHash hashKeyId minted.uuid),
          ⟨label, minted.now, false, backing.asU8, deposit, balance⟩⟩]
        issued := tokenHash hashKeyId minted.uuid :: st.issued }) := by
  rw [persistent, Call.prog, createBalanceKey, Prog.bind_assoc, Call.inputs, alone_newUuid hfresh]
  rfl

theorem persistent_get : persistent hashKeyId st minted (.get keyId) =
    some ((st.rows.get (.bal (hashKeyId keyId))).map recordFromBalance, st) :=
  rfl

theorem persistent_debit : persistent hashKeyId st minted (.debit keyId amount) =
    some (match st.rows.get (.bal (hashKeyId keyId)) with
      | none => (.error .unknown, st)
      | some r =>
        if r.revoked then (.error .revoked, st)
        else if r.balance.toNat < amount.toNat then (.error (.insufficient r.balance), st)
        else (.ok (r.balance - amount),
          synced st ⟨.bal (hashKeyId keyId), { r with balance := r.balance - amount }⟩)) := by
  rw [persistent_eq rfl, inputs_eq (fun _ _ _ _ h => by cases h), debitBalance, withLock, alone_lock,
    Prog.bind_assoc, alone_get]
  cases st.rows.get (.bal (hashKeyId keyId)) with
  | none => rfl
  | some r =>
    cases hrevoked : r.revoked with
    | true =>
      simp only [hrevoked, if_true]
      rfl
    | false =>
      by_cases hlow : r.balance.toNat < amount.toNat
      · simp only [hrevoked, Bool.false_eq_true, if_false, if_pos hlow]
        rfl
      · simp only [hrevoked, Bool.false_eq_true, if_false, if_neg hlow]
        rfl

theorem persistent_refund : persistent hashKeyId st minted (.refund keyId amount) =
    some (match st.rows.get (.bal (hashKeyId keyId)) with
      | none => (.error .unknown, st)
      | some r => (.ok (saturatingAdd r.balance amount), synced st
          ⟨.bal (hashKeyId keyId), { r with balance := saturatingAdd r.balance amount }⟩)) := by
  rw [persistent_eq rfl, inputs_eq (fun _ _ _ _ h => by cases h), refundBalance, withLock, alone_lock,
    Prog.bind_assoc, alone_get]
  cases st.rows.get (.bal (hashKeyId keyId)) with
  | none => rfl
  | some r => rfl

theorem persistent_revoke (hrecord : st.rows.get (.record (hashKeyId keyId)) = none) :
    persistent hashKeyId st minted (.revoke keyId) =
      some (match st.rows.get (.bal (hashKeyId keyId)) with
        | none => (.error .unknown, st)
        | some r => (.ok (), synced st ⟨.bal (hashKeyId keyId), { r with revoked := true }⟩)) := by
  rw [persistent_eq rfl, inputs_eq (fun _ _ _ _ h => by cases h), KeyStore.revoke, revokeHash, alone_get,
    hrecord]
  simp only
  rw [withLock, alone_lock, Prog.bind_assoc, alone_get]
  cases st.rows.get (.bal (hashKeyId keyId)) with
  | none => rfl
  | some r => rfl

theorem persistent_setModelBudget :
    persistent hashKeyId st minted (.setModelBudget keyId model amount) =
      some (.ok (), synced st ⟨.mbudget (hashKeyId keyId) model, amount⟩) :=
  rfl

theorem persistent_getModelBudgets :
    persistent hashKeyId st minted (.getModelBudgets keyId) =
      some (budgetsOf st.rows (hashKeyId keyId), st) :=
  rfl

theorem persistent_debitModelBudget :
    persistent hashKeyId st minted (.debitModelBudget keyId model amount) =
      some (match st.rows.get (.mbudget (hashKeyId keyId) model) with
        | none => (.ok (), st)
        | some cur =>
          if (cur : U256).toNat < amount.toNat then (.error (.exceeded cur), st)
          else (.ok (), synced st ⟨.mbudget (hashKeyId keyId) model, (cur : U256) - amount⟩)) := by
  rw [persistent_eq rfl, inputs_eq (fun _ _ _ _ h => by cases h), debitModelBudget, withLock, alone_lock,
    Prog.bind_assoc, alone_get]
  cases st.rows.get (.mbudget (hashKeyId keyId) model) with
  | none => rfl
  | some cur =>
    by_cases hlow : (cur : U256).toNat < amount.toNat
    · simp only [if_pos hlow]
      rfl
    · simp only [if_neg hlow]
      rfl

theorem persistent_refundModelBudget :
    persistent hashKeyId st minted (.refundModelBudget keyId model amount) =
      some (match st.rows.get (.mbudget (hashKeyId keyId) model) with
        | none => ((), st)
        | some cur => ((), synced st
            ⟨.mbudget (hashKeyId keyId) model, saturatingAdd (cur : U256) amount⟩)) := by
  rw [persistent_eq rfl, inputs_eq (fun _ _ _ _ h => by cases h), refundModelBudget, withLock, alone_lock,
    Prog.bind_assoc, alone_get]
  cases st.rows.get (.mbudget (hashKeyId keyId) model) with
  | none => rfl
  | some cur => rfl

end Calls

section Simulation
variable {hashKeyId : String → String} {known : List String} {m : Memory} {st : Store} {s : Step}
variable {h : String}

/-- The keys of the persistent store are those that were minted. -/
structure Opened (known : List String) (st : Store) : Prop where
  issued : ∀ h, h ∈ st.issued ↔ h ∈ known
  minted : ∀ h, (st.rows.get (.bal h)).isSome = true ↔ h ∈ known
  records : ∀ h, st.rows.get (.record h) = none

/-- Both backends hold the same balances and budgets. -/
structure Related (m : Memory) (st : Store) : Prop where
  balances : ∀ h, (m h).map shown =
    (st.rows.get (.bal h)).map fun br => shown (recordFromBalance br)
  budgets : ∀ h model, ((m h).bind fun r => r.modelBudgets[model]?) =
    st.rows.get (.mbudget h model)

theorem get_synced (st : Store) (row : Row) (k : RowKey) :
    (synced st row).rows.get k = if hk : k = row.1 then some (hk ▸ row.2) else st.rows.get k := by
  obtain ⟨k', v⟩ := row
  split
  · rename_i hk
    cases hk
    exact DurableStore.get_commit_self st.rows k' v
  · rename_i hk
    exact DurableStore.get_commit_ne st.rows (by simpa using hk)

theorem Opened.budget (hop : Opened known st) (model : String) (v : U256) :
    Opened known (synced st ⟨.mbudget h model, v⟩) where
  issued := hop.issued
  minted h' := by
    rw [get_synced, dif_neg (by simp)]
    exact hop.minted h'
  records h' := by
    rw [get_synced, dif_neg (by simp)]
    exact hop.records h'

theorem Opened.balance (hop : Opened known st) {r : BalanceRecord}
    (hrow : st.rows.get (.bal h) = some r) (r' : BalanceRecord) :
    Opened known (synced st ⟨.bal h, r'⟩) where
  issued := hop.issued
  minted h' := by
    rw [get_synced]
    by_cases heq : h' = h
    · subst heq
      simpa using (hop.minted h').1 (by rw [hrow]; rfl)
    · rw [dif_neg (by simpa using heq)]
      exact hop.minted h'
  records h' := by
    rw [get_synced, dif_neg (by simp)]
    exact hop.records h'

theorem Opened.fresh (hop : Opened known st) (hnew : h ∉ known) : st.fresh h = true := by
  have hbal : st.rows.get (.bal h) = none := by
    rw [← Option.not_isSome_iff_eq_none, hop.minted]
    exact hnew
  simp [Store.fresh, hop.issued, hnew, hbal, hop.records]

theorem Opened.mint (hop : Opened known st) (r : BalanceRecord) :
    Opened (h :: known) ⟨st.rows.commit [⟨.bal h, r⟩], h :: st.issued⟩ where
  issued h' := by
    rw [List.mem_cons, List.mem_cons, hop.issued]
  minted h' := by
    show ((synced st ⟨.bal h, r⟩).rows.get (.bal h')).isSome = true ↔ _
    rw [get_synced, List.mem_cons]
    by_cases heq : h' = h
    · simp [heq]
    · rw [dif_neg (by simpa using heq), hop.minted]
      simp [heq]
  records h' := by
    show (synced st ⟨.bal h, r⟩).rows.get (.record h') = none
    rw [get_synced, dif_neg (by simp)]
    exact hop.records h'

/-- Without a failure every call of the persistent backend answers. -/
theorem persistent_opened (hop : Opened known st) (hfresh : ∀ h ∈ s.mints hashKeyId, h ∉ known) :
    ∃ r : s.call.Ans × Store, persistent hashKeyId st ⟨s.uuid, s.storeNow⟩ s.call = some r ∧
      Opened (s.mints hashKeyId ++ known) r.2 := by
  obtain ⟨c, uuid, memoryNow, storeNow⟩ := s
  cases c with
  | insert label balance deposit backing =>
    have hnew := hfresh (tokenHash hashKeyId uuid) (List.mem_singleton_self _)
    exact ⟨_, persistent_insert (hop.fresh hnew), hop.mint _⟩
  | get keyId => exact ⟨_, persistent_get, hop⟩
  | debit keyId amount =>
    refine ⟨_, persistent_debit, ?_⟩
    split
    · exact hop
    · rename_i r hrow
      split
      · exact hop
      · split
        · exact hop
        · exact hop.balance hrow _
  | refund keyId amount =>
    refine ⟨_, persistent_refund, ?_⟩
    split
    · exact hop
    · rename_i r hrow
      exact hop.balance hrow _
  | revoke keyId =>
    refine ⟨_, persistent_revoke (hop.records _), ?_⟩
    split
    · exact hop
    · rename_i r hrow
      exact hop.balance hrow _
  | setModelBudget keyId model amount =>
    exact ⟨_, persistent_setModelBudget, hop.budget model amount⟩
  | getModelBudgets keyId => exact ⟨_, persistent_getModelBudgets, hop⟩
  | debitModelBudget keyId model amount =>
    refine ⟨_, persistent_debitModelBudget, ?_⟩
    split
    · exact hop
    · split
      · exact hop
      · exact hop.budget model _
  | refundModelBudget keyId model amount =>
    refine ⟨_, persistent_refundModelBudget, ?_⟩
    split
    · exact hop
    · exact hop.budget model _

theorem Related.at (hrel : Related m st) (h : String) :
    (m h = none ∧ st.rows.get (.bal h) = none) ∨ ∃ r br, m h = some r ∧
      st.rows.get (.bal h) = some br ∧ shown r = shown (recordFromBalance br) := by
  have hbal := hrel.balances h
  cases hm : m h with
  | none =>
    rw [hm] at hbal
    exact Or.inl ⟨rfl, Option.map_eq_none_iff.1 hbal.symm⟩
  | some r =>
    rw [hm] at hbal
    obtain ⟨br, hrow, hshown⟩ := Option.map_eq_some_iff.1 hbal.symm
    exact Or.inr ⟨r, br, rfl, hrow, hshown.symm⟩

theorem Related.getModelBudgets (hrel : Related m st) (keyId : String) :
    m.getModelBudgets hashKeyId keyId = budgetsOf st.rows (hashKeyId keyId) := by
  have hbudgets := hrel.budgets (hashKeyId keyId)
  rw [Memory.getModelBudgets]
  cases hm : m (hashKeyId keyId) with
  | none =>
    rw [hm] at hbudgets
    have hempty : ∀ model, (∅ : Std.TreeMap String U256)[model]? =
        st.rows.get (.mbudget (hashKeyId keyId) model) := fun model => by
      rw [← hbudgets, Std.TreeMap.getElem?_emptyc]
      rfl
    exact toList_eq_budgetsOf hempty
  | some r =>
    rw [hm] at hbudgets
    exact toList_eq_budgetsOf hbudgets

theorem Related.balance (hrel : Related m st) {r : ApiKeyRecord} {br : BalanceRecord}
    (hshown : shown r = shown (recordFromBalance br))
    (hbudgets : ∀ model : String,
      r.modelBudgets[model]? = (m h).bind fun r => r.modelBudgets[model]?) :
    Related (m.set h r) (synced st ⟨.bal h, br⟩) where
  balances h' := by
    rw [get_synced]
    by_cases heq : h' = h
    · subst heq
      simp [Memory.set, hshown]
    · rw [dif_neg (by simpa using heq), Memory.set, Function.update_of_ne heq]
      exact hrel.balances h'
  budgets h' model := by
    rw [get_synced, dif_neg (by simp), ← hrel.budgets]
    by_cases heq : h' = h
    · subst heq
      simp [Memory.set, hbudgets]
    · rw [Memory.set, Function.update_of_ne heq]

theorem Related.budget (hrel : Related m st) {r : ApiKeyRecord} (hm : m h = some r)
    (model : String) (v : U256) :
    Related (m.set h { r with modelBudgets := r.modelBudgets.insert model v })
      (synced st ⟨.mbudget h model, v⟩) where
  balances h' := by
    rw [get_synced, dif_neg (by simp), ← hrel.balances]
    by_cases heq : h' = h
    · subst heq
      simp [Memory.set, hm, shown]
    · rw [Memory.set, Function.update_of_ne heq]
  budgets h' model' := by
    rw [get_synced]
    by_cases heq : h' = h
    · subst heq
      by_cases hmodel : model' = model
      · subst hmodel
        simp [Memory.set]
      · rw [dif_neg (by simpa using hmodel), ← hrel.budgets, hm]
        simp [Memory.set, Std.TreeMap.getElem?_insert, Ne.symm hmodel]
    · rw [dif_neg (by simp [heq]), ← hrel.budgets, Memory.set, Function.update_of_ne heq]

/-- A call that does not set a budget of an unknown key does the same on both backends. -/
theorem perform_simulated (hop : Opened known st) (hrel : Related m st)
    (hfresh : ∀ h ∈ s.mints hashKeyId, h ∉ known) (hset : s.SetsKnown hashKeyId known)
    {r : s.call.Ans × Store}
    (hrun : persistent hashKeyId st ⟨s.uuid, s.storeNow⟩ s.call = some r) :
    observed ⟨s.call, (m.perform hashKeyId ⟨s.uuid, s.memoryNow⟩ s.call).1⟩ =
        observed ⟨s.call, r.1⟩ ∧
      Related (m.perform hashKeyId ⟨s.uuid, s.memoryNow⟩ s.call).2 r.2 := by
  obtain ⟨c, uuid, memoryNow, storeNow⟩ := s
  cases c with
  | insert label balance deposit backing =>
    have hnew := hfresh (tokenHash hashKeyId uuid) (List.mem_singleton_self _)
    obtain rfl := Option.some.inj ((persistent_insert (hop.fresh hnew)).symm.trans hrun)
    have hm : m (tokenHash hashKeyId uuid) = none := by
      rcases hrel.at (tokenHash hashKeyId uuid) with ⟨hm, _⟩ | ⟨r, br, _, hrow, _⟩
      · exact hm
      · exact absurd ((hop.minted _).1 (by rw [hrow]; rfl)) hnew
    have hnext : Related (m.set (tokenHash hashKeyId uuid)
          ⟨label, balance, deposit, false, backing, memoryNow, ∅⟩)
        (synced st ⟨.bal (tokenHash hashKeyId uuid),
          ⟨label, storeNow, false, backing.asU8, deposit, balance⟩⟩) :=
      hrel.balance (by simp [shown, recordFromBalance]) fun model => by simp [hm]
    exact ⟨rfl, hnext.balances, hnext.budgets⟩
  | get keyId =>
    obtain rfl := Option.some.inj (persistent_get.symm.trans hrun)
    refine ⟨?_, hrel⟩
    have hshown := hrel.balances (hashKeyId keyId)
    simp only [Memory.perform, observed, hshown, Option.map_map]
    rfl
  | debit keyId amount =>
    obtain rfl := Option.some.inj (persistent_debit.symm.trans hrun)
    simp only [Memory.perform, Memory.debit]
    rcases hrel.at (hashKeyId keyId) with ⟨hm, hrow⟩ | ⟨r, br, hm, hrow, hshown⟩
    · simp only [hm, hrow]
      exact ⟨trivial, hrel⟩
    · simp only [hm, hrow]
      simp only [shown, recordFromBalance, ApiKeyRecord.mk.injEq] at hshown
      obtain ⟨hlabel, hbalance, hdeposit, hrevoked, hbacking, _⟩ := hshown
      rw [hrevoked, hbalance]
      split
      · exact ⟨rfl, hrel⟩
      · split
        · exact ⟨rfl, hrel⟩
        · refine ⟨rfl, hrel.balance ?_ fun model => by rw [hm]; rfl⟩
          simp [shown, recordFromBalance, hlabel, hdeposit, hbacking]
  | refund keyId amount =>
    obtain rfl := Option.some.inj (persistent_refund.symm.trans hrun)
    simp only [Memory.perform, Memory.refund]
    rcases hrel.at (hashKeyId keyId) with ⟨hm, hrow⟩ | ⟨r, br, hm, hrow, hshown⟩
    · simp only [hm, hrow]
      exact ⟨trivial, hrel⟩
    · simp only [hm, hrow]
      simp only [shown, recordFromBalance, ApiKeyRecord.mk.injEq] at hshown
      obtain ⟨hlabel, hbalance, hdeposit, hrevoked, hbacking, _⟩ := hshown
      rw [hbalance]
      refine ⟨rfl, hrel.balance ?_ fun model => by rw [hm]; rfl⟩
      simp [shown, recordFromBalance, hlabel, hdeposit, hrevoked, hbacking]
  | revoke keyId =>
    obtain rfl := Option.some.inj ((persistent_revoke (hop.records _)).symm.trans hrun)
    simp only [Memory.perform, Memory.revoke]
    rcases hrel.at (hashKeyId keyId) with ⟨hm, hrow⟩ | ⟨r, br, hm, hrow, hshown⟩
    · simp only [hm, hrow]
      exact ⟨trivial, hrel⟩
    · simp only [hm, hrow]
      simp only [shown, recordFromBalance, ApiKeyRecord.mk.injEq] at hshown
      obtain ⟨hlabel, hbalance, hdeposit, hrevoked, hbacking, _⟩ := hshown
      refine ⟨trivial, hrel.balance ?_ fun model => by rw [hm]; rfl⟩
      simp [shown, recordFromBalance, hlabel, hbalance, hdeposit, hbacking]
  | setModelBudget keyId model amount =>
    obtain rfl := Option.some.inj (persistent_setModelBudget.symm.trans hrun)
    simp only [Memory.perform, Memory.setModelBudget]
    rcases hrel.at (hashKeyId keyId) with ⟨_, hrow⟩ | ⟨r, br, hm, hrow, hshown⟩
    · have := (hop.minted (hashKeyId keyId)).2 hset
      rw [hrow] at this
      cases this
    · simp only [hm]
      exact ⟨trivial, hrel.budget hm model amount⟩
  | getModelBudgets keyId =>
    obtain rfl := Option.some.inj (persistent_getModelBudgets.symm.trans hrun)
    refine ⟨?_, hrel⟩
    simp only [Memory.perform, hrel.getModelBudgets]
  | debitModelBudget keyId model amount =>
    obtain rfl := Option.some.inj (persistent_debitModelBudget.symm.trans hrun)
    simp only [Memory.perform, Memory.debitModelBudget]
    have hbudget := hrel.budgets (hashKeyId keyId) model
    rw [← hbudget]
    cases hm : m (hashKeyId keyId) with
    | none => exact ⟨rfl, hrel⟩
    | some r =>
      simp only [Option.bind_some]
      cases hrow : r.modelBudgets[model]? with
      | none => exact ⟨rfl, hrel⟩
      | some remaining =>
        simp only
        split
        · exact ⟨rfl, hrel⟩
        · exact ⟨rfl, hrel.budget hm model _⟩
  | refundModelBudget keyId model amount =>
    obtain rfl := Option.some.inj (persistent_refundModelBudget.symm.trans hrun)
    simp only [Memory.perform, Memory.refundModelBudget]
    have hbudget := hrel.budgets (hashKeyId keyId) model
    rw [← hbudget]
    cases hm : m (hashKeyId keyId) with
    | none => exact ⟨trivial, hrel⟩
    | some r =>
      simp only [Option.bind_some]
      cases hrow : r.modelBudgets[model]? with
      | none => exact ⟨trivial, hrel⟩
      | some remaining => exact ⟨trivial, hrel.budget hm model _⟩

/-- In memory a budget of an unknown key is refused, on the persistent store it is written. -/
theorem setModelBudget_differs (hop : Opened known st) (hrel : Related m st)
    {r : s.call.Ans × Store} (hnot : ¬ s.SetsKnown hashKeyId known)
    (hrun : persistent hashKeyId st ⟨s.uuid, s.storeNow⟩ s.call = some r) :
    observed ⟨s.call, (m.perform hashKeyId ⟨s.uuid, s.memoryNow⟩ s.call).1⟩ ≠
      observed ⟨s.call, r.1⟩ := by
  obtain ⟨c, uuid, memoryNow, storeNow⟩ := s
  cases c with
  | setModelBudget keyId model amount =>
    obtain rfl := Option.some.inj (persistent_setModelBudget.symm.trans hrun)
    simp only [Memory.perform, Memory.setModelBudget]
    rcases hrel.at (hashKeyId keyId) with ⟨hm, _⟩ | ⟨r, br, _, hrow, _⟩
    · simp only [hm]
      intro heq
      cases heq
    · exact absurd ((hop.minted _).1 (by rw [hrow]; rfl)) hnot
  | _ => exact absurd trivial hnot

end Simulation

section Runs
variable {hashKeyId : String → String}

theorem persistentRun_total {steps : List Step} {known : List String} {st : Store}
    (hop : Opened known st) (hfresh : MintsFresh hashKeyId known steps) :
    ∃ per, persistentRun hashKeyId steps st = some per := by
  induction steps generalizing known st with
  | nil => exact ⟨_, rfl⟩
  | cons s steps ih =>
    obtain ⟨r, hrun, hop'⟩ := persistent_opened hop hfresh.1
    obtain ⟨rest, hrest⟩ := ih hop' hfresh.2
    exact ⟨(⟨s.call, r.1⟩ :: rest.1, rest.2), by simp [persistentRun, hrun, hrest]⟩

theorem agrees_iff_of_related {steps : List Step} {known : List String} {m : Memory} {st : Store}
    {per : List Answer × Store} (hop : Opened known st) (hrel : Related m st)
    (hfresh : MintsFresh hashKeyId known steps)
    (hrun : persistentRun hashKeyId steps st = some per) :
    Agrees hashKeyId (memoryRun hashKeyId steps m) per ↔ SetsKnown hashKeyId known steps := by
  induction steps generalizing known m st per with
  | nil =>
    cases hrun
    exact ⟨fun _ => trivial, fun _ =>
      ⟨rfl, fun keyId => hrel.balances _, fun keyId => hrel.getModelBudgets keyId⟩⟩
  | cons s steps ih =>
    obtain ⟨r, hstep, hop'⟩ := persistent_opened hop hfresh.1
    simp only [persistentRun, hstep, Option.bind_some, Option.map_eq_some_iff] at hrun
    obtain ⟨rest, hrest, rfl⟩ := hrun
    by_cases hset : s.SetsKnown hashKeyId known
    · obtain ⟨hanswer, hrel'⟩ := perform_simulated hop hrel hfresh.1 hset hstep
      rw [SetsKnown, and_iff_right hset, ← ih hop' hrel' hfresh.2 hrest]
      constructor
      · intro h
        refine ⟨?_, h.records, h.budgets⟩
        exact (List.cons.inj h.answers).2
      · intro h
        refine ⟨?_, h.records, h.budgets⟩
        simp only [memoryRun, List.map_cons, hanswer, h.answers]
    · have hdiffers := setModelBudget_differs (m := m) hop hrel hset hstep
      exact ⟨fun h => absurd (List.cons.inj h.answers).1 hdiffers, fun h => absurd h.1 hset⟩

/-- The two backends agree on a sequence of calls exactly if every budget that it sets is a
minted key's. -/
theorem agrees_iff {steps : List Step} (hfresh : MintsFresh hashKeyId [] steps) :
    ∃ per, persistentRun hashKeyId steps ⟨.empty, []⟩ = some per ∧
      (Agrees hashKeyId (memoryRun hashKeyId steps fun _ => none) per ↔
        SetsKnown hashKeyId [] steps) := by
  have hop : Opened [] ⟨.empty, []⟩ :=
    ⟨fun _ => Iff.rfl, fun h => by simp [DurableStore.empty, DurableStore.get], fun h => rfl⟩
  have hrel : Related (fun _ => none) ⟨.empty, []⟩ := ⟨fun h => rfl, fun h model => rfl⟩
  obtain ⟨per, hrun⟩ := persistentRun_total hop hfresh
  exact ⟨per, hrun, agrees_iff_of_related hop hrel hfresh hrun⟩

def pilotSteps : List Step := [
  ⟨.insert "pilot" 100 0 .salt, "a", 1, 2⟩,
  ⟨.setModelBudget "cgk_a" "model" 10, "", 0, 0⟩,
  ⟨.debitModelBudget "cgk_a" "model" 4, "", 0, 0⟩,
  ⟨.getModelBudgets "cgk_a", "", 0, 0⟩]

theorem agrees_iff_sample : ∃ per, persistentRun id pilotSteps ⟨.empty, []⟩ = some per ∧
    Agrees id (memoryRun id pilotSteps fun _ => none) per := by
  have hfresh : MintsFresh id [] pilotSteps := by simp [pilotSteps, MintsFresh, Step.mints]
  obtain ⟨per, hrun, hiff⟩ := agrees_iff hfresh
  refine ⟨per, hrun, hiff.2 ?_⟩
  simp only [pilotSteps, SetsKnown, Step.SetsKnown, Step.mints, and_true, true_and]
  decide

/-- The persistent store writes a budget for a bearer that was never minted. -/
theorem unknown_budget_differs : ∃ per,
    persistentRun id [⟨.setModelBudget "nobody" "model" 5, "", 0, 0⟩] ⟨.empty, []⟩ = some per ∧
      ¬ Agrees id (memoryRun id [⟨.setModelBudget "nobody" "model" 5, "", 0, 0⟩] fun _ => none)
        per := by
  refine ⟨_, rfl, fun h => ?_⟩
  cases h.answers

end Runs
end Gateway.ApiKeyStore
