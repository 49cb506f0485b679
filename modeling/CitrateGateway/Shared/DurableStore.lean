import Mathlib.Data.List.Sigma

/-!
# A key-value store with unsynced writes

Every row holds a value of its key's own type. A synced write is durable when it returns, and
a group of rows becomes durable at once; an unsynced write is visible at once but a crash may
lose it. Writes are kept newest first.
-/

namespace Durable
set_option autoImplicit false

/-- The elements whose bit is set; elements past the end of the mask are lost. -/
def keep {α : Type} : List Bool → List α → List α
  | true :: mask, x :: xs => x :: keep mask xs
  | false :: mask, _ :: xs => keep mask xs
  | _, _ => []

theorem keep_sublist {α : Type} (mask : List Bool) (xs : List α) : (keep mask xs).Sublist xs := by
  induction xs generalizing mask with
  | nil => rcases mask with _ | ⟨_ | _, _⟩ <;> exact List.Sublist.slnil
  | cons x xs ih =>
    match mask with
    | [] => exact List.nil_sublist _
    | true :: mask => exact (ih mask).cons_cons x
    | false :: mask => exact (ih mask).cons x

variable {K : Type} [DecidableEq K] {V : K → Type}

structure DurableStore (V : K → Type) where
  durable : List ((k : K) × V k)
  pending : List ((k : K) × V k)

namespace DurableStore

def empty : DurableStore V := ⟨[], []⟩

def get (s : DurableStore V) (k : K) : Option (V k) := (s.pending ++ s.durable).dlookup k

/-- One row for each key, the newest. -/
def rows (s : DurableStore V) : List ((k : K) × V k) := (s.pending ++ s.durable).dedupKeys

/-- An unsynced write. -/
def put (s : DurableStore V) (row : (k : K) × V k) : DurableStore V :=
  { s with pending := row :: s.pending }

/-- A synced write of a group of rows; what was written before it becomes durable with it. -/
def commit (s : DurableStore V) (group : List ((k : K) × V k)) : DurableStore V where
  durable := group.reverse ++ (s.pending ++ s.durable)
  pending := []

/-- The store after a crash that kept the unsynced writes of the mask. -/
def crash (mask : List Bool) (s : DurableStore V) : DurableStore V where
  durable := keep mask s.pending ++ s.durable
  pending := []

/-- A value that a crash may leave at the key, the present one included. -/
def Possible (s : DurableStore V) (k : K) (v : V k) : Prop :=
  ⟨k, v⟩ ∈ s.pending ∨ s.durable.dlookup k = some v

/-- No unsynced write of the key is outstanding. -/
def Synced (s : DurableStore V) (k : K) : Prop := k ∉ s.pending.keys

variable {s : DurableStore V} {k : K} {v : V k}

theorem mem_rows : ⟨k, v⟩ ∈ s.rows ↔ s.get k = some v := by
  rw [rows, get, ← List.mem_dlookup_iff (List.nodupKeys_dedupKeys _), List.dlookup_dedupKeys,
    Option.mem_def]

theorem nodupKeys_rows (s : DurableStore V) : s.rows.NodupKeys := List.nodupKeys_dedupKeys _

theorem get_eq (s : DurableStore V) (k : K) :
    s.get k = (s.pending.dlookup k).or (s.durable.dlookup k) :=
  List.dlookup_append _ _ _

theorem get_of_synced (h : s.Synced k) : s.get k = s.durable.dlookup k := by
  rw [get_eq, List.dlookup_eq_none.2 h, Option.none_or]

theorem possible_of_get (h : s.get k = some v) : s.Possible k v := by
  rw [get_eq, Option.or_eq_some_iff] at h
  rcases h with h | ⟨_, h⟩
  · exact Or.inl (List.of_mem_dlookup h)
  · exact Or.inr h

theorem possible_iff_of_synced (h : s.Synced k) : s.Possible k v ↔ s.get k = some v := by
  rw [get_of_synced h]
  exact or_iff_right fun hmem => h (List.mem_keys_of_mem hmem)

section Put
variable {row : (k : K) × V k}

@[simp] theorem get_put_self (s : DurableStore V) (k : K) (v : V k) :
    (s.put ⟨k, v⟩).get k = some v :=
  List.dlookup_cons_eq _ _ _

theorem get_put_ne (s : DurableStore V) (h : k ≠ row.1) : (s.put row).get k = s.get k :=
  List.dlookup_cons_ne _ _ h

theorem possible_put (h : (s.put row).Possible k v) : row = ⟨k, v⟩ ∨ s.Possible k v := by
  rcases h with h | h
  · rcases List.mem_cons.1 h with h | h
    · exact Or.inl h.symm
    · exact Or.inr (Or.inl h)
  · exact Or.inr (Or.inr h)

theorem Possible.put (h : s.Possible k v) (row : (k : K) × V k) : (s.put row).Possible k v :=
  h.imp (List.mem_cons_of_mem _) id

omit [DecidableEq K] in
theorem synced_put_ne (h : k ≠ row.1) : (s.put row).Synced k ↔ s.Synced k := by
  simp [Synced, DurableStore.put, h]

end Put

section Commit
variable {group : List ((k : K) × V k)}

omit [DecidableEq K] in
theorem synced_commit (s : DurableStore V) (group : List ((k : K) × V k)) (k : K) :
    (s.commit group).Synced k :=
  List.not_mem_nil

theorem get_commit (s : DurableStore V) (group : List ((k : K) × V k)) (k : K) :
    (s.commit group).get k = (group.reverse.dlookup k).or (s.get k) := by
  rw [DurableStore.get, commit, List.nil_append, List.dlookup_append, DurableStore.get]

theorem get_commit_ne (s : DurableStore V) (h : k ∉ group.keys) :
    (s.commit group).get k = s.get k := by
  have hnone : group.reverse.dlookup k = none := by
    rw [List.dlookup_eq_none]
    simpa [List.keys] using h
  rw [get_commit, hnone, Option.none_or]

theorem get_commit_mem (s : DurableStore V) (hnodup : group.NodupKeys) (h : ⟨k, v⟩ ∈ group) :
    (s.commit group).get k = some v := by
  have hrev : group.reverse.dlookup k = some v := by
    refine List.mem_dlookup ?_ (List.mem_reverse.2 h)
    exact (List.perm_nodupKeys (List.reverse_perm group)).2 hnodup
  rw [get_commit, hrev, Option.some_or]

theorem get_commit_self (s : DurableStore V) (k : K) (v : V k) :
    (s.commit [⟨k, v⟩]).get k = some v :=
  List.dlookup_cons_eq _ _ _

theorem possible_commit (hnodup : group.NodupKeys) (h : (s.commit group).Possible k v) :
    ⟨k, v⟩ ∈ group ∨ (k ∉ group.keys ∧ s.get k = some v) := by
  rw [possible_iff_of_synced (synced_commit s group k)] at h
  by_cases hk : k ∈ group.keys
  · obtain ⟨w, hw⟩ := List.mem_keys.1 hk
    rw [get_commit_mem s hnodup hw] at h
    cases h
    exact Or.inl hw
  · rw [get_commit_ne s hk] at h
    exact Or.inr ⟨hk, h⟩

theorem isSome_durable_commit (group : List ((k : K) × V k))
    (h : (s.durable.dlookup k).isSome = true) :
    ((s.commit group).durable.dlookup k).isSome = true := by
  rw [commit, List.dlookup_append, List.dlookup_append, Option.isSome_or, Option.isSome_or, h]
  simp

end Commit

section Crash
variable {mask : List Bool}

omit [DecidableEq K] in
theorem synced_crash (mask : List Bool) (s : DurableStore V) (k : K) :
    (s.crash mask).Synced k := by
  simp [Synced, crash]

theorem get_crash (mask : List Bool) (s : DurableStore V) (k : K) :
    (s.crash mask).get k = ((keep mask s.pending).dlookup k).or (s.durable.dlookup k) := by
  rw [get_of_synced (synced_crash mask s k)]
  exact List.dlookup_append _ _ _

/-- A crash leaves a value that was written, and invents none. -/
theorem possible_of_crash (h : (s.crash mask).get k = some v) : s.Possible k v := by
  rw [get_crash, Option.or_eq_some_iff] at h
  rcases h with h | ⟨_, h⟩
  · exact Or.inl ((keep_sublist mask s.pending).subset (List.of_mem_dlookup h))
  · exact Or.inr h

theorem get_crash_of_synced (h : s.Synced k) : (s.crash mask).get k = s.get k := by
  have hnone : (keep mask s.pending).dlookup k = none := by
    rw [List.dlookup_eq_none]
    intro hmem
    obtain ⟨v, hv⟩ := List.mem_keys.1 hmem
    exact h (List.mem_keys_of_mem ((keep_sublist mask s.pending).subset hv))
  rw [get_crash, hnone, Option.none_or, get_of_synced h]

/-- A durable row is there after every crash, with a value that was possible before. -/
theorem get_crash_isSome (h : (s.durable.dlookup k).isSome = true) (mask : List Bool) :
    ((s.crash mask).get k).isSome = true := by
  rw [get_crash, Option.isSome_or, h, Bool.or_true]

end Crash

section Written
variable {P Q : (k : K) → V k → Prop} {row : (k : K) × V k} {group : List ((k : K) × V k)}

/-- Everything that was written and may still be read satisfies the predicate. -/
def All (P : (k : K) → V k → Prop) (s : DurableStore V) : Prop :=
  ∀ row ∈ s.pending ++ s.durable, P row.1 row.2

theorem All.get (h : s.All P) (hget : s.get k = some v) : P k v :=
  h ⟨k, v⟩ (List.of_mem_dlookup hget)

omit [DecidableEq K] in
theorem All.mono (h : s.All P) (himp : ∀ k v, P k v → Q k v) : s.All Q :=
  fun row hrow => himp _ _ (h row hrow)

omit [DecidableEq K] in
theorem All.put (h : s.All P) (hrow : P row.1 row.2) : (s.put row).All P := by
  intro row' hmem
  rcases List.mem_cons.1 hmem with rfl | hmem
  · exact hrow
  · exact h row' hmem

omit [DecidableEq K] in
theorem All.commit (h : s.All P) (hgroup : ∀ row ∈ group, P row.1 row.2) :
    (s.commit group).All P := by
  intro row' hmem
  rw [DurableStore.commit, List.nil_append, List.mem_append, List.mem_reverse] at hmem
  rcases hmem with hmem | hmem
  · exact hgroup row' hmem
  · exact h row' hmem

omit [DecidableEq K] in
theorem All.crash (h : s.All P) (mask : List Bool) : (s.crash mask).All P := by
  intro row' hmem
  rw [DurableStore.crash, List.nil_append, List.mem_append] at hmem
  rcases hmem with hmem | hmem
  · exact h row' (List.mem_append_left _ ((keep_sublist mask s.pending).subset hmem))
  · exact h row' (List.mem_append_right _ hmem)

end Written
end DurableStore
end Durable
