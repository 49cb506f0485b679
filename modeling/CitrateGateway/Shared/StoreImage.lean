import CitrateGateway.Shared.DurableStore
import Mathlib.Data.List.Forall2

/-!
# Stores that hold the same rows in another form

One store is the image of another when it has, in the place of each row, a row related to it.
Below everything the image may have rows of its own. When related rows have the same key exactly
when their images have, the image has one row for each row of the store.
-/

namespace Durable
set_option autoImplicit false

variable {K K' : Type} {V : K → Type} {V' : K' → Type}
variable {R : ((k : K) × V k) → ((k : K') × V' k) → Prop}

theorem forall₂_keep {l : List ((k : K) × V k)} {l' : List ((k : K') × V' k)}
    (h : List.Forall₂ R l l') (mask : List Bool) :
    List.Forall₂ R (keep mask l) (keep mask l') := by
  induction h generalizing mask with
  | nil => rcases mask with _ | ⟨_ | _, _⟩ <;> exact .nil
  | @cons x y l l' hxy hl ih =>
    match mask with
    | [] => exact .nil
    | true :: mask => exact .cons hxy (ih mask)
    | false :: mask => exact ih mask

theorem exists_mem_of_forall₂ {l : List ((k : K) × V k)} {l' : List ((k : K') × V' k)}
    (h : List.Forall₂ R l l') {y : (k : K') × V' k} (hy : y ∈ l') : ∃ x ∈ l, R x y := by
  induction h with
  | nil => cases hy
  | @cons x' y' l l' hxy' hl ih =>
    rcases List.mem_cons.1 hy with rfl | hy
    · exact ⟨x', by simp, hxy'⟩
    · obtain ⟨x, hx, hxy⟩ := ih hy
      exact ⟨x, List.mem_cons_of_mem _ hx, hxy⟩

theorem filterMap_eq_of_forall₂ {α : Type} {l : List ((k : K) × V k)}
    {l' : List ((k : K') × V' k)} {f : ((k : K) × V k) → Option α}
    {g : ((k : K') × V' k) → Option α} (h : List.Forall₂ R l l')
    (hfg : ∀ x y, R x y → g y = f x) : l'.filterMap g = l.filterMap f := by
  induction h with
  | nil => rfl
  | @cons x y l l' hxy hl ih => rw [List.filterMap_cons, List.filterMap_cons, hfg x y hxy, ih]

/-- Related rows have the same key when their images have, and only then. -/
def SameKeys (R : ((k : K) × V k) → ((k : K') × V' k) → Prop) : Prop :=
  ∀ x x' y y', R x y → R x' y' → (x.1 = x'.1 ↔ y.1 = y'.1)

section Lists
variable [DecidableEq K] [DecidableEq K']
variable {l : List ((k : K) × V k)} {l' floor : List ((k : K') × V' k)}
variable {x : (k : K) × V k} {y : (k : K') × V' k}

theorem forall₂_kerase (hsame : SameKeys R) (hxy : R x y) (h : List.Forall₂ R l l') :
    List.Forall₂ R (l.kerase x.1) (l'.kerase y.1) := by
  induction h with
  | nil => exact .nil
  | @cons x' y' l l' hxy' hl ih =>
    by_cases hkey : x.1 = x'.1
    · rw [List.kerase_cons_eq hkey, List.kerase_cons_eq ((hsame _ _ _ _ hxy hxy').1 hkey)]
      exact hl
    · have hkey' : y.1 ≠ y'.1 := fun heq => hkey ((hsame _ _ _ _ hxy hxy').2 heq)
      rw [List.kerase_cons_ne hkey, List.kerase_cons_ne hkey']
      exact .cons hxy' ih

/-- The newest rows of the image are those of the store, and below them the floor. -/
theorem forall₂_dedupKeys (hsame : SameKeys R) (hfloor : ∀ x y, R x y → y.1 ∉ floor.keys)
    (h : List.Forall₂ R l l') : ∃ above, (l' ++ floor).dedupKeys = above ++ floor.dedupKeys ∧
      List.Forall₂ R l.dedupKeys above := by
  induction h with
  | nil => exact ⟨[], rfl, .nil⟩
  | @cons x y l l' hxy hl ih =>
    obtain ⟨above, hrows, habove⟩ := ih
    have hkey : y.1 ∉ floor.dedupKeys.keys := by
      rw [← List.dlookup_isSome, List.dlookup_dedupKeys, List.dlookup_isSome]
      exact hfloor x y hxy
    refine ⟨y :: above.kerase y.1, ?_, ?_⟩
    · rw [List.cons_append, List.dedupKeys_cons, hrows, List.kinsert_def]
      by_cases hmem : y.1 ∈ above.keys
      · rw [List.kerase_append_left hmem]
        rfl
      · rw [List.kerase_append_right hmem, List.kerase_of_notMem_keys hkey,
          List.kerase_of_notMem_keys hmem]
        rfl
    · rw [List.dedupKeys_cons, List.kinsert_def]
      exact .cons hxy (forall₂_kerase hsame hxy habove)

end Lists

/-- A store with a related row in the place of each row, and the floor at the bottom. -/
structure Image (R : ((k : K) × V k) → ((k : K') × V' k) → Prop)
    (floor : List ((k : K') × V' k)) (s : DurableStore V) (s' : DurableStore V') : Prop where
  pending : List.Forall₂ R s.pending s'.pending
  durable : ∃ above, s'.durable = above ++ floor ∧ List.Forall₂ R s.durable above

namespace Image
variable {floor : List ((k : K') × V' k)} {s : DurableStore V} {s' : DurableStore V'}

theorem empty (floor : List ((k : K') × V' k)) :
    Image R floor (DurableStore.empty (V := V)) (DurableStore.empty.commit floor.reverse) where
  pending := .nil
  durable := ⟨[], by simp [DurableStore.empty, DurableStore.commit], .nil⟩

theorem put {x : (k : K) × V k} {y : (k : K') × V' k} (h : Image R floor s s') (hxy : R x y) :
    Image R floor (s.put x) (s'.put y) where
  pending := .cons hxy h.pending
  durable := h.durable

theorem commit {group : List ((k : K) × V k)} {group' : List ((k : K') × V' k)}
    (h : Image R floor s s') (hgroup : List.Forall₂ R group group') :
    Image R floor (s.commit group) (s'.commit group') where
  pending := .nil
  durable := by
    obtain ⟨above, hdurable, habove⟩ := h.durable
    refine ⟨group'.reverse ++ (s'.pending ++ above), ?_, ?_⟩
    · simp [DurableStore.commit, hdurable]
    · exact List.rel_append (List.rel_reverse hgroup) (List.rel_append h.pending habove)

theorem crash (h : Image R floor s s') (mask : List Bool) :
    Image R floor (s.crash mask) (s'.crash mask) where
  pending := .nil
  durable := by
    obtain ⟨above, hdurable, habove⟩ := h.durable
    refine ⟨keep mask s'.pending ++ above, ?_, ?_⟩
    · simp [DurableStore.crash, hdurable]
    · exact List.rel_append (forall₂_keep h.pending mask) habove

theorem of_all {P : (k : K) → V k → Prop} (h : Image R floor s s') (hs : s.All P) :
    Image (fun x y => P x.1 x.2 ∧ R x y) floor s s' where
  pending := (List.forall₂_and_left _ _).2
    ⟨fun x hx => hs x (List.mem_append_left _ hx), h.pending⟩
  durable := by
    obtain ⟨above, hdurable, habove⟩ := h.durable
    exact ⟨above, hdurable, (List.forall₂_and_left _ _).2
      ⟨fun x hx => hs x (List.mem_append_right _ hx), habove⟩⟩

/-- One row for each row of the store, and those of the floor. -/
theorem rows [DecidableEq K] [DecidableEq K'] (h : Image R floor s s') (hsame : SameKeys R)
    (hfloor : ∀ x y, R x y → y.1 ∉ floor.keys) :
    ∃ above, s'.rows = above ++ floor.dedupKeys ∧ List.Forall₂ R s.rows above := by
  obtain ⟨above, hdurable, habove⟩ := h.durable
  rw [DurableStore.rows, DurableStore.rows, hdurable, ← List.append_assoc]
  exact forall₂_dedupKeys hsame hfloor (List.rel_append h.pending habove)

end Image
end Durable
