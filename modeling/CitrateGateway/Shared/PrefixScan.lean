import CitrateGateway.Shared.Words

/-!
# Scans by prefix

The keys that begin with a prefix stand together in the order of all keys. So a scan that starts
at the first key not below the prefix, and stops at the first one that does not begin with it,
finds them all.
-/

namespace PrefixScan
set_option autoImplicit false
open Words

variable {β : Type}

/-- From the prefix on, while the keys begin with it. -/
def scan (p : Bytes) (rows : List (Bytes × β)) : List (Bytes × β) :=
  (rows.dropWhile fun row => row.1 < p).takeWhile fun row => p.isPrefixOf row.1

/-- A key between a prefix and a key that begins with it begins with it too. -/
theorem prefix_of_between {p a b : Bytes} (hpa : p ≤ a) (hab : a ≤ b) (hb : p <+: b) :
    p <+: a := by
  induction p generalizing a b with
  | nil => exact List.nil_prefix
  | cons x p ih =>
    obtain ⟨t, rfl⟩ := hb
    cases a with
    | nil => simp at hpa
    | cons y a =>
      rw [List.cons_le_cons_iff] at hpa
      rw [List.cons_append, List.cons_le_cons_iff] at hab
      have hxy : x = y := by
        rcases hpa with hlt | ⟨heq, -⟩
        · rcases hab with hgt | ⟨heq, -⟩
          · exact absurd (UInt8.lt_trans hlt hgt) (UInt8.lt_irrefl x)
          · exact heq.symm
        · exact heq
      subst hxy
      have hpa' : p ≤ a := by
        rcases hpa with hlt | ⟨-, hle⟩
        · exact absurd hlt (UInt8.lt_irrefl x)
        · exact hle
      have hab' : a ≤ p ++ t := by
        rcases hab with hlt | ⟨-, hle⟩
        · exact absurd hlt (UInt8.lt_irrefl x)
        · exact hle
      exact List.cons_prefix_cons.2 ⟨rfl, ih hpa' hab' (List.prefix_append p t)⟩

theorem takeWhile_eq_filter {p : Bytes} {rows : List (Bytes × β)}
    (hsorted : rows.Pairwise fun r s => r.1 ≤ s.1) (hle : ∀ row ∈ rows, p ≤ row.1) :
    (rows.takeWhile fun row => p.isPrefixOf row.1) = rows.filter fun row => p.isPrefixOf row.1 := by
  induction rows with
  | nil => rfl
  | cons row rows ih =>
    obtain ⟨hfirst, hrest⟩ := List.pairwise_cons.1 hsorted
    rw [List.takeWhile_cons, List.filter_cons]
    split
    · rw [ih hrest fun row hrow => hle row (by simp [hrow])]
    · rename_i hnot
      symm
      rw [List.filter_eq_nil_iff]
      intro row' hrow' hprefix
      apply hnot
      rw [List.isPrefixOf_iff_prefix] at hprefix ⊢
      exact prefix_of_between (hle row (by simp)) (hfirst row' hrow') hprefix

/-- On rows in the order of their keys the scan finds exactly those that begin with the prefix. -/
theorem scan_eq_filter (p : Bytes) {rows : List (Bytes × β)}
    (hsorted : rows.Pairwise fun r s => r.1 ≤ s.1) :
    scan p rows = rows.filter fun row => p.isPrefixOf row.1 := by
  unfold scan
  induction rows with
  | nil => rfl
  | cons row rows ih =>
    obtain ⟨hfirst, hrest⟩ := List.pairwise_cons.1 hsorted
    by_cases hlt : row.1 < p
    · have hnot : p.isPrefixOf row.1 = false := by
        rw [Bool.eq_false_iff]
        intro hprefix
        exact List.not_lt.2 (List.isPrefixOf_iff_prefix.1 hprefix).le hlt
      rw [List.dropWhile_cons_of_pos (by simpa using hlt), ih hrest,
        List.filter_cons_of_neg (by simp [hnot])]
    · rw [List.dropWhile_cons_of_neg (by simpa using hlt)]
      apply takeWhile_eq_filter hsorted
      intro row' hrow'
      rcases List.mem_cons.1 hrow' with rfl | hrow'
      · exact List.not_lt.1 hlt
      · exact List.le_trans (List.not_lt.1 hlt) (hfirst row' hrow')

end PrefixScan
