import CitrateGateway.Shared.System

/-!
# Calls in the order of their effects

Every task takes effect at one of its operations at most. Read in the order of these
operations, the calls form a sequential history that never puts a call before one whose
operations were all over when it began.
-/

namespace Effects.System
set_option autoImplicit false

variable {E : Sig} {α : Type} {f g : Nat → E.Event → Option α} {log : List (Nat × E.Event)}
variable {t u : Nat} {e : E.Event} {a : α}

/-- The operations of `t` were all over before the first one of `u`. -/
def Precedes (log : List (Nat × E.Event)) (t u : Nat) : Prop :=
  ∃ late early, log = late ++ early ∧ (∀ x ∈ late, x.1 ≠ t) ∧ ∀ x ∈ early, x.1 ≠ u

/-- The effects of a log, oldest first. -/
def effectsOf (f : Nat → E.Event → Option α) (log : List (Nat × E.Event)) : List (Nat × α) :=
  (log.filterMap fun x => (f x.1 x.2).map (Prod.mk x.1)).reverse

theorem effectsOf_cons_some (h : f t e = some a) :
    effectsOf f ((t, e) :: log) = effectsOf f log ++ [(t, a)] := by
  simp [effectsOf, h]

theorem effectsOf_cons_none (h : f t e = none) :
    effectsOf f ((t, e) :: log) = effectsOf f log := by
  simp [effectsOf, h]

theorem effectsOf_congr (h : ∀ x ∈ log, f x.1 x.2 = g x.1 x.2) :
    effectsOf f log = effectsOf g log := by
  unfold effectsOf
  congr 1
  refine List.filterMap_congr fun x hx => ?_
  rw [h x hx]

theorem mem_effectsOf : (t, a) ∈ effectsOf f log ↔ ∃ e ∈ trace log t, f t e = some a := by
  simp only [effectsOf, List.mem_reverse, List.mem_filterMap, Option.map_eq_some_iff,
    Prod.mk.injEq, Prod.exists, mem_trace]
  constructor
  · rintro ⟨u, e, hmem, b, hb, rfl, rfl⟩
    exact ⟨e, hmem, hb⟩
  · rintro ⟨e, hmem, he⟩
    exact ⟨t, e, hmem, a, he, rfl, rfl⟩

theorem nodup_effectsOf
    (h : ∀ t, (trace log t).countP (fun e => (f t e).isSome) ≤ 1) :
    ((effectsOf f log).map Prod.fst).Nodup := by
  induction log with
  | nil => simp [effectsOf]
  | cons x log ih =>
    obtain ⟨t, e⟩ := x
    have hrest : ∀ u, (trace log u).countP (fun e => (f u e).isSome) ≤ 1 := by
      intro u
      refine le_trans ?_ (h u)
      by_cases hu : t = u
      · subst hu
        rw [trace_cons_self]
        exact (List.sublist_cons_self _ _).countP_le
      · rw [trace_cons_ne hu]
    cases he : f t e with
    | none =>
      rw [effectsOf_cons_none he]
      exact ih hrest
    | some a =>
      rw [effectsOf_cons_some he, List.map_append]
      refine List.Nodup.append (ih hrest) (List.nodup_singleton _) ?_
      rintro u hmem hu
      obtain rfl := List.mem_singleton.1 hu
      obtain ⟨⟨v, b⟩, hb, rfl⟩ := List.mem_map.1 hmem
      obtain ⟨e', he', hfe⟩ := mem_effectsOf.1 hb
      have hone := h v
      rw [trace_cons_self, List.countP_cons_of_pos (by simp [he])] at hone
      have hpos : 0 < (trace log v).countP fun e => (f v e).isSome :=
        List.countP_pos_iff.2 ⟨e', he', by simp [hfe]⟩
      dsimp only at hone
      omega

/-- The order of the effects keeps to real time. -/
theorem pairwise_effectsOf :
    (effectsOf f log).Pairwise fun x y => ¬ Precedes log y.1 x.1 := by
  induction log with
  | nil => simp [effectsOf]
  | cons x log ih =>
    obtain ⟨t, e⟩ := x
    -- an effect has its operation in the log: the log does not lie before that task
    have hmem : ∀ y ∈ effectsOf f log, ∀ late early, (t, e) :: log = late ++ early →
        (∀ x ∈ early, x.1 ≠ y.1) → ∃ late', late = (t, e) :: late' ∧ log = late' ++ early := by
      rintro ⟨u, b⟩ hy late early hlog hearly
      cases late with
      | nil =>
        obtain ⟨e', he', _⟩ := mem_effectsOf.1 hy
        rw [List.nil_append] at hlog
        subst hlog
        exact absurd rfl (hearly (u, e') (List.mem_cons_of_mem _ (mem_trace.1 he')))
      | cons z late =>
        simp only [List.cons_append, List.cons.injEq] at hlog
        obtain ⟨rfl, hlog⟩ := hlog
        exact ⟨late, rfl, hlog⟩
    have hold : (effectsOf f log).Pairwise fun x y => ¬ Precedes ((t, e) :: log) y.1 x.1 := by
      refine ih.imp_of_mem fun {x y} hx _ hnot => ?_
      rintro ⟨late, early, hlog, hlate, hearly⟩
      obtain ⟨late', rfl, hsplit⟩ := hmem x hx late early hlog hearly
      exact hnot ⟨late', early, hsplit, fun z hz => hlate z (List.mem_cons_of_mem _ hz), hearly⟩
    cases he : f t e with
    | none =>
      rw [effectsOf_cons_none he]
      exact hold
    | some a =>
      rw [effectsOf_cons_some he]
      refine List.pairwise_append.2 ⟨hold, List.pairwise_singleton _ _, ?_⟩
      rintro x hx y hy ⟨late, early, hlog, hlate, hearly⟩
      obtain rfl := List.mem_singleton.1 hy
      obtain ⟨late', rfl, _⟩ := hmem x hx late early hlog hearly
      exact hlate (t, e) List.mem_cons_self rfl

end Effects.System
