import CitrateGateway.Shared.System

/-!
# Programs that share a state

The judgement of `Prog.Meets` with the shared state in it. Between two operations of a program
the others may move the state along the rely; every operation can be performed, and finds and
leaves a state that satisfies the invariant. In a system whose tasks respect the relies of each other, programs that
are safe by themselves are safe side by side.
-/

namespace Effects
set_option autoImplicit false

/-- What operations do to a shared state, what others may do to it, and what all keep. -/
structure Setting (E : Sig) (σ I : Type) where
  handle : σ → (o : E.Op) → I → Option (E.Ans o × σ)
  rely : σ → σ → Prop
  inv : σ → Prop

namespace Prog
variable {E : Sig} {σ I α β : Type}

section Safe
variable (R : Setting E σ I) (guar : List E.Event → E.Event → Prop)

/-- The judgement; `h` is what the program has done so far, `s` the state when it last moved. -/
def Safe (post : List E.Event → σ → α → Prop) : Prog E α → List E.Event → σ → Prop
  | ret a, h, s => post h s a
  | op o k, h, s => ∀ s₁, R.rely s s₁ → R.inv s₁ → ∀ c, ∃ x s₂, R.handle s₁ o c = some (x, s₂) ∧
      guar h ⟨o, x⟩ ∧ R.inv s₂ ∧ (k x).Safe post (⟨o, x⟩ :: h) s₂

variable {R guar} {post : List E.Event → σ → α → Prop} {h : List E.Event} {s : σ}

@[simp] theorem safe_ret {a : α} : (ret a).Safe R guar post h s ↔ post h s a := Iff.rfl

theorem safe_op {o : E.Op} {k : E.Ans o → Prog E α} :
    (op o k).Safe R guar post h s ↔
      ∀ s₁, R.rely s s₁ → R.inv s₁ → ∀ c, ∃ x s₂, R.handle s₁ o c = some (x, s₂) ∧
        guar h ⟨o, x⟩ ∧ R.inv s₂ ∧ (k x).Safe R guar post (⟨o, x⟩ :: h) s₂ := Iff.rfl

theorem safe_perform_bind {o : E.Op} {k : E.Ans o → Prog E α} :
    (perform o >>= k).Safe R guar post h s ↔ (op o k).Safe R guar post h s := Iff.rfl

/-- An operation that can be performed, and after which the program is safe. -/
theorem Safe.op {o : E.Op} {k : E.Ans o → Prog E α}
    (hk : ∀ s₁, R.rely s s₁ → R.inv s₁ → (∀ c, (R.handle s₁ o c).isSome) ∧
      ∀ c x s₂, R.handle s₁ o c = some (x, s₂) →
        guar h ⟨o, x⟩ ∧ R.inv s₂ ∧ (k x).Safe R guar post (⟨o, x⟩ :: h) s₂) :
    (op o k).Safe R guar post h s := by
  intro s₁ hrely hinv c
  obtain ⟨hsome, hstep⟩ := hk s₁ hrely hinv
  obtain ⟨⟨x, s₂⟩, hx⟩ := Option.isSome_iff_exists.1 (hsome c)
  exact ⟨x, s₂, hx, hstep c x s₂ hx⟩

theorem Safe.step {o : E.Op} {k : E.Ans o → Prog E α} (hp : (Prog.op o k).Safe R guar post h s)
    {s₁ s₂ : σ} {c : I} {x : E.Ans o} (hrely : R.rely s s₁) (hinv : R.inv s₁)
    (hstep : R.handle s₁ o c = some (x, s₂)) :
    guar h ⟨o, x⟩ ∧ R.inv s₂ ∧ (k x).Safe R guar post (⟨o, x⟩ :: h) s₂ := by
  obtain ⟨x', s₂', hstep', hrest⟩ := hp s₁ hrely hinv c
  rw [hstep] at hstep'
  cases hstep'
  exact hrest

theorem safe_bind {p : Prog E β} {f : β → Prog E α} :
    (p >>= f).Safe R guar post h s ↔
      p.Safe R guar (fun h' s' b => (f b).Safe R guar post h' s') h s := by
  induction p generalizing h s with
  | ret a => rfl
  | op o k ih => simp only [op_bind, safe_op, ih]

theorem Safe.mono {post' : List E.Event → σ → α → Prop} {p : Prog E α}
    (hp : p.Safe R guar post h s) (hpost : ∀ h s a, post h s a → post' h s a) :
    p.Safe R guar post' h s := by
  induction p generalizing h s with
  | ret a => exact hpost h s a hp
  | op o k ih =>
    intro s₁ hrely hinv c
    obtain ⟨x, s₂, hstep, hguar, hinv₂, hk⟩ := hp s₁ hrely hinv c
    exact ⟨x, s₂, hstep, hguar, hinv₂, ih x hk⟩

theorem Safe.mono_guar {guar' : List E.Event → E.Event → Prop} {p : Prog E α}
    (hp : p.Safe R guar post h s) (hguar : ∀ h e, guar h e → guar' h e) :
    p.Safe R guar' post h s := by
  induction p generalizing h s with
  | ret a => exact hp
  | op o k ih =>
    intro s₁ hrely hinv c
    obtain ⟨x, s₂, hstep, hg, hinv₂, hk⟩ := hp s₁ hrely hinv c
    exact ⟨x, s₂, hstep, hguar _ _ hg, hinv₂, ih x hk⟩

/-- The sequencing rule. -/
theorem Safe.bind {mid : List E.Event → σ → β → Prop} {p : Prog E β} {f : β → Prog E α}
    (hp : p.Safe R guar mid h s)
    (hf : ∀ h' s' b, mid h' s' b → (f b).Safe R guar post h' s') :
    (p >>= f).Safe R guar post h s :=
  safe_bind.2 (hp.mono hf)

/-- A program that goes on later relies on less. -/
theorem Safe.later {p : Prog E α} {s' : σ} (htrans : ∀ a b c, R.rely a b → R.rely b c → R.rely a c)
    (hp : p.Safe R guar post h s) (hs : R.rely s s') (hpost : ∀ a, post h s a → post h s' a) :
    p.Safe R guar post h s' := by
  cases p with
  | ret a => exact hpost a hp
  | op o k => exact fun s₁ hrely => hp s₁ (htrans s s' s₁ hs hrely)

end Safe

section Alone

/-- A program run by itself: the state it leaves and its result. -/
inductive Exec (handle : σ → (o : E.Op) → I → Option (E.Ans o × σ)) :
    Prog E α → σ → α → σ → Prop
  | ret (a : α) (s : σ) : Exec handle (ret a) s a s
  | op (o : E.Op) (k : E.Ans o → Prog E α) (c : I) (x : E.Ans o) (a : α) (s s₁ s' : σ)
      (hstep : handle s o c = some (x, s₁)) (hrest : Exec handle (k x) s₁ a s') :
      Exec handle (op o k) s a s'

/-- A program run by itself for a while: what is left of it and the state it has come to. -/
inductive Steps (handle : σ → (o : E.Op) → I → Option (E.Ans o × σ)) :
    Prog E α → σ → Prog E α → σ → Prop
  | refl (p : Prog E α) (s : σ) : Steps handle p s p s
  | op (o : E.Op) (k : E.Ans o → Prog E α) (c : I) (x : E.Ans o) (p : Prog E α) (s s₁ s' : σ)
      (hstep : handle s o c = some (x, s₁)) (hrest : Steps handle (k x) s₁ p s') :
      Steps handle (op o k) s p s'

section Inversion
variable {handle : σ → (o : E.Op) → I → Option (E.Ans o × σ)} {s s' : σ} {a b : α}

theorem exec_ret_iff : (ret a : Prog E α).Exec handle s b s' ↔ b = a ∧ s' = s := by
  constructor
  · intro h
    cases h
    exact ⟨rfl, rfl⟩
  · rintro ⟨rfl, rfl⟩
    exact .ret _ _

theorem exec_op_iff {o : E.Op} {k : E.Ans o → Prog E α} :
    (op o k).Exec handle s a s' ↔
      ∃ c x s₁, handle s o c = some (x, s₁) ∧ (k x).Exec handle s₁ a s' := by
  constructor
  · intro h
    cases h with
    | op _ _ c x _ _ s₁ _ hstep hrest => exact ⟨c, x, s₁, hstep, hrest⟩
  · rintro ⟨c, x, s₁, hstep, hrest⟩
    exact .op o k c x a s s₁ s' hstep hrest

theorem exec_perform_bind_iff {o : E.Op} {k : E.Ans o → Prog E α} :
    (perform o >>= k).Exec handle s a s' ↔
      ∃ c x s₁, handle s o c = some (x, s₁) ∧ (k x).Exec handle s₁ a s' :=
  exec_op_iff

theorem Exec.bind {p : Prog E β} {f : β → Prog E α} {s₁ : σ} {b : β} (h : p.Exec handle s b s₁)
    (hrest : (f b).Exec handle s₁ a s') : (p >>= f).Exec handle s a s' := by
  induction h with
  | ret b s => exact hrest
  | op o k c x b s s₂ s₁ hstep h ih => exact .op o _ c x a s s₂ s' hstep (ih hrest)

/-- A program that runs in one environment runs in any other that answers so. -/
theorem Exec.mono {I' : Type} {handle' : σ → (o : E.Op) → I' → Option (E.Ans o × σ)}
    {p : Prog E α} (h : p.Exec handle s a s')
    (hhandle : ∀ s o c r, handle s o c = some r → ∃ c', handle' s o c' = some r) :
    p.Exec handle' s a s' := by
  induction h with
  | ret a s => exact .ret a s
  | op o k c x a s s₁ s' hstep hrest ih =>
    obtain ⟨c', hstep'⟩ := hhandle s o c _ hstep
    exact .op o k c' x a s s₁ s' hstep' ih

theorem Steps.exec {p p' : Prog E α} (h : p.Steps handle s p' s') (hp' : p' = ret a) :
    p.Exec handle s a s' := by
  induction h with
  | refl =>
    subst hp'
    exact .ret _ _
  | op o k c x p s s₁ s' hstep hrest ih => exact .op o k c x a s s₁ s' hstep (ih hp')

/-- At most so many operations, the environment deciding the same each time. -/
def advance? (handle : σ → (o : E.Op) → I → Option (E.Ans o × σ)) (c : I) :
    Nat → Prog E α → σ → Option (Prog E α × σ)
  | 0, p, s => some (p, s)
  | _ + 1, ret a, s => some (ret a, s)
  | n + 1, op o k, s =>
    match handle s o c with
    | none => none
    | some (x, s₁) => advance? handle c n (k x) s₁

theorem steps_of_advance {c : I} {n : Nat} {p p' : Prog E α}
    (h : advance? handle c n p s = some (p', s')) : p.Steps handle s p' s' := by
  induction n generalizing p s with
  | zero =>
    cases h
    exact .refl _ _
  | succ n ih =>
    cases p with
    | ret a =>
      cases h
      exact .refl _ _
    | op o k =>
      simp only [advance?] at h
      split at h
      · cases h
      · rename_i x s₁ hstep
        exact .op o k c x p' s s₁ s' hstep (ih h)

end Inversion

variable {R : Setting E σ I} {guar : List E.Event → E.Event → Prop}
variable {post : List E.Event → σ → α → Prop}

/-- A safe program keeps the invariant at every moment. -/
theorem Steps.inv_of_safe (hrefl : ∀ s, R.rely s s) {p p' : Prog E α} {s s' : σ}
    (hsteps : p.Steps R.handle s p' s') {h : List E.Event} (hinv : R.inv s)
    (hp : p.Safe R guar post h s) : R.inv s' := by
  induction hsteps generalizing h with
  | refl p s => exact hinv
  | op o k c x p s s₁ s' hstep hrest ih =>
    obtain ⟨-, hinv₁, hk⟩ := hp.step (hrefl s) hinv hstep
    exact ih hinv₁ hk

theorem Exec.post_of_safe (hrefl : ∀ s, R.rely s s) {p : Prog E α} {s s' : σ} {a : α}
    (hexec : p.Exec R.handle s a s') {h : List E.Event} (hinv : R.inv s)
    (hp : p.Safe R guar post h s) : R.inv s' ∧ ∃ h', post h' s' a := by
  induction hexec generalizing h with
  | ret a s => exact ⟨hinv, h, hp⟩
  | op o k c x a s s₁ s' hstep hrest ih =>
    obtain ⟨-, hinv₁, hk⟩ := hp.step (hrefl s) hinv hstep
    exact ih hinv₁ hk

/-- A safe program returns, whatever the environment decides. -/
theorem Safe.exec (hrefl : ∀ s, R.rely s s) (c : I) {p : Prog E α} {h : List E.Event} {s : σ}
    (hinv : R.inv s) (hp : p.Safe R guar post h s) : ∃ a s', p.Exec R.handle s a s' := by
  induction p generalizing h s with
  | ret a => exact ⟨a, s, .ret a s⟩
  | op o k ih =>
    obtain ⟨x, s₁, hstep, -, hinv₁, hk⟩ := hp s (hrefl s) hinv c
    obtain ⟨a, s', hexec⟩ := ih x hinv₁ hk
    exact ⟨a, s', .op o k c x a s s₁ s' hstep hexec⟩

end Alone
end Prog

namespace System
variable {E : Sig} {S : System E}

section Tasks
variable {s s' : S.State} {act : S.Action} {t : Nat} {j : S.Job}

/-- A dropped task stays dropped. -/
theorem dropped_of_transition (hT : Transition s act s') (ht : s.tasks[t]? = some ⟨j, none⟩) :
    s'.tasks[t]? = some ⟨j, none⟩ := by
  have hlt := (List.getElem?_eq_some_iff.1 ht).1
  have hne : ∀ u j' p, s.tasks[u]? = some ⟨j', some p⟩ → u ≠ t := by
    rintro u j' p hu rfl
    rw [ht] at hu
    cases hu
  cases hT with
  | start j' sh hstart =>
    simpa [State.begin, List.getElem?_append_left hlt] using ht
  | exec u c j' o k a sh htask hhandle =>
    simp only [State.advance]
    rwa [List.getElem?_append_left (by simpa using hlt), List.getElem?_set_ne (hne u _ _ htask)]
  | drop u j' o k htask =>
    simp only [State.dropped]
    rwa [List.getElem?_set_ne (hne u _ _ htask)]
  | world w sh hworld =>
    simp only [State.turned]
    split
    · rw [List.getElem?_map, ht]
      rfl
    · exact ht

theorem trace_of_dropped (hT : Transition s act s') (ht : s.tasks[t]? = some ⟨j, none⟩) :
    trace s'.log t = trace s.log t := by
  cases hT with
  | exec u c j' o k a sh htask hhandle =>
    refine trace_advance_ne s ?_ _ _ _ _ _
    rintro rfl
    rw [ht] at htask
    cases htask
  | _ => rfl

/-- A task that a step brought is at the beginning of its job. -/
theorem fresh_of_transition {q : Option (Prog E S.Res)} (hT : Transition s act s')
    (hlen : s.tasks.length ≤ t) (ht : s'.tasks[t]? = some ⟨j, q⟩) :
    q = some (S.prog j) ∧ trace s'.log t = trace s.log t := by
  cases hT with
  | start j' sh hstart =>
    simp only [State.begin, List.getElem?_append_right hlen] at ht
    cases List.mem_singleton.1 (List.mem_of_getElem? ht)
    exact ⟨rfl, rfl⟩
  | exec u c j' o k a sh htask hhandle =>
    have hu := (List.getElem?_eq_some_iff.1 htask).1
    simp only [State.advance] at ht
    rw [List.getElem?_append_right (by simpa using hlen)] at ht
    obtain ⟨j₁, -, hj₁⟩ := List.mem_map.1 (List.mem_of_getElem? ht)
    cases hj₁
    exact ⟨rfl, trace_advance_ne s (by omega) _ _ _ _ _⟩
  | drop u j' o k htask =>
    have hlt := (List.getElem?_eq_some_iff.1 ht).1
    simp only [State.dropped, List.length_set] at hlt
    omega
  | world w sh hworld =>
    have hlt := (List.getElem?_eq_some_iff.1 ht).1
    simp only [State.turned] at hlt
    split at hlt
    · rw [List.length_map] at hlt
      omega
    · omega

end Tasks

/-- Relies that the tasks of a system respect, and an invariant that what is no operation
keeps. -/
structure Sharing (S : System E) where
  rely : Nat → S.Shared → S.Shared → Prop
  inv : S.Shared → Prop
  refl : ∀ t sh, rely t sh sh
  trans : ∀ t sh₁ sh₂ sh₃, rely t sh₁ sh₂ → rely t sh₂ sh₃ → rely t sh₁ sh₃
  handle : ∀ t u sh o c a sh', t ≠ u → S.handle sh t o c = some (a, sh') → rely u sh sh'
  leave : ∀ t u sh, t ≠ u → rely u sh (S.leave sh t)
  leave_inv : ∀ t sh, inv sh → inv (S.leave sh t)
  start : ∀ t sh j sh', S.onStart sh j = some sh' → rely t sh sh'
  start_inv : ∀ sh j sh', inv sh → S.onStart sh j = some sh' → inv sh'
  world : ∀ t sh w sh', S.world sh w = some sh' → S.halts w = false → rely t sh sh'
  world_inv : ∀ sh w sh', inv sh → S.world sh w = some sh' → inv sh'

def Sharing.setting (D : Sharing S) (t : Nat) : Setting E S.Shared S.Input where
  handle := fun sh o c => S.handle sh t o c
  rely := D.rely t
  inv := D.inv

section Sharing
variable (D : Sharing S)

/-- A program that was safe when it last moved, in a state that the others have moved since. -/
def Sharing.SafeAt (guar : List E.Event → E.Event → Prop)
    (post : List E.Event → S.Shared → S.Res → Prop) (t : Nat) (p : Prog E S.Res)
    (h : List E.Event) (sh : S.Shared) : Prop :=
  ∃ sh₁, (p.result? = none → D.rely t sh₁ sh) ∧ p.Safe (D.setting t) guar post h sh₁

variable {D} {guar' : List E.Event → E.Event → Prop}
variable {post' : List E.Event → S.Shared → S.Res → Prop}

theorem Sharing.SafeAt.moved {t : Nat} {p : Prog E S.Res} {h : List E.Event} {sh sh' : S.Shared}
    (hp : D.SafeAt guar' post' t p h sh) (hrely : D.rely t sh sh') :
    D.SafeAt guar' post' t p h sh' := by
  obtain ⟨sh₁, hsh₁, hsafe⟩ := hp
  exact ⟨sh₁, fun hp => D.trans t _ _ _ (hsh₁ hp) hrely, hsafe⟩

/-- The operation that a safe task is about to perform. -/
theorem Sharing.SafeAt.op {t : Nat} {o : E.Op} {k : E.Ans o → Prog E S.Res} {h : List E.Event}
    {sh sh' : S.Shared} {c : S.Input} {a : E.Ans o}
    (hp : D.SafeAt guar' post' t (.op o k) h sh) (hinv : D.inv sh)
    (hstep : S.handle sh t o c = some (a, sh')) :
    guar' h ⟨o, a⟩ ∧ D.inv sh' ∧ (k a).Safe (D.setting t) guar' post' (⟨o, a⟩ :: h) sh' := by
  obtain ⟨sh₁, hsh₁, hsafe⟩ := hp
  exact hsafe.step (hsh₁ rfl) hinv hstep

theorem Sharing.SafeAt.enabled {t : Nat} {o : E.Op} {k : E.Ans o → Prog E S.Res}
    {h : List E.Event} {sh : S.Shared} (hp : D.SafeAt guar' post' t (.op o k) h sh)
    (hinv : D.inv sh) (c : S.Input) : ∃ a sh', S.handle sh t o c = some (a, sh') := by
  obtain ⟨sh₁, hsh₁, hsafe⟩ := hp
  obtain ⟨a, sh', hstep, -⟩ := hsafe sh (hsh₁ rfl) hinv c
  exact ⟨a, sh', hstep⟩

theorem Sharing.SafeAt.of_safe {t : Nat} {p : Prog E S.Res} {h : List E.Event} {sh : S.Shared}
    (hp : p.Safe (D.setting t) guar' post' h sh) : D.SafeAt guar' post' t p h sh :=
  ⟨sh, fun _ => D.refl t sh, hp⟩

theorem Sharing.SafeAt.ret {t : Nat} {a : S.Res} {h : List E.Event} {sh : S.Shared}
    (hp : D.SafeAt guar' post' t (.ret a) h sh) : ∃ sh₁, post' h sh₁ a := by
  obtain ⟨sh₁, -, hsafe⟩ := hp
  exact ⟨sh₁, hsafe⟩

theorem settle_cases (S : System E) (t : Nat) (p : Prog E S.Res) (sh : S.Shared) :
    S.settle t p sh = sh ∨ (∃ a, p = .ret a) ∧ S.settle t p sh = S.leave sh t := by
  cases p with
  | ret a => exact Or.inr ⟨⟨a, rfl⟩, rfl⟩
  | op o k => exact Or.inl rfl

theorem Sharing.rely_settle {t u : Nat} (hne : t ≠ u) (p : Prog E S.Res) (sh : S.Shared) :
    D.rely u sh (S.settle t p sh) := by
  rcases settle_cases S t p sh with h | ⟨-, h⟩
  · rw [h]
    exact D.refl u sh
  · rw [h]
    exact D.leave t u sh hne

theorem Sharing.inv_settle {t : Nat} {p : Prog E S.Res} {sh : S.Shared} (hinv : D.inv sh) :
    D.inv (S.settle t p sh) := by
  rcases settle_cases S t p sh with h | ⟨-, h⟩
  · rwa [h]
  · rw [h]
    exact D.leave_inv t sh hinv

/-- Whatever a task does moves the state along the relies of the others. -/
theorem Sharing.rely_advance {s : S.State} {t u : Nat} {j : S.Job} {o : E.Op}
    {k : E.Ans o → Prog E S.Res} {a : E.Ans o} {sh : S.Shared} {c : S.Input} (hne : t ≠ u)
    (hstep : S.handle s.shared t o c = some (a, sh)) :
    D.rely u s.shared (s.advance t j o k a sh).shared :=
  D.trans u _ _ _ (D.handle t u _ o c a sh hne hstep) (D.rely_settle hne _ _)

/-- What one step makes of a task that was safe. -/
theorem Sharing.step {s s' : S.State} {act : S.Action} (hT : Transition s act s')
    (hinv : D.inv s.shared) {t : Nat} {j : S.Job} {p : Prog E S.Res} {q : Option (Prog E S.Res)}
    (ht : s.tasks[t]? = some ⟨j, some p⟩)
    (hp : D.SafeAt guar' post' t p (trace s.log t) s.shared) (ht' : s'.tasks[t]? = some ⟨j, q⟩) :
    (trace s'.log t = trace s.log t ∨
      ∃ e, trace s'.log t = e :: trace s.log t ∧ guar' (trace s.log t) e) ∧
      ∀ p', q = some p' → D.SafeAt guar' post' t p' (trace s'.log t) s'.shared := by
  have hlt := (List.getElem?_eq_some_iff.1 ht).1
  cases hT with
  | start j' sh hstart =>
    simp only [State.begin, List.getElem?_append_left hlt, ht, Option.some.injEq,
      Task.mk.injEq, true_and] at ht'
    subst ht'
    refine ⟨Or.inl rfl, fun p' heq => ?_⟩
    cases heq
    exact hp.moved (D.start t _ j' sh hstart)
  | exec u c j' o k a sh htask hhandle =>
    by_cases hut : u = t
    · subst hut
      rw [ht] at htask
      simp only [Option.some.injEq, Task.mk.injEq] at htask
      obtain ⟨rfl, rfl⟩ := htask
      rw [advance_task hlt] at ht'
      simp only [Option.some.injEq, Task.mk.injEq, true_and] at ht'
      obtain ⟨hguar, -, hk⟩ := hp.op hinv hhandle
      rw [trace_advance_self]
      refine ⟨Or.inr ⟨_, rfl, hguar⟩, fun p' heq => ?_⟩
      rw [← ht'] at heq
      cases heq
      refine ⟨sh, fun hnone => ?_, hk⟩
      cases hka : k a with
      | ret r => rw [hka] at hnone; cases hnone
      | op o' k' =>
        simp only [State.advance, hka, settle]
        exact D.refl u sh
    · rw [trace_advance_ne s (Ne.symm hut)]
      simp only [State.advance] at ht'
      rw [List.getElem?_append_left (by simpa using hlt), List.getElem?_set_ne hut, ht] at ht'
      simp only [Option.some.injEq, Task.mk.injEq, true_and] at ht'
      subst ht'
      refine ⟨Or.inl rfl, fun p' heq => ?_⟩
      cases heq
      exact hp.moved (D.rely_advance hut hhandle)
  | drop u j' o k htask =>
    refine ⟨Or.inl rfl, fun p' heq => ?_⟩
    subst heq
    by_cases hut : u = t
    · subst hut
      simp [State.dropped, List.getElem?_set_self hlt] at ht'
    · simp only [State.dropped, List.getElem?_set_ne hut, ht, Option.some.injEq, Task.mk.injEq,
        true_and] at ht'
      cases ht'
      exact hp.moved (D.leave u t _ hut)
  | world w sh hworld =>
    refine ⟨Or.inl rfl, fun p' heq => ?_⟩
    subst heq
    simp only [State.turned] at ht'
    cases hw : S.halts w with
    | false =>
      rw [hw, if_neg (by simp), ht] at ht'
      simp only [Option.some.injEq, Task.mk.injEq, true_and] at ht'
      cases ht'
      exact hp.moved (D.world t _ w sh hworld hw)
    | true =>
      rw [hw, if_pos rfl, List.getElem?_map, ht, Option.map_some, Option.some.injEq] at ht'
      have hprog := Task.kill_prog (k := ⟨j, some p⟩) (p := p') (by rw [ht'])
      cases hprog
      -- a task that goes on after the world stopped has returned
      cases p with
      | ret a =>
        obtain ⟨sh₁, -, hsafe⟩ := hp
        exact ⟨sh₁, fun hnone => (by cases hnone), hsafe⟩
      | op o k => cases ht'

variable {ok : S.State → S.Action → Prop} {sh₀ : S.Shared} {s : S.State}
variable {guar : S.Job → List E.Event → E.Event → Prop}
variable {post : S.Job → List E.Event → S.Shared → S.Res → Prop}

/-- Every task that has a program left is safe. -/
def Sharing.AllSafe (D : Sharing S) (guar : S.Job → List E.Event → E.Event → Prop)
    (post : S.Job → List E.Event → S.Shared → S.Res → Prop) (s : S.State) : Prop :=
  ∀ t j p, s.tasks[t]? = some ⟨j, some p⟩ →
    D.SafeAt (guar j) (post j) t p (trace s.log t) s.shared

theorem Sharing.inv_step {s s' : S.State} {act : S.Action} (hT : Transition s act s')
    (hinv : D.inv s.shared) (hsafe : D.AllSafe guar post s) : D.inv s'.shared := by
  cases hT with
  | start j sh hstart => exact D.start_inv _ j sh hinv hstart
  | exec t c j o k a sh htask hhandle =>
    exact D.inv_settle ((hsafe t j _ htask).op hinv hhandle).2.1
  | drop t j o k htask => exact D.leave_inv t _ hinv
  | world w sh hworld => exact D.world_inv _ w sh hinv hworld

/-- Jobs that are safe by themselves are safe side by side, and keep the invariant. -/
theorem Reach.safe (D : Sharing S)
    (hjobs : ∀ j t sh, D.inv sh → (S.prog j).Safe (D.setting t) (guar j) (post j) [] sh)
    (hinit : D.inv sh₀) (h : Reach S ok (S.init sh₀) s) :
    D.inv s.shared ∧ D.AllSafe guar post s := by
  induction h with
  | refl => exact ⟨hinit, fun t j p ht => (by simp [init] at ht)⟩
  | @step s s' act hr hok hstep ih =>
    obtain ⟨hinv, hsafe⟩ := ih
    have hT := step_cases hstep
    have hinv' := D.inv_step hT hinv hsafe
    refine ⟨hinv', fun t j p ht => ?_⟩
    by_cases hlt : t < s.tasks.length
    · obtain ⟨⟨j₀, q⟩, ht₀⟩ : ∃ k, s.tasks[t]? = some k := ⟨_, List.getElem?_eq_getElem hlt⟩
      have hj := job_step hstep (job_of_task ht₀)
      rw [job_of_task ht] at hj
      cases hj
      cases q with
      | none =>
        rw [dropped_of_transition hT ht₀] at ht
        cases ht
      | some p₀ => exact (D.step hT hinv ht₀ (hsafe t j p₀ ht₀) ht).2 p rfl
    · obtain ⟨hp, htrace⟩ := fresh_of_transition hT (Nat.not_lt.1 hlt) ht
      cases hp
      rw [htrace, hr.trace_eq_nil (Nat.not_lt.1 hlt)]
      exact .of_safe (hjobs j t _ hinv')

/-- A task that is safe in another sense at some moment is so from then on, and what it performs
from then on meets the other guarantee. -/
theorem Reach.safe_from (D : Sharing S) {s₁ : S.State} {t : Nat} {j : S.Job} {p : Prog E S.Res}
    (h : Reach S ok s₁ s) (hinv : ∀ s', Reach S ok s₁ s' → D.inv s'.shared)
    (ht : s₁.tasks[t]? = some ⟨j, some p⟩)
    (hp : D.SafeAt guar' post' t p (trace s₁.log t) s₁.shared) :
    ∃ q, s.tasks[t]? = some ⟨j, q⟩ ∧
      (∃ new, trace s.log t = new ++ trace s₁.log t ∧ ∀ e ∈ new, ∃ past, guar' past e) ∧
      ∀ p', q = some p' → D.SafeAt guar' post' t p' (trace s.log t) s.shared := by
  induction h with
  | refl =>
    refine ⟨some p, ht, ⟨[], rfl, by simp⟩, fun p' heq => ?_⟩
    cases heq
    exact hp
  | @step s s' act hr hok hstep ih =>
    obtain ⟨q, hq, ⟨new, hnew, hguar⟩, hsafe⟩ := ih
    have hT := step_cases hstep
    obtain ⟨q', hq'⟩ := job_eq_some.1 (job_step hstep (job_of_task hq))
    refine ⟨q', hq', ?_⟩
    cases q with
    | none =>
      have hgone := dropped_of_transition hT hq
      rw [hq'] at hgone
      cases hgone
      have htrace := trace_of_dropped hT hq
      refine ⟨⟨new, htrace.trans hnew, hguar⟩, fun p' heq => (by cases heq)⟩
    | some p₀ =>
      obtain ⟨htrace, hsafe'⟩ := D.step hT (hinv s hr) hq (hsafe p₀ rfl) hq'
      refine ⟨?_, hsafe'⟩
      rcases htrace with htrace | ⟨e, htrace, he⟩
      · exact ⟨new, htrace.trans hnew, hguar⟩
      · refine ⟨e :: new, by rw [htrace, hnew, List.cons_append], fun e' he' => ?_⟩
        rcases List.mem_cons.1 he' with rfl | he'
        · exact ⟨_, he⟩
        · exact hguar e' he'

/-- A safe task can go on to its end, whatever the environment decides. -/
theorem Reach.finishes (D : Sharing S) (c : S.Input) {t : Nat} {j : S.Job} {p : Prog E S.Res}
    (hok : ∀ s, ok s (.exec t c)) (hinv : ∀ s', Reach S ok s s' → D.inv s'.shared)
    (ht : s.tasks[t]? = some ⟨j, some p⟩)
    (hp : D.SafeAt guar' post' t p (trace s.log t) s.shared) :
    ∃ s' r, Reach S ok s s' ∧ s'.tasks[t]? = some ⟨j, some (.ret r)⟩ := by
  induction p generalizing s with
  | ret r => exact ⟨s, r, .refl, ht⟩
  | op o k ih =>
    obtain ⟨a, sh, hstep⟩ := hp.enabled (hinv s .refl) c
    have hT : Transition s (.exec t c) (s.advance t j o k a sh) := .exec t c j o k a sh ht hstep
    have hreach : Reach S ok s (s.advance t j o k a sh) :=
      .step .refl (hok s) (step_of_transition hT)
    have ht' := advance_task (s := s) (j := j) (k := k) (List.getElem?_eq_some_iff.1 ht).1 a sh
    obtain ⟨s', r, hrest, hr⟩ := ih a (fun s' h => hinv s' (hreach.trans h)) ht'
      ((D.step hT (hinv s .refl) ht hp ht').2 _ rfl)
    exact ⟨s', r, hreach.trans hrest, hr⟩

end Sharing
end System
end Effects
