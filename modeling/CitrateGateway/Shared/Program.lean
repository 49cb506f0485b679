import Mathlib.Data.List.Basic

/-!
# Programs over an effect signature

A program performs operations and goes on with their answers. `Prog.Meets` is the
rely-guarantee judgement for one program: as long as every answer it receives satisfies
the rely, every operation it performs satisfies the guarantee at the history of the
program so far, and the result satisfies the postcondition.

Histories are newest first.
-/

namespace Effects
set_option autoImplicit false

/-- An effect signature: operations and the type of the answer to each of them. -/
structure Sig where
  Op : Type
  Ans : Op → Type

/-- An operation together with the answer it received. -/
abbrev Sig.Event (E : Sig) : Type := (o : E.Op) × E.Ans o

inductive Prog (E : Sig) (α : Type) : Type where
  | ret (a : α)
  | op (o : E.Op) (k : E.Ans o → Prog E α)

namespace Prog
variable {E : Sig} {α β γ : Type}

def bind : Prog E α → (α → Prog E β) → Prog E β
  | ret a, f => f a
  | op o k, f => op o fun a => (k a).bind f

instance : Monad (Prog E) where
  pure := ret
  bind := bind

def perform (o : E.Op) : Prog E (E.Ans o) := op o ret

theorem pure_def (a : α) : (pure a : Prog E α) = ret a := rfl

@[simp] theorem ret_bind (a : α) (f : α → Prog E β) : (ret a >>= f) = f a := rfl

@[simp] theorem op_bind (o : E.Op) (k : E.Ans o → Prog E α) (f : α → Prog E β) :
    (op o k >>= f) = op o fun a => k a >>= f := rfl

theorem perform_bind (o : E.Op) (f : E.Ans o → Prog E β) :
    (perform o >>= f) = op o f := rfl

@[simp] theorem bind_ret (p : Prog E α) : (p >>= ret) = p := by
  induction p with
  | ret a => rfl
  | op o k ih => simp only [op_bind, ih]

theorem bind_assoc (p : Prog E α) (f : α → Prog E β) (g : β → Prog E γ) :
    (p >>= f >>= g) = (p >>= fun a => f a >>= g) := by
  induction p with
  | ret a => rfl
  | op o k ih => simp only [op_bind, ih]

/-- The value of a finished program. -/
def result? : Prog E α → Option α
  | ret a => some a
  | op _ _ => none

@[simp] theorem result?_ret (a : α) : (ret a : Prog E α).result? = some a := rfl

@[simp] theorem result?_op (o : E.Op) (k : E.Ans o → Prog E α) :
    (op o k).result? = none := rfl

theorem result?_eq_some {p : Prog E α} {a : α} : p.result? = some a ↔ p = ret a := by
  cases p with
  | ret b => simp
  | op o k => simp

section Judgement
variable (rely : E.Event → Prop) (guar : List E.Event → E.Event → Prop)

/-- The rely-guarantee judgement; `h` is what the program has done so far. -/
def Meets (post : List E.Event → α → Prop) : Prog E α → List E.Event → Prop
  | ret a, h => post h a
  | op o k, h => ∀ a, rely ⟨o, a⟩ → guar h ⟨o, a⟩ ∧ (k a).Meets post (⟨o, a⟩ :: h)

variable {rely guar} {post : List E.Event → α → Prop}

@[simp] theorem meets_ret {a : α} {h : List E.Event} :
    (ret a).Meets rely guar post h ↔ post h a := Iff.rfl

@[simp] theorem meets_pure {a : α} {h : List E.Event} :
    (pure a : Prog E α).Meets rely guar post h ↔ post h a := Iff.rfl

theorem meets_op {o : E.Op} {k : E.Ans o → Prog E α} {h : List E.Event} :
    (op o k).Meets rely guar post h ↔
      ∀ a, rely ⟨o, a⟩ → guar h ⟨o, a⟩ ∧ (k a).Meets rely guar post (⟨o, a⟩ :: h) := Iff.rfl

theorem meets_perform_bind {o : E.Op} {k : E.Ans o → Prog E α} {h : List E.Event} :
    (perform o >>= k).Meets rely guar post h ↔
      ∀ a, rely ⟨o, a⟩ → guar h ⟨o, a⟩ ∧ (k a).Meets rely guar post (⟨o, a⟩ :: h) := Iff.rfl

theorem meets_perform {o : E.Op} {post : List E.Event → E.Ans o → Prop} {h : List E.Event} :
    (perform o).Meets rely guar post h ↔
      ∀ a, rely ⟨o, a⟩ → guar h ⟨o, a⟩ ∧ post (⟨o, a⟩ :: h) a := Iff.rfl

theorem meets_bind {p : Prog E β} {f : β → Prog E α} {h : List E.Event} :
    (p >>= f).Meets rely guar post h ↔
      p.Meets rely guar (fun h' b => (f b).Meets rely guar post h') h := by
  induction p generalizing h with
  | ret a => rfl
  | op o k ih =>
    simp only [op_bind, meets_op, ih]

theorem Meets.mono {post' : List E.Event → α → Prop} {p : Prog E α} {h : List E.Event}
    (hp : p.Meets rely guar post h) (hpost : ∀ h a, post h a → post' h a) :
    p.Meets rely guar post' h := by
  induction p generalizing h with
  | ret a => exact hpost h a hp
  | op o k ih =>
    intro a ha
    exact ⟨(hp a ha).1, ih a (hp a ha).2⟩

theorem Meets.mono_guar {guar' : List E.Event → E.Event → Prop} {p : Prog E α}
    {h : List E.Event} (hp : p.Meets rely guar post h)
    (hguar : ∀ h e, rely e → guar h e → guar' h e) : p.Meets rely guar' post h := by
  induction p generalizing h with
  | ret a => exact hp
  | op o k ih =>
    intro a ha
    exact ⟨hguar h ⟨o, a⟩ ha (hp a ha).1, ih a (hp a ha).2⟩

theorem Meets.mono_rely {rely' : E.Event → Prop} {p : Prog E α} {h : List E.Event}
    (hp : p.Meets rely guar post h) (hrely : ∀ e, rely' e → rely e) :
    p.Meets rely' guar post h := by
  induction p generalizing h with
  | ret a => exact hp
  | op o k ih =>
    intro a ha
    obtain ⟨hg, hk⟩ := hp a (hrely _ ha)
    exact ⟨hg, ih a hk⟩

theorem Meets.and {guar'  : List E.Event → E.Event → Prop} {post' : List E.Event → α → Prop}
    {p : Prog E α} {h : List E.Event} (hp : p.Meets rely guar post h)
    (hp' : p.Meets rely guar' post' h) :
    p.Meets rely (fun h e => guar h e ∧ guar' h e) (fun h a => post h a ∧ post' h a) h := by
  induction p generalizing h with
  | ret a => exact ⟨hp, hp'⟩
  | op o k ih =>
    intro a ha
    exact ⟨⟨(hp a ha).1, (hp' a ha).1⟩, ih a (hp a ha).2 (hp' a ha).2⟩

/-- A program only adds to its history, and each addition met the guarantee. -/
theorem Meets.adds {Q : E.Event → Prop} {p : Prog E α} {h : List E.Event}
    (hp : p.Meets rely guar post h) (hguar : ∀ h e, guar h e → Q e) :
    p.Meets rely guar (fun h' a => post h' a ∧ ∃ new, h' = new ++ h ∧ ∀ e ∈ new, Q e) h := by
  induction p generalizing h with
  | ret a => exact ⟨hp, [], rfl, by simp⟩
  | op o k ih =>
    intro a ha
    obtain ⟨hg, hk⟩ := hp a ha
    refine ⟨hg, (ih a hk).mono ?_⟩
    rintro h' b ⟨hpost, new, rfl, hnew⟩
    refine ⟨hpost, new ++ [⟨o, a⟩], by simp, fun e he => ?_⟩
    rcases List.mem_append.1 he with he | he
    · exact hnew e he
    · rw [List.mem_singleton.1 he]
      exact hguar _ _ hg

theorem meets_true (p : Prog E α) (h : List E.Event) :
    p.Meets rely (fun _ _ => True) (fun _ _ => True) h := by
  induction p generalizing h with
  | ret a => trivial
  | op o k ih => exact fun a _ => ⟨trivial, ih a _⟩

/-- What a program has done stays done. -/
theorem meets_mem (p : Prog E α) {e : E.Event} {h : List E.Event} (hmem : e ∈ h) :
    p.Meets rely (fun h _ => e ∈ h) (fun h _ => e ∈ h) h := by
  induction p generalizing h with
  | ret a => exact hmem
  | op o k ih => exact fun a _ => ⟨hmem, ih a (List.mem_cons_of_mem _ hmem)⟩

/-- The sequencing rule: use the specification of `p`, then go on from each of its results. -/
theorem Meets.bind {post₁ : List E.Event → β → Prop} {p : Prog E β} {f : β → Prog E α}
    {h : List E.Event} (hp : p.Meets rely guar post₁ h)
    (hf : ∀ h' b, post₁ h' b → (f b).Meets rely guar post h') :
    (p >>= f).Meets rely guar post h :=
  meets_bind.2 (hp.mono hf)

end Judgement

section Results
variable (rely : E.Event → Prop)

/-- A value the program can end with, the answers being among those of the rely. -/
inductive Returns : Prog E α → α → Prop
  | ret (a : α) : Returns (ret a) a
  | op (o : E.Op) (k : E.Ans o → Prog E α) (x : E.Ans o) (a : α) (hx : rely ⟨o, x⟩)
      (h : Returns (k x) a) : Returns (op o k) a

variable {rely}

theorem Returns.of_meets {guar : List E.Event → E.Event → Prop}
    {post : List E.Event → α → Prop} {p : Prog E α} {a : α} (h : p.Returns rely a)
    {past : List E.Event} (hp : p.Meets rely guar post past) : ∃ h', post h' a := by
  induction h generalizing past with
  | ret a => exact ⟨past, hp⟩
  | op o k x a hx _ ih => exact ih (hp x hx).2

theorem exists_returns (hrely : ∀ o, ∃ x, rely ⟨o, x⟩) (p : Prog E α) : ∃ a, p.Returns rely a := by
  induction p with
  | ret a => exact ⟨a, .ret a⟩
  | op o k ih =>
    obtain ⟨x, hx⟩ := hrely o
    obtain ⟨a, ha⟩ := ih x
    exact ⟨a, .op o k x a hx ha⟩

end Results
section Runs

/-- The program has performed these operations, oldest first, and the last one is what is left
of it. -/
inductive Reaches : Prog E α → List E.Event → Prog E α → Prop
  | refl (p : Prog E α) : Reaches p [] p
  | op (o : E.Op) (k : E.Ans o → Prog E α) (x : E.Ans o) (events : List E.Event) (q : Prog E α)
      (h : Reaches (k x) events q) : Reaches (op o k) (⟨o, x⟩ :: events) q

theorem reaches_ret_iff {a : α} {events : List E.Event} {q : Prog E α} :
    (ret a).Reaches events q ↔ events = [] ∧ q = ret a := by
  constructor
  · intro h
    cases h
    exact ⟨rfl, rfl⟩
  · rintro ⟨rfl, rfl⟩
    exact .refl _

theorem reaches_op_iff {o : E.Op} {k : E.Ans o → Prog E α} {events : List E.Event}
    {q : Prog E α} :
    (op o k).Reaches events q ↔ (events = [] ∧ q = op o k) ∨
      ∃ x rest, events = ⟨o, x⟩ :: rest ∧ (k x).Reaches rest q := by
  constructor
  · intro h
    cases h with
    | refl => exact .inl ⟨rfl, rfl⟩
    | op _ _ x rest _ h => exact .inr ⟨x, rest, rfl, h⟩
  · rintro (⟨rfl, rfl⟩ | ⟨x, rest, rfl, h⟩)
    · exact .refl _
    · exact .op o k x rest q h

theorem reaches_perform_bind_iff {o : E.Op} {k : E.Ans o → Prog E α} {events : List E.Event}
    {q : Prog E α} :
    (perform o >>= k).Reaches events q ↔ (events = [] ∧ q = (perform o >>= k)) ∨
      ∃ x rest, events = ⟨o, x⟩ :: rest ∧ (k x).Reaches rest q :=
  reaches_op_iff

end Runs
end Prog
end Effects
