import CitrateGateway.Shared.Program

/-!
# Programs run inside other programs

`Prog.interp` replaces each operation of a program by a program over another signature. A
state is carried along from one operation to the next. A contract of the replaced program
becomes a contract of the whole, through a relation between the two histories.
-/

namespace Effects
set_option autoImplicit false

namespace Prog
variable {E E' : Sig} {σ α : Type}

def interp (f : σ → (o : E.Op) → Prog E' (E.Ans o × σ)) : Prog E α → σ → Prog E' (α × σ)
  | ret a, s => ret (a, s)
  | op o k, s => f s o >>= fun r => (k r.1).interp f r.2

section Meets
variable {f : σ → (o : E.Op) → Prog E' (E.Ans o × σ)}
variable {rely : E.Event → Prop} {guar : List E.Event → E.Event → Prop}
variable {rely' : E'.Event → Prop} {guar' : List E'.Event → E'.Event → Prop}
variable {post : List E.Event → α → Prop}

/-- `related s h h'`: the history `h'` is what the operations of `h` became, and left `s`. -/
theorem Meets.interp {related : σ → List E.Event → List E'.Event → Prop} {p : Prog E α}
    {s : σ} {h : List E.Event} {h' : List E'.Event}
    (hop : ∀ s h h' o, related s h h' → (∀ a, rely ⟨o, a⟩ → guar h ⟨o, a⟩) →
      (f s o).Meets rely' guar'
        (fun h'' r => rely ⟨o, r.1⟩ ∧ related r.2 (⟨o, r.1⟩ :: h) h'') h')
    (hp : p.Meets rely guar post h) (hrel : related s h h') :
    (p.interp f s).Meets rely' guar'
      (fun h'' r => ∃ h₁, related r.2 h₁ h'' ∧ post h₁ r.1) h' := by
  induction p generalizing s h h' with
  | ret a => exact ⟨h, hrel, hp⟩
  | op o k ih =>
    have hguar : ∀ a, rely ⟨o, a⟩ → guar h ⟨o, a⟩ := fun a ha => (hp a ha).1
    refine Meets.bind (hop s h h' o hrel hguar) fun h'' r hr => ?_
    exact ih r.1 (hp r.1 hr.1).2 hr.2

end Meets
end Prog
end Effects
