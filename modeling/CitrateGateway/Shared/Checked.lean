import CitrateGateway.Shared.Words

/-!
# Checked native arithmetic

Computations over 64-bit sizes in which a sum or a product that does not fit, an index or a range
outside its slice and a narrowing of a word that is too large all abort the program. An error that
the program returns is a value; an abort is not.
-/

namespace Checked
set_option autoImplicit false
open Words

section Primitives

variable {ε α β : Type}

/-- A computation that returns a value or an error, or aborts. -/
abbrev Run (ε α : Type) := ExceptT ε Option α

def abort : Run ε α := ExceptT.mk none

/-- A size, if it is one. -/
def size (n : Nat) : Run ε Nat := if n < 2 ^ 64 then pure n else abort

def add (a b : Nat) : Run ε Nat := size (a + b)

def mul (a b : Nat) : Run ε Nat := size (a * b)

def sub (a b : Nat) : Run ε Nat := if b ≤ a then pure (a - b) else abort

/-- The bytes of a slice from `start` up to `stop`. -/
def range (bs : Bytes) (start stop : Nat) : Run ε Bytes :=
  if start ≤ stop ∧ stop ≤ bs.length then pure ((bs.drop start).take (stop - start)) else abort

def index (bs : Bytes) (i : Nat) : Run ε UInt8 :=
  if i < bs.length then pure (bs.getD i 0) else abort

/-- A word from at most as many bytes as it has. -/
def word (w : Nat) (bs : Bytes) : Run ε (BitVec w) :=
  if 8 * bs.length ≤ w then pure (ofWordBytes w bs) else abort

/-- A word from exactly as many bytes as it has. -/
def fixedWord (w : Nat) (bs : Bytes) : Run ε (BitVec w) :=
  if 8 * bs.length = w then pure (ofWordBytes w bs) else abort

/-- A word as a native integer of `w` bits. -/
def narrow (w : Nat) {v : Nat} (x : BitVec v) : Run ε Nat :=
  if x.toNat < 2 ^ w then pure x.toNat else abort

/-- Room for `n` items of `k` bytes; a vector never takes more than half of the address space. -/
def withCapacity (n k : Nat) : Run ε Unit := if n * k < 2 ^ 63 then pure () else abort

/-- A slice is never longer than half of the address space. -/
structure Slice where
  bytes : Bytes
  length_lt : bytes.length < 2 ^ 63

theorem add_eq {a b : Nat} (h : a + b < 2 ^ 64) : (add a b : Run ε Nat) = pure (a + b) :=
  if_pos h

theorem mul_eq {a b : Nat} (h : a * b < 2 ^ 64) : (mul a b : Run ε Nat) = pure (a * b) :=
  if_pos h

theorem sub_eq {a b : Nat} (h : b ≤ a) : (sub a b : Run ε Nat) = pure (a - b) := if_pos h

theorem range_eq {bs : Bytes} {start stop : Nat} (h : start ≤ stop) (hstop : stop ≤ bs.length) :
    (range bs start stop : Run ε Bytes) = pure ((bs.drop start).take (stop - start)) :=
  if_pos ⟨h, hstop⟩

theorem index_eq {bs : Bytes} {i : Nat} (h : i < bs.length) :
    (index bs i : Run ε UInt8) = pure (bs.getD i 0) := if_pos h

theorem word_eq {w : Nat} {bs : Bytes} (h : 8 * bs.length ≤ w) :
    (word w bs : Run ε (BitVec w)) = pure (ofWordBytes w bs) := if_pos h

theorem fixedWord_eq {w : Nat} {bs : Bytes} (h : 8 * bs.length = w) :
    (fixedWord w bs : Run ε (BitVec w)) = pure (ofWordBytes w bs) := if_pos h

theorem narrow_eq {w v : Nat} {x : BitVec v} (h : x.toNat < 2 ^ w) :
    (narrow w x : Run ε Nat) = pure x.toNat := if_pos h

theorem withCapacity_eq {n k : Nat} (h : n * k < 2 ^ 63) :
    (withCapacity n k : Run ε Unit) = pure () := if_pos h

theorem mapM_eq {f : α → Run ε β} {g : α → β} {items : List α}
    (h : ∀ a ∈ items, f a = pure (g a)) : items.mapM f = pure (items.map g) := by
  induction items with
  | nil => rfl
  | cons a items ih =>
    rw [List.mapM_cons, h a (by simp), pure_bind, ih fun b hb => h b (by simp [hb]), pure_bind,
      List.map_cons]

end Primitives

section Outcomes

variable {ε α : Type}

/-- The computation never aborts, and the values it returns are those that `accepts` holds of. -/
def Returns (run : Run ε α) (accepts : α → Prop) : Prop :=
  ∃ r : Except ε α, run = ExceptT.mk (some r) ∧ ∀ a, r = .ok a ↔ accepts a

theorem returns_pure {a : α} {accepts : α → Prop} (h : ∀ b, a = b ↔ accepts b) :
    Returns (pure a : Run ε α) accepts := by
  refine ⟨.ok a, rfl, ?_⟩
  intro b
  rw [Except.ok.injEq, h]

theorem returns_throw {e : ε} {accepts : α → Prop} (h : ∀ a, ¬ accepts a) :
    Returns (throw e : Run ε α) accepts := by
  refine ⟨.error e, rfl, ?_⟩
  intro a
  constructor
  · intro hok
    cases hok
  · intro ha
    exact absurd ha (h a)

theorem Returns.map {β : Type} {run : Run ε α} {accepts : α → Prop} (hrun : Returns run accepts)
    (f : α → β) : Returns (run >>= fun a => pure (f a)) fun b => ∃ a, accepts a ∧ f a = b := by
  obtain ⟨r, rfl, hok⟩ := hrun
  cases r with
  | error e =>
    apply returns_throw
    rintro b ⟨a, ha, -⟩
    cases (hok a).2 ha
  | ok a =>
    apply returns_pure
    intro b
    constructor
    · intro hb
      exact ⟨a, (hok a).1 rfl, hb⟩
    · rintro ⟨a', ha', hb⟩
      cases (hok a').2 ha'
      exact hb

theorem Returns.congr {run : Run ε α} {accepts accepts' : α → Prop} (hrun : Returns run accepts)
    (h : ∀ a, accepts a ↔ accepts' a) : Returns run accepts' := by
  obtain ⟨r, hr, hok⟩ := hrun
  exact ⟨r, hr, fun a => (hok a).trans (h a)⟩

theorem Returns.eq_pure {run : Run ε α} {accepts : α → Prop} (hrun : Returns run accepts) {a : α}
    (h : accepts a) : run = pure a := by
  obtain ⟨r, hr, hok⟩ := hrun
  rw [hr, (hok a).2 h]
  rfl

theorem Returns.not_abort {run : Run ε α} {accepts : α → Prop} (hrun : Returns run accepts) :
    run ≠ abort := by
  obtain ⟨r, hr, -⟩ := hrun
  rw [hr]
  intro h
  cases h

end Outcomes
end Checked
