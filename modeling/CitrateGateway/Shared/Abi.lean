import CitrateGateway.Shared.Words

/-!
# The static part of the contract ABI

Every argument of a static type is one word of 32 bytes, and a short value stands at its right
end. A type is given by its width in bits. Reading is strict: the value of a word must fit the
width of its type, and nothing may follow the last word.
-/

namespace Abi
set_option autoImplicit false
open Words

/-- The arguments of a call whose types have these widths. -/
inductive Vals : List Nat → Type where
  | nil : Vals []
  | cons {w : Nat} {ws : List Nat} (x : BitVec w) (xs : Vals ws) : Vals (w :: ws)

def encode : {ws : List Nat} → Vals ws → Bytes
  | _, .nil => []
  | _, .cons x xs => beBytes 32 x.toNat ++ encode xs

def decode : (ws : List Nat) → Bytes → Option (Vals ws)
  | [], bs => if bs = [] then some .nil else none
  | w :: ws, bs =>
    if 32 ≤ bs.length ∧ ofBeBytes (bs.take 32) < 2 ^ w then
      (decode ws (bs.drop 32)).map (.cons (BitVec.ofNat w (ofBeBytes (bs.take 32))))
    else none

theorem encode_length {ws : List Nat} (xs : Vals ws) : (encode xs).length = 32 * ws.length := by
  induction xs with
  | nil => rfl
  | cons x xs ih =>
    rw [encode, List.length_append, beBytes_length, ih, List.length_cons]
    omega

theorem decode_encode {ws : List Nat} (hws : ∀ w ∈ ws, w ≤ 256) (xs : Vals ws) :
    decode ws (encode xs) = some xs := by
  induction xs with
  | nil => rfl
  | @cons w ws x xs ih =>
    have hw : w ≤ 256 := hws w (by simp)
    have hlt : x.toNat < 256 ^ 32 := by
      have hpow : 2 ^ w ≤ 2 ^ 256 := Nat.pow_le_pow_right (by omega) hw
      have hx := x.isLt
      omega
    have hword : ofBeBytes ((encode (.cons x xs)).take 32) = x.toNat := by
      rw [encode, List.take_left' (beBytes_length 32 x.toNat), ofBeBytes_beBytes,
        Nat.mod_eq_of_lt hlt]
    have hrest : (encode (.cons x xs)).drop 32 = encode xs :=
      List.drop_left' (beBytes_length 32 x.toNat)
    have hlen : 32 ≤ (encode (.cons x xs)).length := by
      rw [encode_length, List.length_cons]
      omega
    rw [decode, hword, hrest, if_pos ⟨hlen, x.isLt⟩, ih (fun v hv => hws v (by simp [hv])),
      Option.map_some, BitVec.ofNat_toNat, BitVec.setWidth_eq]

theorem encode_inj {ws : List Nat} (hws : ∀ w ∈ ws, w ≤ 256) {xs ys : Vals ws}
    (h : encode xs = encode ys) : xs = ys := by
  have hread := congrArg (decode ws) h
  rwa [decode_encode hws, decode_encode hws, Option.some.injEq] at hread

end Abi
