import CitrateGateway.Shared.Words

/-!
# Base64

The URL-safe alphabet without padding. Three bytes become four digits of six bits; a rest of one
or two bytes becomes two or three.
-/

namespace Words
set_option autoImplicit false

def base64Alphabet : Bytes :=
  utf8 "ABCDEFGHIJKLMNOPQRSTUVWXYZabcdefghijklmnopqrstuvwxyz0123456789-_"

def base64Digit (n : Nat) : UInt8 := base64Alphabet.getD n 0

def base64Value (b : UInt8) : Option Nat := base64Alphabet.findIdx? (· = b)

def base64Encode : Bytes → Bytes
  | [] => []
  | [a] => [base64Digit (a.toNat / 4), base64Digit (a.toNat % 4 * 16)]
  | [a, b] =>
    [base64Digit (a.toNat / 4), base64Digit (a.toNat % 4 * 16 + b.toNat / 16),
      base64Digit (b.toNat % 16 * 4)]
  | a :: b :: c :: rest =>
    base64Digit (a.toNat / 4) :: base64Digit (a.toNat % 4 * 16 + b.toNat / 16) ::
      base64Digit (b.toNat % 16 * 4 + c.toNat / 64) :: base64Digit (c.toNat % 64) ::
      base64Encode rest

/-- Read the digits of a text whose length is not one more than a multiple of four. -/
def base64Decode : Bytes → Option Bytes
  | [] => some []
  | [_] => none
  | [w, x] => do
    let w ← base64Value w
    let x ← base64Value x
    return [UInt8.ofNat (w * 4 + x / 16)]
  | [w, x, y] => do
    let w ← base64Value w
    let x ← base64Value x
    let y ← base64Value y
    return [UInt8.ofNat (w * 4 + x / 16), UInt8.ofNat (x % 16 * 16 + y / 4)]
  | w :: x :: y :: z :: rest => do
    let w ← base64Value w
    let x ← base64Value x
    let y ← base64Value y
    let z ← base64Value z
    let bs ← base64Decode rest
    return UInt8.ofNat (w * 4 + x / 16) :: UInt8.ofNat (x % 16 * 16 + y / 4) ::
      UInt8.ofNat (y % 4 * 64 + z) :: bs

theorem base64Value_digit {n : Nat} (h : n < 64) : base64Value (base64Digit n) = some n := by
  have hall : ∀ m : Fin 64, base64Value (base64Digit m) = some m.val := by decide +kernel
  exact hall ⟨n, h⟩

theorem ofNat_eq {b : UInt8} {n : Nat} (h : n = b.toNat) : UInt8.ofNat n = b := by
  rw [h, UInt8.ofNat_toNat]

/-- The two digits that a byte is spread over in front of the next one. -/
theorem digits_lt (a b : UInt8) : a.toNat / 4 < 64 ∧ a.toNat % 4 * 16 + b.toNat / 16 < 64 ∧
    b.toNat % 16 * 4 + a.toNat / 64 < 64 := by
  have ha := a.toNat_lt
  have hb := b.toNat_lt
  omega

theorem base64Decode_encode (bs : Bytes) : base64Decode (base64Encode bs) = some bs := by
  fun_induction base64Encode bs with
  | case1 => rfl
  | case2 a =>
    have ha := a.toNat_lt
    have hlow : a.toNat % 4 * 16 < 64 := by omega
    have hbyte : a.toNat / 4 * 4 + a.toNat % 4 * 16 / 16 = a.toNat := by omega
    simp only [base64Decode, base64Value_digit (digits_lt a a).1, base64Value_digit hlow,
      Option.bind_eq_bind, Option.bind_some]
    rw [ofNat_eq hbyte]
    rfl
  | case3 a b =>
    have ha := a.toNat_lt
    have hb := b.toNat_lt
    have hlow : b.toNat % 16 * 4 < 64 := by omega
    have hfirst : a.toNat / 4 * 4 + (a.toNat % 4 * 16 + b.toNat / 16) / 16 = a.toNat := by omega
    have hsecond : (a.toNat % 4 * 16 + b.toNat / 16) % 16 * 16 + b.toNat % 16 * 4 / 4 =
        b.toNat := by omega
    simp only [base64Decode, base64Value_digit (digits_lt a b).1,
      base64Value_digit (digits_lt a b).2.1, base64Value_digit hlow, Option.bind_eq_bind,
      Option.bind_some]
    rw [ofNat_eq hfirst, ofNat_eq hsecond]
    rfl
  | case4 a b c rest ih =>
    have ha := a.toNat_lt
    have hb := b.toNat_lt
    have hc := c.toNat_lt
    have hlow : c.toNat % 64 < 64 := by omega
    have hfirst : a.toNat / 4 * 4 + (a.toNat % 4 * 16 + b.toNat / 16) / 16 = a.toNat := by omega
    have hsecond : (a.toNat % 4 * 16 + b.toNat / 16) % 16 * 16 +
        (b.toNat % 16 * 4 + c.toNat / 64) / 4 = b.toNat := by omega
    have hthird : (b.toNat % 16 * 4 + c.toNat / 64) % 4 * 64 + c.toNat % 64 = c.toNat := by omega
    simp only [base64Decode, base64Value_digit (digits_lt a b).1,
      base64Value_digit (digits_lt a b).2.1, base64Value_digit (digits_lt c b).2.2,
      base64Value_digit hlow, ih, Option.bind_eq_bind, Option.bind_some]
    rw [ofNat_eq hfirst, ofNat_eq hsecond, ofNat_eq hthird]
    rfl

/-- Every digit is one of the alphabet, or the zero that no number below 64 has. -/
theorem mem_base64Encode (bs : Bytes) : ∀ b ∈ base64Encode bs, ∃ n, b = base64Digit n := by
  fun_induction base64Encode bs with
  | case1 =>
    intro b hb
    exact (List.not_mem_nil hb).elim
  | case2 a => simp
  | case3 a b => simp
  | case4 a b c rest ih =>
    intro d hd
    simp only [List.mem_cons] at hd
    rcases hd with rfl | rfl | rfl | rfl | hd
    · exact ⟨_, rfl⟩
    · exact ⟨_, rfl⟩
    · exact ⟨_, rfl⟩
    · exact ⟨_, rfl⟩
    · exact ih d hd

end Words
