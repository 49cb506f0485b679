import CitrateGateway.Shared.Words

/-!
# White space and texts of ASCII bytes

Trimming removes the characters with the Unicode property `White_Space`, and on a text of ASCII
bytes that is a matter of its bytes.
-/

namespace Words
set_option autoImplicit false

/-- The characters with the Unicode property `White_Space`. -/
def isWhiteSpace (c : Char) : Bool :=
  let n := c.toNat
  (9 ≤ n && n ≤ 13) || n = 0x20 || n = 0x85 || n = 0xA0 || n = 0x1680 ||
    (0x2000 ≤ n && n ≤ 0x200A) || n = 0x2028 || n = 0x2029 || n = 0x202F || n = 0x205F ||
    n = 0x3000

def trim (s : String) : String :=
  let rest := s.toList.dropWhile isWhiteSpace
  String.ofList (rest.reverse.dropWhile isWhiteSpace).reverse

theorem dropWhile_eq_self {α : Type} {p : α → Bool} {xs : List α} (h : ∀ x ∈ xs, p x = false) :
    xs.dropWhile p = xs := by
  cases xs with
  | nil => rfl
  | cons x xs => rw [List.dropWhile_cons, h x (by simp)]; rfl

theorem trim_eq_self {s : String} (h : ∀ c ∈ s.toList, isWhiteSpace c = false) : trim s = s := by
  have hrev : ∀ c ∈ s.toList.reverse, isWhiteSpace c = false := by
    intro c hc
    exact h c (List.mem_reverse.1 hc)
  rw [trim, dropWhile_eq_self h, dropWhile_eq_self hrev, List.reverse_reverse, String.ofList_toList]

/-- The text whose characters are these bytes. -/
def asciiText (bs : Bytes) : String := String.ofList (bs.map Char.ofUInt8)

theorem utf8EncodeChar_ofUInt8 {b : UInt8} (h : b.toNat < 128) :
    String.utf8EncodeChar (Char.ofUInt8 b) = [b] := by
  have hsize : (Char.ofUInt8 b).utf8Size = 1 := by
    rw [Char.utf8Size_eq_one_iff, UInt32.le_iff_toNat_le]
    have hval : (Char.ofUInt8 b).val.toNat = b.toNat := rfl
    have htop : (127 : UInt32).toNat = 127 := rfl
    omega
  have hchar : (Char.ofUInt8 b).val = b.toUInt32 := rfl
  rw [String.utf8EncodeChar_eq_singleton hsize, hchar]
  simp

theorem utf8_asciiText {bs : Bytes} (h : ∀ b ∈ bs, b.toNat < 128) : utf8 (asciiText bs) = bs := by
  have hchars : (bs.map Char.ofUInt8).flatMap String.utf8EncodeChar = bs := by
    induction bs with
    | nil => rfl
    | cons b bs ih =>
      rw [List.map_cons, List.flatMap_cons, utf8EncodeChar_ofUInt8 (h b (by simp)),
        ih (fun c hc => h c (by simp [hc]))]
      rfl
  rw [utf8, asciiText, String.toUTF8_eq_toByteArray, String.toByteArray_ofList, List.utf8Encode, hchars]
  simp

/-- A text is ASCII with these bytes exactly when they are its UTF-8 form. -/
theorem utf8_eq_iff {s : String} {bs : Bytes} (h : ∀ b ∈ bs, b.toNat < 128) :
    utf8 s = bs ↔ s = asciiText bs := by
  constructor
  · intro heq
    apply utf8_inj
    rw [heq, utf8_asciiText h]
  · intro heq
    rw [heq, utf8_asciiText h]

end Words
