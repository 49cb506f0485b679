import Mathlib.Data.List.Basic
import Mathlib.Data.Nat.Digits.Lemmas
import Mathlib.Tactic.Ring

/-!
# Byte strings and fixed-width words

Big-endian numerals, 160- and 256-bit words with the wrapping, checked and saturating
arithmetic of fixed-width integers, their byte and decimal forms. A byte array of a fixed
length is represented by the word it spells.
-/

namespace Words
set_option autoImplicit false

abbrev Bytes := List UInt8
abbrev H160 := BitVec 160
abbrev H256 := BitVec 256
abbrev U256 := BitVec 256

section Bytes

/-- The `k` low-order bytes of a number, most significant first. -/
def beBytes : Nat → Nat → Bytes
  | 0, _ => []
  | k+1, n => beBytes k (n / 256) ++ [UInt8.ofNat n]

def ofBeBytes (bs : Bytes) : Nat := bs.foldl (fun n b => n * 256 + b.toNat) 0

@[simp] theorem beBytes_length (k n : Nat) : (beBytes k n).length = k := by
  induction k generalizing n with
  | zero => rfl
  | succ k ih => simp [beBytes, ih]

@[simp] theorem ofBeBytes_nil : ofBeBytes [] = 0 := rfl

@[simp] theorem ofBeBytes_concat (bs : Bytes) (b : UInt8) :
    ofBeBytes (bs ++ [b]) = ofBeBytes bs * 256 + b.toNat := by
  simp [ofBeBytes]

theorem ofBeBytes_beBytes (k n : Nat) : ofBeBytes (beBytes k n) = n % 256 ^ k := by
  induction k generalizing n with
  | zero => simp [beBytes, Nat.mod_one]
  | succ k ih =>
    have hmod : n % 256 ^ (k + 1) = n % 256 + 256 * (n / 256 % 256 ^ k) := by
      rw [Nat.pow_succ', Nat.mod_mul]
    rw [beBytes, ofBeBytes_concat, ih, UInt8.toNat_ofNat', hmod]
    omega

theorem ofBeBytes_lt (bs : Bytes) : ofBeBytes bs < 256 ^ bs.length := by
  induction bs using List.reverseRecOn with
  | nil => simp
  | append_singleton bs b ih =>
    have hb := b.toNat_lt
    rw [ofBeBytes_concat, List.length_append, List.length_singleton, Nat.pow_succ]
    omega

theorem beBytes_ofBeBytes (bs : Bytes) : beBytes bs.length (ofBeBytes bs) = bs := by
  induction bs using List.reverseRecOn with
  | nil => rfl
  | append_singleton bs b ih =>
    have hb := b.toNat_lt
    have hdiv : (ofBeBytes bs * 256 + b.toNat) / 256 = ofBeBytes bs := by omega
    have hbyte : UInt8.ofNat (ofBeBytes bs * 256 + b.toNat) = b := by
      rw [← UInt8.toNat_inj, UInt8.toNat_ofNat']
      omega
    rw [List.length_append, List.length_singleton, beBytes, ofBeBytes_concat, hdiv, ih, hbyte]

theorem beBytes_inj {k a b : Nat} (ha : a < 256 ^ k) (hb : b < 256 ^ k)
    (h : beBytes k a = beBytes k b) : a = b := by
  have := congrArg ofBeBytes h
  rwa [ofBeBytes_beBytes, ofBeBytes_beBytes, Nat.mod_eq_of_lt ha, Nat.mod_eq_of_lt hb] at this

/-- The big-endian bytes of a word of `8 * k` bits. -/
def wordBytes (k : Nat) {w : Nat} (x : BitVec w) : Bytes := beBytes k x.toNat

def ofWordBytes (w : Nat) (bs : Bytes) : BitVec w := BitVec.ofNat w (ofBeBytes bs)

@[simp] theorem wordBytes_length (k : Nat) {w : Nat} (x : BitVec w) :
    (wordBytes k x).length = k := beBytes_length k x.toNat

theorem ofWordBytes_wordBytes {k w : Nat} (hw : w = 8 * k) (x : BitVec w) :
    ofWordBytes w (wordBytes k x) = x := by
  have hlt : x.toNat < 256 ^ k := by
    have := x.isLt
    subst hw
    rwa [Nat.pow_mul] at this
  apply BitVec.eq_of_toNat_eq
  rw [ofWordBytes, wordBytes, ofBeBytes_beBytes, Nat.mod_eq_of_lt hlt, BitVec.toNat_ofNat,
    Nat.mod_eq_of_lt x.isLt]

theorem wordBytes_ofWordBytes {k w : Nat} (hw : w = 8 * k) {bs : Bytes} (hbs : bs.length = k) :
    wordBytes k (ofWordBytes w bs) = bs := by
  have hlt := ofBeBytes_lt bs
  subst hbs hw
  rw [wordBytes, ofWordBytes, BitVec.toNat_ofNat, Nat.pow_mul, Nat.mod_eq_of_lt hlt,
    beBytes_ofBeBytes]

/-- A byte string without its leading zero bytes. -/
def stripLeadingZeros : Bytes → Bytes
  | [] => []
  | b :: bs => if b = 0 then stripLeadingZeros bs else b :: bs

theorem stripLeadingZeros_length_le (bs : Bytes) : (stripLeadingZeros bs).length ≤ bs.length := by
  induction bs with
  | nil => simp [stripLeadingZeros]
  | cons b bs ih =>
    unfold stripLeadingZeros
    split
    · simp only [List.length_cons]
      omega
    · exact le_rfl

theorem ofBeBytes_cons (b : UInt8) (bs : Bytes) :
    ofBeBytes (b :: bs) = b.toNat * 256 ^ bs.length + ofBeBytes bs := by
  induction bs using List.reverseRecOn with
  | nil => simp [ofBeBytes]
  | append_singleton bs c ih =>
    rw [← List.cons_append, ofBeBytes_concat, ih, ofBeBytes_concat, List.length_append,
      List.length_singleton, Nat.pow_succ]
    ring

theorem ofBeBytes_stripLeadingZeros (bs : Bytes) :
    ofBeBytes (stripLeadingZeros bs) = ofBeBytes bs := by
  induction bs with
  | nil => rfl
  | cons b bs ih =>
    unfold stripLeadingZeros
    split
    · rename_i hb
      rw [ih, ofBeBytes_cons, hb]
      simp
    · rfl

/-- A short value padded on the left is the numeral of the whole word. -/
theorem zeros_append_beBytes (k j : Nat) {n : Nat} (h : n < 256 ^ j) :
    List.replicate k 0 ++ beBytes j n = beBytes (k + j) n := by
  induction j generalizing n with
  | zero =>
    have hn : n = 0 := by omega
    subst hn
    induction k with
    | zero => rfl
    | succ k ih =>
      have hk : List.replicate k 0 = beBytes k 0 := by simpa [beBytes] using ih
      rw [List.replicate_succ', hk]
      simp [beBytes]
  | succ j ih =>
    have hdiv : n / 256 < 256 ^ j := by
      rw [Nat.div_lt_iff_lt_mul (by omega), ← Nat.pow_succ]
      exact h
    rw [← Nat.add_assoc, beBytes, beBytes, ← ih hdiv, List.append_assoc]

theorem stripLeadingZeros_head (bs : Bytes) : (stripLeadingZeros bs).head? ≠ some 0 := by
  induction bs with
  | nil => simp [stripLeadingZeros]
  | cons b bs ih =>
    unfold stripLeadingZeros
    split
    · exact ih
    · rename_i hb
      simpa using hb

theorem stripLeadingZeros_eq_self {bs : Bytes} (h : bs.head? ≠ some 0) :
    stripLeadingZeros bs = bs := by
  cases bs with
  | nil => rfl
  | cons b bs =>
    have hb : b ≠ 0 := by simpa using h
    rw [stripLeadingZeros, if_neg hb]

theorem stripLeadingZeros_zeros_append (k : Nat) (bs : Bytes) :
    stripLeadingZeros (List.replicate k 0 ++ bs) = stripLeadingZeros bs := by
  induction k with
  | zero => rfl
  | succ k ih =>
    rw [List.replicate_succ, List.cons_append, stripLeadingZeros, if_pos rfl, ih]

end Bytes

section Arithmetic
variable {w : Nat}

/-- Addition that stops at the largest word. -/
def saturatingAdd (a b : BitVec w) : BitVec w :=
  if a.toNat + b.toNat < 2 ^ w then a + b else BitVec.allOnes w

def saturatingSub (a b : BitVec w) : BitVec w :=
  if b.toNat ≤ a.toNat then a - b else 0

/-- The wrapped sum and whether it wrapped. -/
def overflowingAdd (a b : BitVec w) : BitVec w × Bool :=
  (a + b, decide (2 ^ w ≤ a.toNat + b.toNat))

theorem saturatingAdd_toNat_of_lt {a b : BitVec w} (h : a.toNat + b.toNat < 2 ^ w) :
    (saturatingAdd a b).toNat = a.toNat + b.toNat := by
  rw [saturatingAdd, if_pos h, BitVec.toNat_add, Nat.mod_eq_of_lt h]

theorem saturatingSub_toNat (a b : BitVec w) : (saturatingSub a b).toNat = a.toNat - b.toNat := by
  unfold saturatingSub
  split
  · rename_i h
    exact BitVec.toNat_sub_of_le h
  · simp
    omega

theorem overflowingAdd_toNat {a b s : BitVec w} (h : overflowingAdd a b = (s, false)) :
    s.toNat = a.toNat + b.toNat := by
  simp only [overflowingAdd, Prod.mk.injEq, decide_eq_false_iff_not, Nat.not_le] at h
  rw [← h.1, BitVec.toNat_add, Nat.mod_eq_of_lt h.2]

end Arithmetic

section Text

def utf8 (s : String) : Bytes := s.toUTF8.data.toList

/-- The decimal numeral of a word. -/
def toDecStr (x : U256) : String := Nat.repr x.toNat

def hexDigit (n : Nat) : Char := "0123456789abcdef".toList.getD n '0'

/-- Two lower-case hexadecimal digits a byte. -/
def hexEncode (bs : Bytes) : String :=
  String.ofList (bs.flatMap fun b => [hexDigit (b.toNat / 16), hexDigit (b.toNat % 16)])

/-- Decimal digits read into a word; fails at another character and at a value too large. -/
def decLoop : Nat → List Char → Option Nat
  | n, [] => some n
  | n, c :: cs =>
    if c.isDigit ∧ n * 10 + (c.toNat - '0'.toNat) < 2 ^ 256 then
      decLoop (n * 10 + (c.toNat - '0'.toNat)) cs
    else none

def fromDecStr (s : String) : Option U256 := (decLoop 0 s.toList).map (BitVec.ofNat 256)

def hexValue (c : Char) : Option Nat :=
  if '0' ≤ c ∧ c ≤ '9' then some (c.toNat - '0'.toNat)
  else if 'a' ≤ c ∧ c ≤ 'f' then some (c.toNat - 'a'.toNat + 10)
  else if 'A' ≤ c ∧ c ≤ 'F' then some (c.toNat - 'A'.toNat + 10)
  else none

def hexLoop : List Char → Option Bytes
  | [] => some []
  | [_] => none
  | c :: d :: cs =>
    match hexValue c, hexValue d, hexLoop cs with
    | some x, some y, some bs => some (UInt8.ofNat (x * 16 + y) :: bs)
    | _, _, _ => none

/-- The bytes of exactly `n` pairs of hexadecimal digits. -/
def hexDecode (n : Nat) (cs : List Char) : Option Bytes :=
  if cs.length = 2 * n then hexLoop cs else none

section RoundTrip

theorem le_ofDigitChars (n : Nat) (cs : List Char) : n ≤ Nat.ofDigitChars 10 cs n := by
  induction cs generalizing n with
  | nil => exact Nat.le_refl n
  | cons c cs ih =>
    rw [Nat.ofDigitChars_cons]
    exact Nat.le_trans (by omega) (ih _)

theorem decLoop_eq_some {n : Nat} {cs : List Char} (hdigits : ∀ c ∈ cs, c.isDigit = true)
    (hlt : Nat.ofDigitChars 10 cs n < 2 ^ 256) :
    decLoop n cs = some (Nat.ofDigitChars 10 cs n) := by
  induction cs generalizing n with
  | nil => rfl
  | cons c cs ih =>
    rw [Nat.ofDigitChars_cons, Nat.mul_comm] at hlt ⊢
    have hle := le_ofDigitChars (n * 10 + (c.toNat - '0'.toNat)) cs
    rw [decLoop, if_pos ⟨hdigits c (by simp), by omega⟩]
    exact ih (fun d hd => hdigits d (by simp [hd])) hlt

@[simp] theorem fromDecStr_toDecStr (x : U256) : fromDecStr (toDecStr x) = some x := by
  have hdigits : ∀ c ∈ Nat.toDigits 10 x.toNat, c.isDigit = true :=
    fun c hc => Nat.isDigit_of_mem_toDigits (by omega) (by omega) hc
  have hvalue := Nat.ofDigitChars_ten_toDigits (n := x.toNat)
  rw [fromDecStr, toDecStr, Nat.toList_repr, decLoop_eq_some hdigits (by rw [hvalue]; exact x.isLt),
    hvalue, Option.map_some, BitVec.ofNat_toNat, BitVec.setWidth_eq]

theorem hexValue_hexDigit {n : Nat} (h : n < 16) : hexValue (hexDigit n) = some n := by
  have : ∀ m : Fin 16, hexValue (hexDigit m) = some m.val := by decide
  exact this ⟨n, h⟩

theorem hexLoop_hexDigits (bs : Bytes) :
    hexLoop (bs.flatMap fun b => [hexDigit (b.toNat / 16), hexDigit (b.toNat % 16)]) =
      some bs := by
  induction bs with
  | nil => rfl
  | cons b bs ih =>
    have hlow : b.toNat % 16 < 16 := Nat.mod_lt _ (by omega)
    have hhigh : b.toNat / 16 < 16 := by
      have := b.toNat_lt
      omega
    rw [List.flatMap_cons, List.cons_append, List.cons_append, List.nil_append, hexLoop,
      hexValue_hexDigit hhigh, hexValue_hexDigit hlow, ih]
    simp only
    rw [Nat.div_add_mod', UInt8.ofNat_toNat]

theorem hexDecode_hexEncode (bs : Bytes) :
    hexDecode bs.length (hexEncode bs).toList = some bs := by
  have hlen : (bs.flatMap fun b => [hexDigit (b.toNat / 16), hexDigit (b.toNat % 16)]).length =
      2 * bs.length := by
    simp [List.length_flatMap]
    omega
  rw [hexDecode, hexEncode, String.toList_ofList, if_pos hlen, hexLoop_hexDigits]

end RoundTrip

theorem utf8_inj {s t : String} (h : utf8 s = utf8 t) : s = t := by
  have hbytes : s.toUTF8 = t.toUTF8 := ByteArray.ext (Array.toList_inj.1 h)
  exact String.toByteArray_inj.1 hbytes

end Text
end Words
