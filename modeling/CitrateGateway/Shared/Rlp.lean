import CitrateGateway.Shared.Words

/-!
# Recursive length prefix encoding

Byte strings and flat lists of them, and the decoder of the first string of a list, which is
all that is needed to read the leading number of an encoded record.
-/

namespace Rlp
set_option autoImplicit false
open Words

/-- The shortest big-endian form of a number; zero is the empty string. -/
def natBytes (n : Nat) : Bytes := stripLeadingZeros (beBytes 8 n)

def lengthPrefix (base len : Nat) : Bytes :=
  if len < 56 then [UInt8.ofNat (base + len)]
  else UInt8.ofNat (base + 55 + (natBytes len).length) :: natBytes len

def encodeString (bs : Bytes) : Bytes :=
  match bs with
  | [b] => if b < 0x80 then [b] else lengthPrefix 0x80 1 ++ [b]
  | _ => lengthPrefix 0x80 bs.length ++ bs

def encodeList (items : List Bytes) : Bytes :=
  lengthPrefix 0xc0 (items.flatMap encodeString).length ++ items.flatMap encodeString

/-- The bytes after the header of a list. -/
def listPayload : Bytes → Option Bytes
  | [] => none
  | b :: bs =>
    if b < 0xc0 then none
    else if b < 0xf8 then some bs
    else some (bs.drop (b.toNat - 0xf7))

/-- The string a payload begins with, when that string is shorter than 56 bytes. -/
def firstString : Bytes → Option Bytes
  | [] => none
  | b :: bs =>
    if b < 0x80 then some [b]
    else if b < 0xb8 then some (bs.take (b.toNat - 0x80))
    else none

/-- The number an encoded list begins with. -/
def firstNat (bs : Bytes) : Option Nat :=
  ((listPayload bs).bind firstString).map ofBeBytes

theorem natBytes_length_le (n : Nat) : (natBytes n).length ≤ 8 := by
  have := stripLeadingZeros_length_le (beBytes 8 n)
  rwa [beBytes_length] at this

theorem ofBeBytes_natBytes {n : Nat} (h : n < 2 ^ 64) : ofBeBytes (natBytes n) = n := by
  rw [natBytes, ofBeBytes_stripLeadingZeros, ofBeBytes_beBytes]
  exact Nat.mod_eq_of_lt (by omega)

theorem firstString_encodeString {bs rest : Bytes} (h : bs.length < 56) :
    firstString (encodeString bs ++ rest) = some bs := by
  unfold encodeString
  split
  · rename_i b
    split
    · rename_i hb
      simp [firstString, hb]
    · simp [lengthPrefix, firstString]
  · have hbase : (UInt8.ofNat (128 + bs.length)).toNat = 128 + bs.length := by
      rw [UInt8.toNat_ofNat']
      omega
    have hlow : ¬ UInt8.ofNat (128 + bs.length) < 0x80 := by
      rw [UInt8.lt_iff_toNat_lt, hbase]
      simp
    have hhigh : UInt8.ofNat (128 + bs.length) < 0xb8 := by
      rw [UInt8.lt_iff_toNat_lt, hbase]
      simp
      omega
    rw [lengthPrefix, if_pos h, List.singleton_append, List.cons_append, firstString,
      if_neg hlow, if_pos hhigh, hbase]
    simp

theorem natBytes_length_pos {n : Nat} (h : n < 2 ^ 64) (hn : 0 < n) :
    0 < (natBytes n).length := by
  rw [List.length_pos_iff]
  intro hnil
  have := ofBeBytes_natBytes h
  rw [hnil, ofBeBytes_nil] at this
  omega

theorem encodeString_length_le (bs : Bytes) : (encodeString bs).length ≤ bs.length + 9 := by
  have hprefix : ∀ len, (lengthPrefix 0x80 len).length ≤ 9 := by
    intro len
    have := natBytes_length_le len
    unfold lengthPrefix
    split <;> simp only [List.length_cons, List.length_nil] <;> omega
  unfold encodeString
  split
  · have := hprefix 1
    split <;> simp only [List.length_append, List.length_cons, List.length_nil] <;> omega
  · have := hprefix bs.length
    rw [List.length_append]
    omega

theorem listPayload_encodeList {items : List Bytes}
    (hlen : (items.flatMap encodeString).length < 2 ^ 64) :
    listPayload (encodeList items) = some (items.flatMap encodeString) := by
  generalize hp : items.flatMap encodeString = payload at hlen
  rw [encodeList, hp]
  unfold lengthPrefix
  split
  · rename_i h
    have hbase : (UInt8.ofNat (192 + payload.length)).toNat = 192 + payload.length := by
      rw [UInt8.toNat_ofNat']
      omega
    have hlow : ¬ UInt8.ofNat (192 + payload.length) < 0xc0 := by
      rw [UInt8.lt_iff_toNat_lt, hbase]
      simp
    have hhigh : UInt8.ofNat (192 + payload.length) < 0xf8 := by
      rw [UInt8.lt_iff_toNat_lt, hbase]
      simp
      omega
    rw [List.singleton_append, listPayload, if_neg hlow, if_pos hhigh]
  · rename_i h
    have hle := natBytes_length_le payload.length
    have hpos := natBytes_length_pos hlen (by omega)
    generalize natBytes payload.length = lenBytes at hle hpos ⊢
    have hbase : (UInt8.ofNat (192 + 55 + lenBytes.length)).toNat = 247 + lenBytes.length := by
      rw [UInt8.toNat_ofNat']
      omega
    have hlow : ¬ UInt8.ofNat (192 + 55 + lenBytes.length) < 0xc0 := by
      rw [UInt8.lt_iff_toNat_lt, hbase]
      simp
      omega
    have hhigh : ¬ UInt8.ofNat (192 + 55 + lenBytes.length) < 0xf8 := by
      rw [UInt8.lt_iff_toNat_lt, hbase]
      simp
      omega
    have hdrop : 247 + lenBytes.length - 0xf7 = lenBytes.length := by omega
    rw [List.cons_append, listPayload, if_neg hlow, if_neg hhigh, hbase, hdrop,
      List.drop_left]

theorem firstNat_encodeList {n : Nat} (h : n < 2 ^ 64) {items : List Bytes}
    (hitems : (items.flatMap encodeString).length < 2 ^ 64 - 32) :
    firstNat (encodeList (natBytes n :: items)) = some n := by
  have hnat := natBytes_length_le n
  have hfirst := encodeString_length_le (natBytes n)
  rw [firstNat, listPayload_encodeList, List.flatMap_cons, Option.bind_some,
    firstString_encodeString (by omega), Option.map_some, ofBeBytes_natBytes h]
  rw [List.flatMap_cons, List.length_append]
  omega

end Rlp
