import CitrateGateway.Shared.Rlp

/-!
# Canonical decoding of flat lists

A header must be the shortest one: no header before a single low byte, no long form of a short
length, no leading zero in a length. What is accepted is then exactly what is encoded, so a
list has one encoding and a byte string at most one reading.
-/

namespace Rlp
set_option autoImplicit false
open Words

section Decoder

/-- The first `n` bytes and what follows them. -/
def splitBytes (n : Nat) (bs : Bytes) : Option (Bytes × Bytes) :=
  if n ≤ bs.length then some (bs.take n, bs.drop n) else none

/-- A length that needs the long form, in `k` digits. -/
def decodeLength (k : Nat) (bs : Bytes) : Option (Nat × Bytes) :=
  (splitBytes k bs).bind fun p =>
    if p.1.head? = some 0 ∨ ofBeBytes p.1 < 56 then none else some (ofBeBytes p.1, p.2)

/-- What the header `b` of this kind announces, and what follows it. -/
def decodePayload (base : Nat) (b : UInt8) (bs : Bytes) : Option (Bytes × Bytes) :=
  if b.toNat < base + 56 then splitBytes (b.toNat - base) bs
  else (decodeLength (b.toNat - (base + 55)) bs).bind fun p => splitBytes p.1 p.2

def isLowByte : Bytes → Bool
  | [b] => b < 0x80
  | _ => false

def decodeString : Bytes → Option (Bytes × Bytes)
  | [] => none
  | b :: bs =>
    if b < 0x80 then some ([b], bs)
    else if b < 0xc0 then
      (decodePayload 0x80 b bs).bind fun p => if isLowByte p.1 then none else some p
    else none

/-- The strings of a payload; `fuel` bounds their number. -/
def decodeItems : Nat → Bytes → Option (List Bytes)
  | _, [] => some []
  | 0, _ :: _ => none
  | fuel+1, b :: bs =>
    (decodeString (b :: bs)).bind fun p => (decodeItems fuel p.2).map (p.1 :: ·)

def decodeList : Bytes → Option (List Bytes)
  | [] => none
  | b :: bs =>
    if b < 0xc0 then none
    else (decodePayload 0xc0 b bs).bind fun p =>
      if p.2 = [] then decodeItems p.1.length p.1 else none

end Decoder

section Headers

theorem splitBytes_eq_some {n : Nat} {bs payload rest : Bytes} :
    splitBytes n bs = some (payload, rest) ↔ payload.length = n ∧ bs = payload ++ rest := by
  unfold splitBytes
  constructor
  · intro h
    split at h
    · rename_i hn
      cases h
      exact ⟨List.length_take_of_le hn, (List.take_append_drop n bs).symm⟩
    · cases h
  · rintro ⟨rfl, rfl⟩
    rw [if_pos (by simp), List.take_left, List.drop_left]

theorem natBytes_ofBeBytes {digits : Bytes} (hlen : digits.length ≤ 8)
    (hhead : digits.head? ≠ some 0) : natBytes (ofBeBytes digits) = digits := by
  have hzeros := zeros_append_beBytes (8 - digits.length) digits.length (ofBeBytes_lt digits)
  rw [beBytes_ofBeBytes, show 8 - digits.length + digits.length = 8 by omega] at hzeros
  rw [natBytes, ← hzeros, stripLeadingZeros_zeros_append, stripLeadingZeros_eq_self hhead]

theorem decodeLength_eq_some {k n : Nat} {bs rest : Bytes} (hk : k ≤ 8) :
    decodeLength k bs = some (n, rest) ↔
      (natBytes n).length = k ∧ 56 ≤ n ∧ n < 2 ^ 64 ∧ bs = natBytes n ++ rest := by
  constructor
  · intro h
    obtain ⟨⟨digits, rest'⟩, hsplit, hdigits⟩ := Option.bind_eq_some_iff.1 h
    obtain ⟨hlen, rfl⟩ := splitBytes_eq_some.1 hsplit
    split at hdigits
    · cases hdigits
    · rename_i hshort
      simp only [not_or, Nat.not_lt] at hshort
      cases hdigits
      simp only at hshort ⊢
      have hnat := natBytes_ofBeBytes (by omega) hshort.1
      have hlt := ofBeBytes_lt digits
      have hpow : 256 ^ digits.length ≤ 256 ^ 8 := Nat.pow_le_pow_right (by omega) (by omega)
      refine ⟨by rw [hnat, hlen], hshort.2, by omega, by rw [hnat]⟩
  · rintro ⟨hlen, hlow, hhigh, rfl⟩
    have hsplit : splitBytes k (natBytes n ++ rest) = some (natBytes n, rest) :=
      splitBytes_eq_some.2 ⟨hlen, rfl⟩
    have hvalue := ofBeBytes_natBytes hhigh
    rw [decodeLength, hsplit, Option.bind_some, hvalue, if_neg]
    rintro (hzero | hsmall)
    · exact stripLeadingZeros_head _ hzero
    · omega

theorem natBytes_length_lt {n : Nat} (h : 256 ≤ n) (hn : n < 2 ^ 64) :
    1 < (natBytes n).length := by
  have hlt := ofBeBytes_lt (natBytes n)
  rw [ofBeBytes_natBytes hn] at hlt
  by_contra hle
  have hpow : 256 ^ (natBytes n).length ≤ 256 ^ 1 := Nat.pow_le_pow_right (by omega) (by omega)
  omega

/-- A header begins with a byte of its kind. -/
theorem lengthPrefix_eq_cons (base : Nat) {len : Nat} (hbase : base + 63 < 256)
    (hlen : len < 2 ^ 64) :
    ∃ b digits, lengthPrefix base len = b :: digits ∧ base ≤ b.toNat ∧ b.toNat ≤ base + 63 := by
  unfold lengthPrefix
  split
  · refine ⟨_, _, rfl, ?_⟩
    rw [UInt8.toNat_ofNat']
    omega
  · have hle := natBytes_length_le len
    have hpos := natBytes_length_pos hlen (by omega)
    refine ⟨_, _, rfl, ?_⟩
    rw [UInt8.toNat_ofNat']
    omega

/-- A header is read for the payload it was written for, and for no other. -/
theorem decodePayload_eq_some {base : Nat} {b : UInt8} {bs payload rest : Bytes}
    (hbase : base + 63 < 256) (hlow : base ≤ b.toNat) (hhigh : b.toNat ≤ base + 63) :
    decodePayload base b bs = some (payload, rest) ↔
      payload.length < 2 ^ 64 ∧ b :: bs = lengthPrefix base payload.length ++ (payload ++ rest) := by
  unfold decodePayload lengthPrefix
  by_cases hshort : b.toNat < base + 56
  · rw [if_pos hshort, splitBytes_eq_some]
    constructor
    · rintro ⟨hlen, rfl⟩
      have hb : UInt8.ofNat (base + payload.length) = b := by
        rw [← UInt8.toNat_inj, UInt8.toNat_ofNat']
        omega
      exact ⟨by omega, by rw [if_pos (by omega), hb]; rfl⟩
    · rintro ⟨hlen, heq⟩
      split at heq
      · obtain ⟨rfl, rfl⟩ := List.cons.inj heq
        rw [UInt8.toNat_ofNat']
        exact ⟨by omega, rfl⟩
      · have hle := natBytes_length_le payload.length
        have hpos := natBytes_length_pos hlen (by omega)
        obtain ⟨rfl, -⟩ := List.cons.inj heq
        rw [UInt8.toNat_ofNat'] at hshort
        omega
  · rw [if_neg hshort, Option.bind_eq_some_iff]
    constructor
    · rintro ⟨⟨n, rest'⟩, hlength, hsplit⟩
      obtain ⟨hdigits, hn, hlt, rfl⟩ := (decodeLength_eq_some (by omega)).1 hlength
      obtain ⟨rfl, rfl⟩ := splitBytes_eq_some.1 hsplit
      have hb : UInt8.ofNat (base + 55 + (natBytes payload.length).length) = b := by
        rw [← UInt8.toNat_inj, UInt8.toNat_ofNat']
        omega
      exact ⟨hlt, by rw [if_neg (by omega), hb]; rfl⟩
    · rintro ⟨hlen, heq⟩
      split at heq
      · rename_i hsmall
        obtain ⟨rfl, -⟩ := List.cons.inj heq
        rw [UInt8.toNat_ofNat'] at hshort
        omega
      · have hle := natBytes_length_le payload.length
        have hpos := natBytes_length_pos hlen (by omega)
        obtain ⟨rfl, rfl⟩ := List.cons.inj heq
        refine ⟨(payload.length, payload ++ rest), ?_, splitBytes_eq_some.2 ⟨rfl, rfl⟩⟩
        rw [UInt8.toNat_ofNat']
        apply (decodeLength_eq_some (by omega)).2
        exact ⟨by omega, by omega, hlen, rfl⟩

end Headers

section Strings

theorem encodeString_lowByte {b : UInt8} (hb : b < 0x80) : encodeString [b] = [b] := by
  rw [encodeString, if_pos hb]

theorem encodeString_prefixed {s : Bytes} (h : isLowByte s = false) :
    encodeString s = lengthPrefix 0x80 s.length ++ s := by
  unfold encodeString
  split
  · rename_i b
    have hb : ¬ b < 0x80 := by simpa [isLowByte] using h
    rw [if_neg hb]
    rfl
  · rfl

theorem decodeString_eq_some {bs s rest : Bytes} :
    decodeString bs = some (s, rest) ↔ s.length < 2 ^ 64 ∧ bs = encodeString s ++ rest := by
  constructor
  · intro h
    cases bs with
    | nil => cases h
    | cons b bs =>
      rw [decodeString] at h
      split at h
      · rename_i hb
        cases h
        rw [encodeString_lowByte hb]
        exact ⟨by simp, rfl⟩
      · split at h
        · rename_i hlow hhigh
          rw [UInt8.lt_iff_toNat_lt] at hlow hhigh
          simp only [UInt8.reduceToNat, Nat.not_lt] at hlow hhigh
          obtain ⟨⟨s', rest'⟩, hpayload, hsome⟩ := Option.bind_eq_some_iff.1 h
          split at hsome
          · cases hsome
          · rename_i hlowByte
            cases hsome
            obtain ⟨hlen, heq⟩ := (decodePayload_eq_some (by omega) hlow (by omega)).1 hpayload
            rw [encodeString_prefixed (by simpa using hlowByte), List.append_assoc]
            exact ⟨hlen, heq⟩
        · cases h
  · rintro ⟨hlen, rfl⟩
    cases hlow : isLowByte s with
    | true =>
      unfold isLowByte at hlow
      split at hlow
      · rename_i b
        have hb : b < 0x80 := by simpa using hlow
        rw [encodeString_lowByte hb, List.singleton_append, decodeString, if_pos hb]
      · cases hlow
    | false =>
      obtain ⟨b, digits, hcons, hbase, hhigh⟩ :=
        lengthPrefix_eq_cons 0x80 (by omega) hlen
      have hnotLow : ¬ b < 0x80 := by
        rw [UInt8.lt_iff_toNat_lt]
        simp only [UInt8.reduceToNat]
        omega
      have hnotList : b < 0xc0 := by
        rw [UInt8.lt_iff_toNat_lt]
        simp only [UInt8.reduceToNat]
        omega
      have hpayload : decodePayload 0x80 b (digits ++ (s ++ rest)) = some (s, rest) :=
        (decodePayload_eq_some (by omega) hbase hhigh).2 ⟨hlen, by rw [hcons]; rfl⟩
      rw [encodeString_prefixed hlow, hcons, List.append_assoc, List.cons_append, decodeString,
        if_neg hnotLow, if_pos hnotList, hpayload, Option.bind_some, if_neg (by simp [hlow])]

end Strings

section Lists

theorem encodeString_ne_nil {s : Bytes} (h : s.length < 2 ^ 64) : encodeString s ≠ [] := by
  cases hlow : isLowByte s with
  | true =>
    unfold isLowByte at hlow
    split at hlow
    · rename_i b
      rw [encodeString_lowByte (by simpa using hlow)]
      simp
    · cases hlow
  | false =>
    obtain ⟨b, digits, hcons, -⟩ := lengthPrefix_eq_cons 0x80 (by omega) h
    rw [encodeString_prefixed hlow, hcons]
    simp

theorem length_le_encodeString (s : Bytes) : s.length ≤ (encodeString s).length := by
  unfold encodeString
  split
  · split <;> simp
  · simp

theorem flatMap_encodeString_of_decodeItems {fuel : Nat} {bs : Bytes} {items : List Bytes}
    (h : decodeItems fuel bs = some items) : bs = items.flatMap encodeString := by
  induction fuel generalizing bs items with
  | zero =>
    cases bs with
    | nil =>
      cases h
      rfl
    | cons b bs => cases h
  | succ fuel ih =>
    cases bs with
    | nil =>
      cases h
      rfl
    | cons b bs =>
      rw [decodeItems] at h
      obtain ⟨⟨s, rest⟩, hstring, hrest⟩ := Option.bind_eq_some_iff.1 h
      obtain ⟨items', hitems, rfl⟩ := Option.map_eq_some_iff.1 hrest
      obtain ⟨-, heq⟩ := decodeString_eq_some.1 hstring
      have hflat := ih hitems
      simp only at hflat
      rw [heq, hflat, List.flatMap_cons]

theorem decodeItems_flatMap {items : List Bytes} {fuel : Nat}
    (hfuel : (items.flatMap encodeString).length ≤ fuel)
    (hlen : (items.flatMap encodeString).length < 2 ^ 64) :
    decodeItems fuel (items.flatMap encodeString) = some items := by
  induction items generalizing fuel with
  | nil =>
    cases fuel <;> rfl
  | cons s items ih =>
    rw [List.flatMap_cons, List.length_append] at hfuel hlen
    have hs := length_le_encodeString s
    have hne : encodeString s ≠ [] := encodeString_ne_nil (by omega)
    have hpos := List.length_pos_iff.2 hne
    have hstring : decodeString (encodeString s ++ items.flatMap encodeString) =
        some (s, items.flatMap encodeString) := decodeString_eq_some.2 ⟨by omega, rfl⟩
    obtain ⟨fuel, rfl⟩ := Nat.exists_eq_add_one_of_ne_zero (n := fuel) (by omega)
    rw [List.flatMap_cons]
    cases hbytes : encodeString s ++ items.flatMap encodeString with
    | nil => simp [hne] at hbytes
    | cons b bs =>
      rw [hbytes] at hstring
      rw [decodeItems, hstring, Option.bind_some, ih (by omega) (by omega)]
      rfl

/-- A byte string is read as a list exactly when it is the encoding of that list. -/
theorem decodeList_eq_some {bs : Bytes} {items : List Bytes}
    (hlen : (items.flatMap encodeString).length < 2 ^ 64) :
    decodeList bs = some items ↔ bs = encodeList items := by
  constructor
  · intro h
    cases bs with
    | nil => cases h
    | cons b bs =>
      rw [decodeList] at h
      split at h
      · cases h
      · rename_i hlow
        rw [UInt8.lt_iff_toNat_lt] at hlow
        simp only [UInt8.reduceToNat, Nat.not_lt] at hlow
        have hb := b.toNat_lt
        obtain ⟨⟨payload, rest⟩, hpayload, hitems⟩ := Option.bind_eq_some_iff.1 h
        split at hitems
        · rename_i hrest
          obtain ⟨-, heq⟩ := (decodePayload_eq_some (by omega) hlow (by omega)).1 hpayload
          have hflat := flatMap_encodeString_of_decodeItems hitems
          simp only at hrest hflat
          rw [heq, hrest, List.append_nil, hflat, encodeList]
        · cases hitems
  · rintro rfl
    obtain ⟨b, digits, hcons, hbase, hhigh⟩ :=
      lengthPrefix_eq_cons 0xc0 (by omega) hlen
    have hlow : ¬ b < 0xc0 := by
      rw [UInt8.lt_iff_toNat_lt]
      simp only [UInt8.reduceToNat]
      omega
    have hpayload : decodePayload 0xc0 b (digits ++ (items.flatMap encodeString ++ [])) =
        some (items.flatMap encodeString, []) :=
      (decodePayload_eq_some (by omega) hbase hhigh).2 ⟨hlen, by rw [hcons]; rfl⟩
    rw [List.append_nil] at hpayload
    rw [encodeList, hcons, List.cons_append, decodeList, if_neg hlow, hpayload,
      Option.bind_some, if_pos rfl, decodeItems_flatMap (Nat.le_refl _) hlen]

theorem encodeList_inj {items items' : List Bytes}
    (hlen : (items.flatMap encodeString).length < 2 ^ 64)
    (hlen' : (items'.flatMap encodeString).length < 2 ^ 64)
    (h : encodeList items = encodeList items') : items = items' := by
  have hread := (decodeList_eq_some hlen).2 rfl
  rw [h, (decodeList_eq_some hlen').2 rfl] at hread
  exact (Option.some.inj hread).symm

end Lists
end Rlp
