import CitrateGateway.Gateway.ModelRegistry
import CitrateGateway.Gateway.Vault
import CitrateGateway.Shared.AbiTuple
import CitrateGateway.Shared.Checked
import CitrateGateway.Shared.Text

/-!
# Decoding of contract returns

Lengths and offsets in a return come from the node, as words of 256 bits. Each is compared with
the bytes that are there before it is narrowed, added to or sliced by. The decoders run in checked
arithmetic, where a comparison that came too late would show as an abort.
-/

namespace Gateway.Returns
set_option autoImplicit false
open Words Checked Models Vault

section Decoders

variable {α : Type}

def chainUnavailable (msg : String) : Run GatewayError α := throw (.chainUnavailable msg)

/-- Where decoding as UTF-8 stops: the length of the part before, and the bytes that are wrong,
or `none` when only the end of the text is missing. -/
def utf8Error (start taken : Nat) : Option Partial → Bytes → Option (Nat × Option Nat)
  | none, [] => none
  | some _, [] => some (start, none)
  | none, b :: bs =>
    match beginChar b with
    | (_, some p) => utf8Error start 1 (some p) bs
    | (_, none) => if b < 0x80 then utf8Error (start + 1) 0 none bs else some (start, some 1)
  | some p, b :: bs =>
    if p.low ≤ b ∧ b ≤ p.high then
      if p.more = 0 then utf8Error (start + taken + 1) 0 none bs
      else utf8Error start (taken + 1) (some ⟨p.code * 64 + (b.toNat - 0x80), p.more - 1, 0x80, 0xBF⟩)
        bs
    else some (start, some taken)

def utf8ErrorText (bytes : Bytes) : String :=
  match utf8Error 0 0 none bytes with
  | some (validUpTo, some errorLen) =>
    "invalid utf-8 sequence of " ++ toString errorLen ++ " bytes from index " ++ toString validUpTo
  | some (validUpTo, none) =>
    "incomplete utf-8 byte sequence from index " ++ toString validUpTo
  | none => ""

def abiLenBounded (lengthWord : Bytes) (maxItems : Nat) (what : String) : Run GatewayError Nat := do
  let v ← word 256 lengthWord
  if maxItems < v.toNat then
    chainUnavailable (what ++ ": declared length " ++ toDecStr v ++
      " exceeds buffer capacity (" ++ toString maxItems ++ " items)")
  else narrow 64 v

/-- The last 20 bytes of the `i`-th item. -/
def addressAt (bytes : Bytes) (i : Nat) : Run GatewayError H160 := do
  let start ← add 64 (← mul i 32)
  let item ← range bytes start (← add start 32)
  fixedWord 160 (← range item 12 32)

def hashAt (bytes : Bytes) (i : Nat) : Run GatewayError H256 := do
  let start ← add 64 (← mul i 32)
  fixedWord 256 (← range bytes start (← add start 32))

/-- An array whose items of `itemBytes` bytes each are read by `itemAt`; `unit` is how its name
for the bytes goes in an error. -/
def decodeArray (what unit : String) (itemBytes : Nat)
    (itemAt : Bytes → Nat → Run GatewayError α) (bytes : Bytes) : Run GatewayError (List α) := do
  if bytes.length < 64 then
    chainUnavailable (what ++ " return too short: " ++ toString bytes.length ++ " bytes")
  else
    let room ← sub bytes.length 64
    let len ← abiLenBounded (← range bytes 32 64) (room / 32) what
    let expected ← add 64 (← mul len 32)
    if bytes.length < expected then
      chainUnavailable (what ++ " truncated: said len=" ++ toString len ++ " need " ++
        toString expected ++ unit ++ " have " ++ toString bytes.length)
    else
      withCapacity len itemBytes
      (List.range len).mapM (itemAt bytes)

def decodeAddressArray (bytes : Bytes) : Run GatewayError (List H160) :=
  decodeArray "address[]" " bytes" 20 addressAt bytes

def decodeBytes32Array (bytes : Bytes) : Run GatewayError (List H256) :=
  decodeArray "bytes32[]" "" 32 hashAt bytes

/-- A word as an offset: its low half, which fits, of a word that is not more than 64 bits. -/
def offsetOf (v : U256) : Option Nat :=
  let low := v.toNat % 2 ^ 128
  (if low < 2 ^ 64 then some low else none).filter fun _ => v.toNat ≤ 2 ^ 64 - 1

def decodeText (prefixed : String) (bytes : Bytes) : Run GatewayError String :=
  match fromUtf8 bytes with
  | some text => pure text
  | none => chainUnavailable (prefixed ++ utf8ErrorText bytes)

/-- Whether the length at an offset is outside the bytes; the sum is only taken where it fits. -/
def lengthOutside (bytes : Bytes) (offset : Nat) : Run GatewayError Bool :=
  if bytes.length < min (offset + 32) (2 ^ 64 - 1) then pure true
  else do return bytes.length < (← add offset 32)

/-- The rest of the reading, once the offset is a size. -/
def stringAt (bytes : Bytes) (offset : Nat) : Run GatewayError String := do
  if ← lengthOutside bytes offset then
    chainUnavailable ("string-at-word: length at " ++ toString offset ++ " out of range (" ++
      toString bytes.length ++ " bytes)")
  else
    let lengthWord ← word 256 (← range bytes offset (← add offset 32))
    if 2 ^ 32 - 1 < lengthWord.toNat then
      chainUnavailable ("string-at-word: declared length too large (" ++ toDecStr lengthWord ++
        ")")
    else
      let len ← narrow 64 lengthWord
      let start ← add offset 32
      let stop ← add start len
      if bytes.length < stop then
        chainUnavailable ("string-at-word: declared " ++ toString len ++ " bytes at offset " ++
          toString start ++ ", have " ++ toString bytes.length)
      else decodeText "non-utf8 string: " (← range bytes start stop)

def decodeStringAtOffsetWord (bytes : Bytes) (wordIdx : Nat) : Run GatewayError String := do
  let offStart ← mul wordIdx 32
  let offStop ← add offStart 32
  if bytes.length < offStop then
    chainUnavailable ("string-at-word: offset word " ++ toString wordIdx ++ " out of range (" ++
      toString bytes.length ++ " bytes)")
  else
    let offsetWord ← word 256 (← range bytes offStart offStop)
    match offsetOf offsetWord with
    | none =>
      chainUnavailable ("string-at-word: offset overflows usize at word " ++ toString wordIdx)
    | some offset => stringAt bytes offset

structure ProviderInfoRaw where
  address : H160
  endpoint : String
  stake : U256
  currentLoad : UInt32
  totalInferences : U256
  isActive : Bool
  deriving DecidableEq

def ProviderInfoRaw.intoProviderInfo (raw : ProviderInfoRaw) : ProviderInfo where
  address := raw.address
  endpoint := raw.endpoint
  reputationBps := if raw.isActive then 5000 else 0
  currentLoad := raw.currentLoad
  maxConcurrent := 100

def clampLoad (load : U256) : Run GatewayError UInt32 :=
  if 2 ^ 32 - 1 < load.toNat then pure (UInt32.ofNat (2 ^ 32 - 1))
  else do return UInt32.ofNat (← narrow 32 load)

def decodeProviderInfo (addr : H160) (bytes : Bytes) : Run GatewayError ProviderInfoRaw := do
  if bytes.length < 192 then
    chainUnavailable ("provider info return too short: " ++ toString bytes.length ++ " bytes")
  else
    let stake ← word 256 (← range bytes 32 64)
    let load ← word 256 (← range bytes 64 96)
    let totalInferences ← word 256 (← range bytes 96 128)
    let active ← index bytes 159
    let room ← sub bytes.length 192
    let strLen ← abiLenBounded (← range bytes 160 192) room "provider endpoint"
    let stop ← add 192 strLen
    if bytes.length < stop then
      chainUnavailable ("endpoint string truncated: declared " ++ toString strLen ++
        " bytes, have " ++ toString room)
    else
      let endpoint ← decodeText "non-utf8 endpoint: " (← range bytes 192 stop)
      let currentLoad ← clampLoad load
      return ⟨addr, endpoint, stake, currentLoad, totalInferences, active ≠ 0⟩

end Decoders

section Exactness

variable {α : Type}

/-- The number that the word at `pos` is. -/
def wordAt (bytes : Bytes) (pos : Nat) : Nat := ofBeBytes (slice bytes pos 32)

theorem slice_length {bytes : Bytes} {start len : Nat} (h : start + len ≤ bytes.length) :
    (slice bytes start len).length = len := by
  rw [slice, List.length_take, List.length_drop]
  omega

theorem toNat_ofWordBytes {w : Nat} {bs : Bytes} (h : 8 * bs.length = w) :
    (ofWordBytes w bs).toNat = ofBeBytes bs := by
  have hlt := ofBeBytes_lt bs
  have hpow : (256 : Nat) ^ bs.length = 2 ^ w := by
    rw [← h, Nat.pow_mul]
  rw [ofWordBytes, BitVec.toNat_ofNat, Nat.mod_eq_of_lt (by omega)]

theorem range_slice {bytes : Bytes} {start stop : Nat} (h : start ≤ stop)
    (hstop : stop ≤ bytes.length) :
    (range bytes start stop : Run GatewayError Bytes) = pure (slice bytes start (stop - start)) :=
  range_eq h hstop

theorem word_range {β : Type} {bytes : Bytes} {pos stop : Nat} (hpos : stop = pos + 32)
    (hstop : stop ≤ bytes.length) (f : U256 → Run GatewayError β) :
    (range bytes pos stop >>= fun bs => word 256 bs >>= f) =
      f (ofWordBytes 256 (slice bytes pos 32)) := by
  have hlen : (slice bytes pos 32).length = 32 := slice_length (by omega)
  rw [range_slice (by omega) hstop, pure_bind, hpos, Nat.add_sub_cancel_left, word_eq (by omega),
    pure_bind]

theorem throw_bind {β : Type} (e : GatewayError) (f : α → Run GatewayError β) :
    (throw e : Run GatewayError α) >>= f = throw e := rfl

theorem abiLenBounded_eq {bytes : Bytes} {pos maxItems : Nat} (hpos : pos + 32 ≤ bytes.length)
    (hmax : maxItems < 2 ^ 64) (what : String) :
    (∃ e, abiLenBounded (slice bytes pos 32) maxItems what = throw e ∧
        maxItems < wordAt bytes pos) ∨
      abiLenBounded (slice bytes pos 32) maxItems what = pure (wordAt bytes pos) ∧
        wordAt bytes pos ≤ maxItems := by
  have hlen := slice_length hpos
  have hword : (ofWordBytes 256 (slice bytes pos 32)).toNat = wordAt bytes pos :=
    toNat_ofWordBytes (by omega)
  unfold abiLenBounded
  rw [word_eq (by omega), pure_bind, hword]
  by_cases hlt : maxItems < wordAt bytes pos
  · left
    rw [if_pos hlt]
    exact ⟨_, rfl, hlt⟩
  · right
    rw [if_neg hlt, narrow_eq (by omega), hword]
    exact ⟨rfl, by omega⟩

/-- The array that stands after the two words of the head. -/
def IsArray (bytes : Bytes) (item : Nat → α) (items : List α) : Prop :=
  64 ≤ bytes.length ∧ 64 + 32 * wordAt bytes 32 ≤ bytes.length ∧
    items = (List.range (wordAt bytes 32)).map item

theorem decodeArray_returns {itemBytes : Nat} (hitem : itemBytes ≤ 32)
    {itemAt : Bytes → Nat → Run GatewayError α} {item : Nat → α} (bs : Slice)
    (hread : ∀ i, 64 + 32 * i + 32 ≤ bs.bytes.length → itemAt bs.bytes i = pure (item i))
    (what unit : String) :
    Returns (decodeArray what unit itemBytes itemAt bs.bytes) (IsArray bs.bytes item) := by
  have hlt := bs.length_lt
  unfold decodeArray
  split
  · apply returns_throw
    intro items hitems
    have := hitems.1
    omega
  · rename_i hhead
    rw [sub_eq (by omega), pure_bind, range_slice (by omega) (by omega), pure_bind]
    have hlength : 32 + 32 ≤ bs.bytes.length := by omega
    have hroom : (bs.bytes.length - 64) / 32 < 2 ^ 64 := by omega
    rcases abiLenBounded_eq hlength hroom what with ⟨e, hreject, hmore⟩ | ⟨haccept, hle⟩
    · rw [hreject, throw_bind]
      apply returns_throw
      intro items hitems
      have := hitems.2.1
      omega
    · have hcapacity : wordAt bs.bytes 32 * itemBytes ≤ wordAt bs.bytes 32 * 32 :=
        Nat.mul_le_mul_left _ hitem
      rw [haccept, pure_bind, mul_eq (by omega), pure_bind, add_eq (by omega), pure_bind,
        if_neg (by omega), withCapacity_eq (by omega), pure_bind]
      rw [mapM_eq (g := item)]
      · apply returns_pure
        intro items
        constructor
        · rintro rfl
          exact ⟨by omega, by omega, rfl⟩
        · intro hitems
          exact hitems.2.2.symm
      · intro i hi
        have := List.mem_range.1 hi
        exact hread i (by omega)

theorem addressAt_eq {bs : Slice} {i : Nat} (h : 64 + 32 * i + 32 ≤ bs.bytes.length) :
    addressAt bs.bytes i = pure (ofWordBytes 160 (slice bs.bytes (64 + 32 * i + 12) 20)) := by
  have hlt := bs.length_lt
  have hpos : 64 + i * 32 = 64 + 32 * i := by omega
  have hitem : (slice bs.bytes (64 + 32 * i) 32).length = 32 := slice_length (by omega)
  have hlast : (slice bs.bytes (64 + 32 * i + 12) 20).length = 20 := slice_length (by omega)
  unfold addressAt
  rw [mul_eq (by omega), pure_bind, add_eq (by omega), pure_bind, hpos, add_eq (by omega),
    pure_bind, range_slice (by omega) (by omega), pure_bind, Nat.add_sub_cancel_left,
    range_slice (by omega) (by omega), pure_bind]
  have hsame : slice (slice bs.bytes (64 + 32 * i) 32) 12 (32 - 12) =
      slice bs.bytes (64 + 32 * i + 12) 20 := by
    simp only [slice, List.drop_take, List.take_take, List.drop_drop]
    rfl
  rw [hsame, fixedWord_eq (by omega)]

theorem hashAt_eq {bs : Slice} {i : Nat} (h : 64 + 32 * i + 32 ≤ bs.bytes.length) :
    hashAt bs.bytes i = pure (ofWordBytes 256 (slice bs.bytes (64 + 32 * i) 32)) := by
  have hlt := bs.length_lt
  have hpos : 64 + i * 32 = 64 + 32 * i := by omega
  have hitem : (slice bs.bytes (64 + 32 * i) 32).length = 32 := slice_length (by omega)
  unfold hashAt
  rw [mul_eq (by omega), pure_bind, add_eq (by omega), pure_bind, hpos, add_eq (by omega),
    pure_bind, range_slice (by omega) (by omega), pure_bind, Nat.add_sub_cancel_left,
    fixedWord_eq (by omega)]

theorem decodeAddressArray_returns (bs : Slice) : Returns (decodeAddressArray bs.bytes)
    (IsArray bs.bytes fun i => ofWordBytes 160 (slice bs.bytes (64 + 32 * i + 12) 20)) :=
  decodeArray_returns (by omega) bs (fun _ hi => addressAt_eq hi) _ _

theorem decodeBytes32Array_returns (bs : Slice) : Returns (decodeBytes32Array bs.bytes)
    (IsArray bs.bytes fun i => ofWordBytes 256 (slice bs.bytes (64 + 32 * i) 32)) :=
  decodeArray_returns (by omega) bs (fun _ hi => hashAt_eq hi) _ _

theorem fromUtf8_eq_some {bytes : Bytes} {text : String} :
    fromUtf8 bytes = some text ↔ utf8 text = bytes := by
  unfold fromUtf8 String.fromUTF8?
  split
  · rename_i hvalid
    rw [Option.some.injEq]
    constructor
    · rintro rfl
      rfl
    · intro h
      rw [← String.toByteArray_inj]
      apply ByteArray.ext
      apply Array.toList_inj.1
      exact h.symm
  · rename_i hvalid
    constructor
    · intro h
      cases h
    · rintro rfl
      exact absurd text.isValidUTF8 hvalid

theorem decodeText_returns (prefixed : String) (bytes : Bytes) :
    Returns (decodeText prefixed bytes) fun text => utf8 text = bytes := by
  unfold decodeText
  split
  · rename_i text htext
    have hbytes := fromUtf8_eq_some.1 htext
    apply returns_pure
    intro text'
    constructor
    · rintro rfl
      exact hbytes
    · intro h
      exact utf8_inj (hbytes.trans h.symm)
  · rename_i hnone
    apply returns_throw
    intro text h
    rw [fromUtf8_eq_some.2 h] at hnone
    cases hnone

theorem offsetOf_eq (v : U256) :
    offsetOf v = if v.toNat < 2 ^ 64 then some v.toNat else none := by
  have hlt := v.isLt
  unfold offsetOf
  by_cases h : v.toNat < 2 ^ 64
  · have hlow : v.toNat % 2 ^ 128 = v.toNat := Nat.mod_eq_of_lt (by omega)
    simp only [hlow, if_pos h, Option.filter_some]
    rw [if_pos (by simp only [decide_eq_true_eq]; omega)]
  · rw [if_neg h]
    apply Option.filter_eq_none_iff.2
    intro n _
    simp only [decide_eq_true_eq]
    omega

theorem lengthOutside_eq {bytes : Bytes} (hlt : bytes.length < 2 ^ 63) (offset : Nat) :
    lengthOutside bytes offset = pure (decide (bytes.length < offset + 32)) := by
  unfold lengthOutside
  split
  · rw [decide_eq_true (by omega)]
  · rw [add_eq (by omega), pure_bind]

/-- The text whose length stands at `offset`. -/
def IsTextAt (bytes : Bytes) (offset : Nat) (text : String) : Prop :=
  offset + 32 ≤ bytes.length ∧ wordAt bytes offset ≤ 2 ^ 32 - 1 ∧
    offset + 32 + wordAt bytes offset ≤ bytes.length ∧
    utf8 text = slice bytes (offset + 32) (wordAt bytes offset)

theorem stringAt_returns (bs : Slice) (offset : Nat) :
    Returns (stringAt bs.bytes offset) (IsTextAt bs.bytes offset) := by
  have hlt := bs.length_lt
  unfold stringAt
  rw [lengthOutside_eq hlt, pure_bind]
  split
  · rename_i hout
    rw [decide_eq_true_eq] at hout
    apply returns_throw
    intro text htext
    have := htext.1
    omega
  rename_i hin
  rw [decide_eq_true_eq] at hin
  have hlength : (slice bs.bytes offset 32).length = 32 := slice_length (by omega)
  have hword : (ofWordBytes 256 (slice bs.bytes offset 32)).toNat = wordAt bs.bytes offset :=
    toNat_ofWordBytes (by omega)
  rw [add_eq (by omega), pure_bind, word_range rfl (by omega), hword]
  split
  · apply returns_throw
    intro text htext
    have := htext.2.1
    omega
  rename_i hshort
  rw [narrow_eq (by omega), hword, pure_bind, pure_bind, add_eq (by omega), pure_bind]
  split
  · apply returns_throw
    intro text htext
    have := htext.2.2.1
    omega
  · rw [range_slice (by omega) (by omega), pure_bind, Nat.add_sub_cancel_left]
    apply (decodeText_returns _ _).congr
    intro text
    constructor
    · intro h
      exact ⟨by omega, by omega, by omega, h⟩
    · intro h
      exact h.2.2.2

/-- The text whose offset stands in the `i`-th word. -/
def IsText (bytes : Bytes) (i : Nat) (text : String) : Prop :=
  32 * i + 32 ≤ bytes.length ∧ IsTextAt bytes (wordAt bytes (32 * i)) text

theorem decodeStringAtOffsetWord_returns (bs : Slice) {i : Nat} (hi : 32 * (i + 1) < 2 ^ 64) :
    Returns (decodeStringAtOffsetWord bs.bytes i) (IsText bs.bytes i) := by
  have hlt := bs.length_lt
  have hpos : i * 32 = 32 * i := Nat.mul_comm i 32
  unfold decodeStringAtOffsetWord
  rw [mul_eq (by omega), pure_bind, hpos, add_eq (by omega), pure_bind]
  split
  · apply returns_throw
    intro text htext
    have := htext.1
    omega
  rename_i hhead
  have hoffset : (slice bs.bytes (32 * i) 32).length = 32 := slice_length (by omega)
  have hword : (ofWordBytes 256 (slice bs.bytes (32 * i) 32)).toNat = wordAt bs.bytes (32 * i) :=
    toNat_ofWordBytes (by omega)
  rw [word_range rfl (by omega), offsetOf_eq, hword]
  by_cases hfits : wordAt bs.bytes (32 * i) < 2 ^ 64
  · rw [if_pos hfits]
    apply (stringAt_returns bs _).congr
    intro text
    constructor
    · intro h
      exact ⟨by omega, h⟩
    · intro h
      exact h.2
  · rw [if_neg hfits]
    apply returns_throw
    intro text htext
    have := htext.2.1
    omega

theorem clampLoad_eq (load : U256) :
    clampLoad load = pure (UInt32.ofNat (min load.toNat (2 ^ 32 - 1))) := by
  unfold clampLoad
  split
  · rw [Nat.min_eq_right (by omega)]
  · rw [narrow_eq (by omega), pure_bind, Nat.min_eq_left (by omega)]

/-- The tuple whose text stands right after its head. -/
structure IsProvider (addr : H160) (bytes : Bytes) (info : ProviderInfoRaw) : Prop where
  head : 192 ≤ bytes.length
  fits : 192 + wordAt bytes 160 ≤ bytes.length
  address : info.address = addr
  endpoint : utf8 info.endpoint = slice bytes 192 (wordAt bytes 160)
  stake : info.stake = ofWordBytes 256 (slice bytes 32 32)
  currentLoad : info.currentLoad = UInt32.ofNat (min (wordAt bytes 64) (2 ^ 32 - 1))
  totalInferences : info.totalInferences = ofWordBytes 256 (slice bytes 96 32)
  isActive : info.isActive = decide (bytes.getD 159 0 ≠ 0)

theorem decodeProviderInfo_returns (addr : H160) (bs : Slice) :
    Returns (decodeProviderInfo addr bs.bytes) (IsProvider addr bs.bytes) := by
  have hlt := bs.length_lt
  unfold decodeProviderInfo
  split
  · apply returns_throw
    intro info hinfo
    have := hinfo.head
    omega
  rename_i hhead
  have hload : (slice bs.bytes 64 32).length = 32 := slice_length (by omega)
  have hload' : (ofWordBytes 256 (slice bs.bytes 64 32)).toNat = wordAt bs.bytes 64 :=
    toNat_ofWordBytes (by omega)
  rw [word_range rfl (by omega), word_range rfl (by omega), word_range rfl (by omega),
    index_eq (by omega), pure_bind, sub_eq (by omega), pure_bind,
    range_slice (by omega) (by omega), pure_bind]
  have hlength : 160 + 32 ≤ bs.bytes.length := by omega
  have hroom : bs.bytes.length - 192 < 2 ^ 64 := by omega
  rcases abiLenBounded_eq hlength hroom "provider endpoint" with
    ⟨e, hreject, hmore⟩ | ⟨haccept, hle⟩
  · rw [hreject, throw_bind]
    apply returns_throw
    intro info hinfo
    have := hinfo.fits
    omega
  · rw [haccept, pure_bind, add_eq (by omega), pure_bind, if_neg (by omega),
      range_slice (by omega) (by omega), pure_bind, Nat.add_sub_cancel_left]
    simp only [clampLoad_eq, pure_bind, hload']
    apply ((decodeText_returns _ _).map _).congr
    intro info
    constructor
    · rintro ⟨text, htext, rfl⟩
      exact ⟨by omega, by omega, rfl, htext, rfl, rfl, rfl, rfl⟩
    · intro hinfo
      refine ⟨info.endpoint, hinfo.endpoint, ?_⟩
      rw [← hinfo.address, ← hinfo.stake, ← hinfo.currentLoad, ← hinfo.totalInferences,
        ← hinfo.isActive]

end Exactness

section Encodings

open Abi

theorem slice_append {before middle after : Bytes} {pos len : Nat} (hpos : before.length = pos)
    (hlen : middle.length = len) : slice (before ++ (middle ++ after)) pos len = middle := by
  rw [slice, List.drop_left' hpos, List.take_left' hlen]

theorem wordAt_append {before after : Bytes} {n pos : Nat} (hpos : before.length = pos)
    (hn : n < 2 ^ 256) : wordAt (before ++ (beBytes 32 n ++ after)) pos = n := by
  rw [wordAt, slice_append hpos (beBytes_length 32 n), ofBeBytes_beBytes,
    Nat.mod_eq_of_lt (by omega)]

theorem flatMap_getElem {α : Type} {f : α → Bytes} {k : Nat} (hf : ∀ a, (f a).length = k)
    (items : List α) {i : Nat} (hi : i < items.length) :
    ∃ before after, items.flatMap f = before ++ (f items[i] ++ after) ∧
      before.length = k * i := by
  have hsplit : items = items.take i ++ items[i] :: items.drop (i + 1) := by
    rw [List.getElem_cons_drop, List.take_append_drop]
  have hlength : ∀ xs : List α, (xs.flatMap f).length = k * xs.length := by
    intro xs
    induction xs with
    | nil => simp
    | cons x xs ih =>
      rw [List.flatMap_cons, List.length_append, hf, ih, List.length_cons, Nat.mul_succ]
      omega
  refine ⟨(items.take i).flatMap f, (items.drop (i + 1)).flatMap f, ?_, ?_⟩
  · conv => lhs; rw [hsplit]
    rw [List.flatMap_append, List.flatMap_cons]
  · rw [hlength, List.length_take, Nat.min_eq_left (by omega)]

theorem encodeParts_words {w : Nat} (xs : List (BitVec w)) :
    encodeParts [wordsPart xs] =
      beBytes 32 32 ++ (beBytes 32 xs.length ++ xs.flatMap fun x => beBytes 32 x.toNat) := by
  simp [encodeParts, heads, tails, wordsPart, wordsTail, headsLength, Part.headLength, Part.tail]

/-- An encoded list of words is the array of its items. -/
theorem isArray_encodeParts {w : Nat} {xs : List (BitVec w)} {item : Nat → BitVec w}
    {bs : Slice} (hbs : bs.bytes = encodeParts [wordsPart xs])
    (hitem : ∀ i (hi : i < xs.length),
      slice bs.bytes (64 + 32 * i) 32 = beBytes 32 xs[i].toNat → item i = xs[i]) :
    IsArray bs.bytes item xs := by
  have hlt := bs.length_lt
  have hlayout := encodeParts_words xs
  have hbody : (xs.flatMap fun x => beBytes 32 x.toNat).length = 32 * xs.length := by
    rw [List.length_flatMap]
    simp [Nat.mul_comm]
  have hlength : bs.bytes.length = 64 + 32 * xs.length := by
    rw [hbs, hlayout, List.length_append, List.length_append, beBytes_length, beBytes_length, hbody]
    omega
  have hcount : wordAt bs.bytes 32 = xs.length := by
    rw [hbs, hlayout]
    exact wordAt_append (beBytes_length 32 32) (by omega)
  refine ⟨by omega, by omega, ?_⟩
  rw [hcount]
  apply List.ext_getElem
  · simp
  · intro i hi hi'
    have hread : slice bs.bytes (64 + 32 * i) 32 = beBytes 32 xs[i].toNat := by
      obtain ⟨before, after, heq, hbefore⟩ :=
        flatMap_getElem (k := 32) (fun x : BitVec w => beBytes_length 32 x.toNat) xs hi
      rw [hbs, hlayout, heq, ← List.append_assoc (beBytes 32 32), ← List.append_assoc]
      apply slice_append
      · simp only [List.length_append, beBytes_length, hbefore]
      · exact beBytes_length 32 _
    rw [List.getElem_map, List.getElem_range, hitem i hi hread]

theorem decodeAddressArray_encode {xs : List H160} {bs : Slice}
    (hbs : bs.bytes = encodeParts [wordsPart xs]) :
    decodeAddressArray bs.bytes = pure xs := by
  apply (decodeAddressArray_returns bs).eq_pure
  apply isArray_encodeParts hbs
  intro i hi hread
  have hsame : slice bs.bytes (64 + 32 * i + 12) 20 = beBytes 20 xs[i].toNat := by
    have hpad := zeros_append_beBytes 12 20 (n := xs[i].toNat) (by have := xs[i].isLt; omega)
    have hinner : slice bs.bytes (64 + 32 * i + 12) 20 =
        ((slice bs.bytes (64 + 32 * i) 32).drop 12).take 20 := by
      simp only [slice, List.drop_take, List.take_take, List.drop_drop]
      rfl
    rw [hinner, hread, ← hpad, List.drop_left' (by simp), List.take_of_length_le (by simp)]
  rw [hsame]
  exact ofWordBytes_wordBytes (by omega) xs[i]

theorem decodeBytes32Array_encode {xs : List H256} {bs : Slice}
    (hbs : bs.bytes = encodeParts [wordsPart xs]) :
    decodeBytes32Array bs.bytes = pure xs := by
  apply (decodeBytes32Array_returns bs).eq_pure
  apply isArray_encodeParts hbs
  intro i hi hread
  rw [hread]
  exact ofWordBytes_wordBytes (by omega) xs[i]

theorem readWord_eq_some {bytes : Bytes} {pos n : Nat} (h : readWord bytes pos = some n) :
    pos + 32 ≤ bytes.length ∧ wordAt bytes pos = n := by
  unfold readWord at h
  split at h
  · rename_i hlen
    exact ⟨hlen, Option.some.inj h⟩
  · cases h

/-- The text of an encoded tuple, wherever in the tuple it is. -/
theorem encoded_text {ps qs : List Part} {text : String} {bs : Slice} {i : Nat}
    (hbs : bs.bytes = encodeParts (ps ++ bytesPart (utf8 text) :: qs))
    (hpos : headsLength ps = 32 * i) :
    32 * i + 32 ≤ bs.bytes.length ∧ wordAt bs.bytes (32 * i) + 32 ≤ bs.bytes.length ∧
      wordAt bs.bytes (wordAt bs.bytes (32 * i)) = (utf8 text).length ∧
      wordAt bs.bytes (32 * i) + 32 + (utf8 text).length ≤ bs.bytes.length ∧
      slice bs.bytes (wordAt bs.bytes (32 * i) + 32) (utf8 text).length = utf8 text := by
  have hlt := bs.length_lt
  have hread : decodeArg bs.bytes (32 * i) .bytes = some (utf8 text) := by
    rw [hbs, ← hpos]
    exact decodeArg_encodeParts (t := .bytes) trivial (utf8 text) ps qs (by
      have hsame : encodeParts (ps ++ part .bytes (utf8 text) :: qs) = bs.bytes := hbs.symm
      rw [hsame]
      omega)
  obtain ⟨offset, hoffset, hbytes⟩ := Option.bind_eq_some_iff.1 hread
  obtain ⟨n, hn, htext⟩ := Option.bind_eq_some_iff.1 hbytes
  obtain ⟨hhead, rfl⟩ := readWord_eq_some hoffset
  obtain ⟨hlength, rfl⟩ := readWord_eq_some hn
  split at htext
  · rename_i hfits
    have hslice : slice bs.bytes (wordAt bs.bytes (32 * i) + 32)
        (wordAt bs.bytes (wordAt bs.bytes (32 * i))) = utf8 text := Option.some.inj htext
    have hlen : (slice bs.bytes _ _).length = _ := slice_length hfits
    rw [hslice] at hlen
    rw [← hlen] at hslice hfits
    exact ⟨hhead, hlength, hlen.symm, hfits, hslice⟩
  · cases htext

theorem decodeStringAtOffsetWord_encode {ps qs : List Part} {text : String} {bs : Slice} {i : Nat}
    (hi : 32 * (i + 1) < 2 ^ 64) (htext : (utf8 text).length ≤ 2 ^ 32 - 1)
    (hbs : bs.bytes = encodeParts (ps ++ bytesPart (utf8 text) :: qs))
    (hpos : headsLength ps = 32 * i) : decodeStringAtOffsetWord bs.bytes i = pure text := by
  obtain ⟨hhead, hoffset, hlength, hfits, hslice⟩ := encoded_text hbs hpos
  apply (decodeStringAtOffsetWord_returns bs hi).eq_pure
  exact ⟨hhead, hoffset, by omega, by omega, by rw [hlength, hslice]⟩

/-- The tuple as a contract returns it. -/
def providerParts (endpoint : String) (stake load total : U256) (active : Bool) : List Part :=
  [bytesPart (utf8 endpoint), wordPart stake, wordPart load, wordPart total,
    wordPart (if active then 1 else 0 : U256)]

theorem encodeParts_provider (endpoint : String) (stake load total : U256) (active : Bool) :
    encodeParts (providerParts endpoint stake load total active) =
      beBytes 32 160 ++ (beBytes 32 stake.toNat ++ (beBytes 32 load.toNat ++
        (beBytes 32 total.toNat ++ (beBytes 32 (if active then 1 else 0 : U256).toNat ++
          (beBytes 32 (utf8 endpoint).length ++ (utf8 endpoint ++
            List.replicate (padding (utf8 endpoint).length) 0)))))) := by
  simp [encodeParts, heads, tails, providerParts, bytesPart, wordPart, bytesTail, headsLength,
    Part.headLength, Part.tail]

theorem slice_word {n pos len : Nat} {rest : Bytes} (h : 32 ≤ pos) :
    slice (beBytes 32 n ++ rest) pos len = slice rest (pos - 32) len := by
  have hdrop : (beBytes 32 n ++ rest).drop pos = rest.drop (pos - 32) := by
    rw [List.drop_append, List.drop_of_length_le (by simpa using h), beBytes_length,
      List.nil_append]
  rw [slice, slice, hdrop]

theorem ofBeBytes_slice_zero {n : Nat} {rest : Bytes} (h : n < 2 ^ 256) :
    ofBeBytes (slice (beBytes 32 n ++ rest) 0 32) = n := by
  rw [slice, List.drop_zero, List.take_left' (beBytes_length 32 n), ofBeBytes_beBytes,
    Nat.mod_eq_of_lt (by omega)]

theorem isProvider_encode (addr : H160) {endpoint : String} {stake load total : U256}
    {active : Bool} {bs : Slice}
    (hbs : bs.bytes = encodeParts (providerParts endpoint stake load total active)) :
    IsProvider addr bs.bytes ⟨addr, endpoint, stake,
      UInt32.ofNat (min load.toNat (2 ^ 32 - 1)), total, active⟩ := by
  have hlt := bs.length_lt
  have hstake := stake.isLt
  have hload := load.isLt
  have htotal := total.isLt
  have hlayout := encodeParts_provider endpoint stake load total active
  rw [← hbs] at hlayout
  have hlength : bs.bytes.length =
      192 + (utf8 endpoint).length + padding (utf8 endpoint).length := by
    rw [hlayout]
    simp only [List.length_append, beBytes_length, List.length_replicate]
    omega
  have hcount : wordAt bs.bytes 160 = (utf8 endpoint).length := by
    rw [hlayout, wordAt, slice_word (by omega), slice_word (by omega), slice_word (by omega),
      slice_word (by omega), slice_word (by omega), ofBeBytes_slice_zero (by omega)]
  have hendpoint : slice bs.bytes 192 (utf8 endpoint).length = utf8 endpoint := by
    rw [hlayout, slice_word (by omega), slice_word (by omega), slice_word (by omega),
      slice_word (by omega), slice_word (by omega), slice_word (by omega)]
    exact List.take_left' rfl
  refine ⟨by omega, by omega, rfl, ?_, ?_, ?_, ?_, ?_⟩
  · rw [hcount, hendpoint]
  · apply BitVec.eq_of_toNat_eq
    rw [toNat_ofWordBytes (by rw [slice_length (by omega)]), hlayout, slice_word (by omega),
      ofBeBytes_slice_zero (by omega)]
  · have hword : wordAt bs.bytes 64 = load.toNat := by
      rw [hlayout, wordAt, slice_word (by omega), slice_word (by omega),
        ofBeBytes_slice_zero (by omega)]
    rw [hword]
  · apply BitVec.eq_of_toNat_eq
    rw [toNat_ofWordBytes (by rw [slice_length (by omega)]), hlayout, slice_word (by omega),
      slice_word (by omega), slice_word (by omega), ofBeBytes_slice_zero (by omega)]
  · have hlast : bs.bytes.getD 159 0 = if active then 1 else 0 := by
      have hword : slice bs.bytes 128 32 =
          beBytes 32 (if active then 1 else 0 : U256).toNat := by
        rw [hlayout, slice_word (by omega), slice_word (by omega), slice_word (by omega),
          slice_word (by omega)]
        exact List.take_left' (beBytes_length 32 _)
      have hbyte : (slice bs.bytes 128 32).getD 31 0 = bs.bytes.getD 159 0 := by
        simp only [slice, List.getD_eq_getElem?_getD, List.getElem?_take, List.getElem?_drop]
        rfl
      rw [← hbyte, hword]
      cases active <;> rfl
    rw [hlast]
    cases active <;> rfl

theorem decodeProviderInfo_encode (addr : H160) {endpoint : String} {stake load total : U256}
    {active : Bool} {bs : Slice}
    (hbs : bs.bytes = encodeParts (providerParts endpoint stake load total active)) :
    decodeProviderInfo addr bs.bytes = pure ⟨addr, endpoint, stake,
      UInt32.ofNat (min load.toNat (2 ^ 32 - 1)), total, active⟩ :=
  (decodeProviderInfo_returns addr bs).eq_pure (isProvider_encode addr hbs)

end Encodings

section Registry

theorem abiLenBounded_models {bytes : Bytes} {pos maxItems : Nat} (hpos : pos + 32 ≤ bytes.length)
    (hmax : maxItems < 2 ^ 64) (what : String) :
    abiLenBounded (slice bytes pos 32) maxItems what =
      ExceptT.mk (some (Models.abiLenBounded (slice bytes pos 32) maxItems what)) := by
  have hlen := slice_length hpos
  have hword : (ofWordBytes 256 (slice bytes pos 32)).toNat = ofBeBytes (slice bytes pos 32) :=
    toNat_ofWordBytes (by omega)
  unfold abiLenBounded Models.abiLenBounded
  rw [word_eq (by omega), pure_bind]
  simp only [toDecStr, hword]
  split
  · rfl
  · rw [narrow_eq (by omega), hword]
    rfl

/-- The listing and the resolution of models decode as the checked decoders do. -/
theorem decodeBytes32Array_models (bs : Slice) :
    decodeBytes32Array bs.bytes = ExceptT.mk (some (Models.decodeBytes32Array bs.bytes)) := by
  have hlt := bs.length_lt
  unfold decodeBytes32Array decodeArray Models.decodeBytes32Array
  split
  · rfl
  have hlength : 32 + 32 ≤ bs.bytes.length := by omega
  have hroom : (bs.bytes.length - 64) / 32 < 2 ^ 64 := by omega
  have habi := abiLenBounded_models hlength hroom "bytes32[]"
  rw [sub_eq (by omega), pure_bind, range_slice (by omega) (by omega), pure_bind, habi]
  cases hlen : Models.abiLenBounded (slice bs.bytes 32 32) ((bs.bytes.length - 64) / 32)
      "bytes32[]" with
  | error e => rfl
  | ok len =>
    have hle : len ≤ (bs.bytes.length - 64) / 32 := by
      simp only [Models.abiLenBounded] at hlen
      split at hlen
      · cases hlen
      · cases hlen
        omega
    have hpure : (ExceptT.mk (some (.ok len)) : Run GatewayError Nat) = pure len := rfl
    rw [hpure, pure_bind, mul_eq (by omega), pure_bind, add_eq (by omega), pure_bind,
      if_neg (by omega), withCapacity_eq (by omega), pure_bind]
    simp only [Except.bind, bind, if_neg (show ¬ bs.bytes.length < 64 + len * 32 by omega)]
    rw [mapM_eq (g := fun i => ofWordBytes 256 (slice bs.bytes (64 + 32 * i) 32))]
    · simp only [Nat.mul_comm 32]
      rfl
    · intro i hi
      have := List.mem_range.1 hi
      exact hashAt_eq (by omega)

theorem models_isText {bytes : Bytes} (hlt : bytes.length < 2 ^ 63) {i : Nat} {text : String} :
    Models.decodeStringAtOffsetWord bytes i = some text ↔ IsText bytes i text := by
  have hpos : i * 32 = 32 * i := Nat.mul_comm i 32
  unfold Models.decodeStringAtOffsetWord IsText IsTextAt
  simp only [hpos]
  change (if bytes.length < 32 * i + 32 then none
    else if 2 ^ 64 ≤ wordAt bytes (32 * i) then none
    else if bytes.length < wordAt bytes (32 * i) + 32 then none
    else if 2 ^ 32 ≤ wordAt bytes (wordAt bytes (32 * i)) then none
    else if bytes.length < wordAt bytes (32 * i) + 32 +
      wordAt bytes (wordAt bytes (32 * i)) then none
    else fromUtf8 (slice bytes (wordAt bytes (32 * i) + 32)
      (wordAt bytes (wordAt bytes (32 * i))))) = some text ↔ _
  constructor
  · intro h
    split at h
    · cases h
    split at h
    · cases h
    split at h
    · cases h
    split at h
    · cases h
    split at h
    · cases h
    exact ⟨by omega, by omega, by omega, by omega, fromUtf8_eq_some.1 h⟩
  · rintro ⟨h₁, h₂, h₃, h₄, htext⟩
    rw [if_neg (by omega), if_neg (by omega), if_neg (by omega), if_neg (by omega),
      if_neg (by omega), fromUtf8_eq_some.2 htext]

theorem decodeStringAtOffsetWord_models (bs : Slice) {i : Nat} (hi : 32 * (i + 1) < 2 ^ 64) :
    ∃ r, decodeStringAtOffsetWord bs.bytes i = ExceptT.mk (some r) ∧
      r.toOption = Models.decodeStringAtOffsetWord bs.bytes i := by
  obtain ⟨r, hr, hok⟩ := decodeStringAtOffsetWord_returns bs hi
  refine ⟨r, hr, ?_⟩
  ext text
  rw [models_isText bs.length_lt, ← hok]
  cases r with
  | error e => simp [Except.toOption]
  | ok t => simp [Except.toOption]

end Registry

section Summary

open Abi

/-- The decoders never abort, accept exactly the bytes that hold what they declare, return what is
at those positions, and give back what was encoded. -/
theorem return_decoders_exact :
    (∀ bs : Slice, Returns (decodeAddressArray bs.bytes)
      (IsArray bs.bytes fun i => ofWordBytes 160 (slice bs.bytes (64 + 32 * i + 12) 20))) ∧
    (∀ bs : Slice, Returns (decodeBytes32Array bs.bytes)
      (IsArray bs.bytes fun i => ofWordBytes 256 (slice bs.bytes (64 + 32 * i) 32))) ∧
    (∀ (bs : Slice) (i : Nat), 32 * (i + 1) < 2 ^ 64 →
      Returns (decodeStringAtOffsetWord bs.bytes i) (IsText bs.bytes i)) ∧
    (∀ (addr : H160) (bs : Slice),
      Returns (decodeProviderInfo addr bs.bytes) (IsProvider addr bs.bytes)) ∧
    (∀ (xs : List H160) (bs : Slice), bs.bytes = encodeParts [wordsPart xs] →
      decodeAddressArray bs.bytes = pure xs) ∧
    (∀ (xs : List H256) (bs : Slice), bs.bytes = encodeParts [wordsPart xs] →
      decodeBytes32Array bs.bytes = pure xs) ∧
    (∀ (ps qs : List Part) (text : String) (bs : Slice) (i : Nat), 32 * (i + 1) < 2 ^ 64 →
      (utf8 text).length ≤ 2 ^ 32 - 1 → headsLength ps = 32 * i →
      bs.bytes = encodeParts (ps ++ bytesPart (utf8 text) :: qs) →
      decodeStringAtOffsetWord bs.bytes i = pure text) ∧
    ∀ (addr : H160) (endpoint : String) (stake load total : U256) (active : Bool) (bs : Slice),
      bs.bytes = encodeParts (providerParts endpoint stake load total active) →
      decodeProviderInfo addr bs.bytes = pure ⟨addr, endpoint, stake,
        UInt32.ofNat (min load.toNat (2 ^ 32 - 1)), total, active⟩ := by
  refine ⟨decodeAddressArray_returns, decodeBytes32Array_returns, ?_, decodeProviderInfo_returns,
    ?_, ?_, ?_, ?_⟩
  · intro bs i hi
    exact decodeStringAtOffsetWord_returns bs hi
  · intro xs bs hbs
    exact decodeAddressArray_encode hbs
  · intro xs bs hbs
    exact decodeBytes32Array_encode hbs
  · intro ps qs text bs i hi htext hpos hbs
    exact decodeStringAtOffsetWord_encode hi htext hbs hpos
  · intro addr endpoint stake load total active bs hbs
    exact decodeProviderInfo_encode addr hbs

/-- The registry's answer for a model, as far as its second field. -/
def sampleReturn : Slice where
  bytes := encodeParts ([wordPart (7 : H160)] ++ bytesPart (utf8 "llama") :: [wordPart (1 : U256)])
  length_lt := by decide +kernel

theorem return_decoders_exact_sample :
    decodeStringAtOffsetWord sampleReturn.bytes 1 = pure "llama" := by
  obtain ⟨-, -, -, -, -, -, htext, -⟩ := return_decoders_exact
  exact htext [wordPart (7 : H160)] [wordPart (1 : U256)] "llama" sampleReturn 1 (by decide)
    (by decide +kernel) (by decide +kernel) rfl

/-- An encoded text that is not shorter than `u32::MAX` allows is turned down. -/
theorem decodeStringAtOffsetWord_long {text : String} {bs : Slice}
    (hlong : 2 ^ 32 - 1 < (utf8 text).length) (hbs : bs.bytes = encodeParts [bytesPart (utf8 text)]) :
    decodeStringAtOffsetWord bs.bytes 0 ≠ pure text := by
  obtain ⟨-, -, hlength, -, -⟩ := @encoded_text [] [] text bs 0 hbs rfl
  obtain ⟨r, hr, hok⟩ := decodeStringAtOffsetWord_returns bs (i := 0) (by decide)
  rw [hr]
  intro h
  have hread := (hok text).1 (Option.some.inj h)
  have := hread.2.2.1
  omega

/-- The word index is not checked, and a text may be longer than the decoder allows. -/
theorem return_decoders_limits :
    decodeStringAtOffsetWord [] (2 ^ 59) = abort ∧
      ∃ (text : String) (bs : Slice), bs.bytes = encodeParts [bytesPart (utf8 text)] ∧
        decodeStringAtOffsetWord bs.bytes 0 ≠ pure text := by
  refine ⟨rfl, ?_⟩
  have hascii : ∀ n, (utf8 (Words.asciiText (List.replicate n 97))).length = n := by
    intro n
    rw [utf8_asciiText, List.length_replicate]
    intro b hb
    rw [List.eq_of_mem_replicate hb]
    decide
  have hlen := hascii (2 ^ 32)
  generalize Words.asciiText (List.replicate (2 ^ 32) 97) = text at hlen
  have hbytes : (encodeParts [bytesPart (utf8 text)]).length < 2 ^ 63 := by
    have htail := bytesTail_length (utf8 text)
    have hpad := padding_lt (utf8 text).length
    simp only [encodeParts, heads, tails, bytesPart, headsLength, Part.headLength, Part.tail,
      List.map_cons, List.map_nil, List.flatMap_cons, List.flatMap_nil, List.append_nil,
      List.length_append, beBytes_length]
    omega
  exact ⟨text, ⟨_, hbytes⟩, rfl, decodeStringAtOffsetWord_long (by omega) rfl⟩

end Summary

end Gateway.Returns
