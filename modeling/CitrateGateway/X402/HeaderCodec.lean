import CitrateGateway.Shared.Base64
import CitrateGateway.Shared.Text
import CitrateGateway.X402.Client

/-!
# The `x-payment` header

The codec on texts: a payment is the canonical base64 of its 233 bytes, and white space around it
does not matter. The layer, which only sees printable header values, decodes their bytes.
-/

namespace X402
set_option autoImplicit false
open Words

namespace Header

def encode (crypto : ClientCrypto) (payload : PaymentPayload) : String :=
  asciiText (X402.encode crypto payload)

def decode (crypto : Crypto) (value : String) : Except X402Error PaymentPayload :=
  match crypto.base64Decode (utf8 (Words.trim value)) with
  | .error e => .error (.malformedPaymentHeader ("base64: " ++ e))
  | .ok bytes =>
    if bytes.length ≠ payloadBytes then
      .error (.malformedPaymentHeader ("expected " ++ toString payloadBytes ++
        " bytes after base64 decode, got " ++ toString bytes.length))
    else PaymentPayload.parse bytes

end Header

section Layer

theorem isWhiteSpace_ofUInt8 {b : UInt8} (h : b.toNat < 128) :
    isWhiteSpace (Char.ofUInt8 b) = isWhitespace b := by
  have hall : ∀ n : Fin 128, isWhiteSpace (Char.ofUInt8 (UInt8.ofNat n)) =
      isWhitespace (UInt8.ofNat n) := by decide +kernel
  have hb := hall ⟨b.toNat, h⟩
  rwa [UInt8.ofNat_toNat] at hb

theorem dropWhile_ofUInt8 {value : Bytes} (h : ∀ b ∈ value, b.toNat < 128) :
    (value.map Char.ofUInt8).dropWhile isWhiteSpace =
      (value.dropWhile isWhitespace).map Char.ofUInt8 := by
  induction value with
  | nil => rfl
  | cons b value ih =>
    rw [List.map_cons, List.dropWhile_cons, List.dropWhile_cons, isWhiteSpace_ofUInt8 (h b (by simp)),
      ih (fun c hc => h c (by simp [hc]))]
    split
    · rfl
    · rfl

theorem trim_asciiText {value : Bytes} (h : ∀ b ∈ value, b.toNat < 128) :
    Words.trim (asciiText value) = asciiText (trim value) := by
  have hrest : ∀ b ∈ (value.dropWhile isWhitespace).reverse, b.toNat < 128 := fun b hb =>
    h b (List.dropWhile_subset _ (List.mem_reverse.1 hb))
  rw [Words.trim, asciiText, String.toList_ofList, dropWhile_ofUInt8 h, ← List.map_reverse,
    dropWhile_ofUInt8 hrest, ← List.map_reverse]
  rfl

theorem mem_of_mem_trim {value : Bytes} {b : UInt8} (h : b ∈ trim value) : b ∈ value := by
  have hrest := List.dropWhile_subset _ (List.mem_reverse.1 h)
  exact List.dropWhile_subset _ (List.mem_reverse.1 hrest)

/-- On a printable header value the layer decodes as the codec does. -/
theorem decode_eq_header (crypto : Crypto) {value : Bytes} (h : ∀ b ∈ value, b.toNat < 128) :
    decode crypto value = Header.decode crypto (asciiText value) := by
  have hbytes : utf8 (Words.trim (asciiText value)) = trim value := by
    rw [trim_asciiText h]
    exact utf8_asciiText fun b hb => h b (mem_of_mem_trim hb)
  unfold Header.decode
  exact hbytes ▸ rfl

end Layer

section Codec

/-- The canonical text of some bytes: URL-safe digits without padding. -/
def base64Text (bs : Bytes) : String := asciiText (base64Encode bs)

/-- The codec of the package is strict: its decoder takes exactly what its encoder writes. -/
structure StrictBase64 (crypto : ClientCrypto) : Prop where
  encode_eq : ∀ bs, crypto.base64Encode bs = base64Encode bs
  decode_iff : ∀ text bs, crypto.base64Decode text = .ok bs ↔ text = base64Encode bs

theorem base64Digit_plain (n : Nat) : (base64Digit n).toNat < 128 ∧
    isWhiteSpace (Char.ofUInt8 (base64Digit n)) = false ∧ Char.ofUInt8 (base64Digit n) ≠ '=' := by
  by_cases hn : n < 64
  · have hall : ∀ m : Fin 64, (base64Digit m).toNat < 128 ∧
        isWhiteSpace (Char.ofUInt8 (base64Digit m)) = false ∧
        Char.ofUInt8 (base64Digit m) ≠ '=' := by decide +kernel
    exact hall ⟨n, hn⟩
  · have hlen : base64Alphabet.length = 64 := by decide +kernel
    rw [base64Digit, List.getD, List.getElem?_eq_none (by omega)]
    decide

theorem base64Encode_ascii (bs : Bytes) : ∀ b ∈ base64Encode bs, b.toNat < 128 := by
  intro b hb
  obtain ⟨n, rfl⟩ := mem_base64Encode bs b hb
  exact (base64Digit_plain n).1

theorem mem_base64Text {bs : Bytes} {c : Char} (h : c ∈ (base64Text bs).toList) :
    isWhiteSpace c = false ∧ c ≠ '=' := by
  rw [base64Text, asciiText, String.toList_ofList, List.mem_map] at h
  obtain ⟨b, hb, rfl⟩ := h
  obtain ⟨n, rfl⟩ := mem_base64Encode bs b hb
  exact (base64Digit_plain n).2

theorem trim_base64Text (bs : Bytes) : Words.trim (base64Text bs) = base64Text bs :=
  trim_eq_self fun _ hc => (mem_base64Text hc).1

theorem base64Text_inj {bs cs : Bytes} (h : base64Text bs = base64Text cs) : bs = cs := by
  have hdigits := congrArg utf8 h
  rw [base64Text, base64Text, utf8_asciiText (base64Encode_ascii bs),
    utf8_asciiText (base64Encode_ascii cs)] at hdigits
  have hread := congrArg base64Decode hdigits
  rwa [base64Decode_encode, base64Decode_encode, Option.some.injEq] at hread

theorem takeField_length {bs : Bytes} {cursor n : Nat} (h : cursor + n ≤ bs.length) :
    (takeField bs cursor n).length = n := by
  rw [takeField, List.length_take, List.length_drop]
  omega

theorem takeField_append_drop (bs : Bytes) (cursor n : Nat) :
    takeField bs cursor n ++ bs.drop (cursor + n) = bs.drop cursor := by
  rw [takeField, ← List.drop_drop, List.take_append_drop]

theorem wordBytes_takeField {k w : Nat} (hw : w = 8 * k) {bs : Bytes} {cursor : Nat}
    (h : cursor + k ≤ bs.length) :
    wordBytes k (ofWordBytes w (takeField bs cursor k)) = takeField bs cursor k :=
  wordBytes_ofWordBytes hw (takeField_length h)

theorem headD_takeField {bs : Bytes} {cursor : Nat} (h : cursor + 1 ≤ bs.length) :
    [(takeField bs cursor 1).headD 0] = takeField bs cursor 1 := by
  obtain ⟨b, hb⟩ := List.length_eq_one_iff.1 (takeField_length h)
  rw [hb, List.headD_cons]

/-- Laying out what was parsed gives the parsed bytes back. -/
theorem toBytes_of_parse {bs : Bytes} {p : PaymentPayload} (h : PaymentPayload.parse bs = .ok p) :
    p.toBytes = bs := by
  unfold PaymentPayload.parse at h
  split at h
  · cases h
  · rename_i hlen
    have hlen : bs.length = 233 := not_not.1 hlen
    have hlast : takeField bs 201 32 = bs.drop 201 := by
      rw [takeField, List.take_of_length_le]
      rw [List.length_drop]
      omega
    cases h
    -- each field is laid out as the slice it was read from, and the slices follow each other
    simp only [PaymentPayload.toBytes]
    rw [wordBytes_takeField (by rfl) (by omega), wordBytes_takeField (by rfl) (by omega),
      wordBytes_takeField (by rfl) (by omega), wordBytes_takeField (by rfl) (by omega),
      wordBytes_takeField (by rfl) (by omega), wordBytes_takeField (by rfl) (by omega),
      headD_takeField (by omega), wordBytes_takeField (by rfl) (by omega),
      wordBytes_takeField (by rfl) (by omega), hlast, takeField_append_drop bs 169 32,
      takeField_append_drop bs 168 1, takeField_append_drop bs 136 32,
      takeField_append_drop bs 104 32, takeField_append_drop bs 72 32,
      takeField_append_drop bs 40 32, takeField_append_drop bs 20 20,
      takeField_append_drop bs 0 20, List.drop_zero]

variable {crypto : ClientCrypto}

theorem header_encode_eq (hbase : StrictBase64 crypto) (p : PaymentPayload) :
    Header.encode crypto p = base64Text p.toBytes := by
  rw [Header.encode, X402.encode, hbase.encode_eq, base64Text]

/-- A header is accepted exactly when its trimmed text is the canonical one of a payment. -/
theorem header_decode_iff (hbase : StrictBase64 crypto) (s : String) (p : PaymentPayload) :
    Header.decode crypto.toCrypto s = .ok p ↔ Words.trim s = base64Text p.toBytes := by
  constructor
  · intro h
    unfold Header.decode at h
    split at h
    · cases h
    · rename_i bytes hbytes
      split at h
      · cases h
      · rw [toBytes_of_parse h]
        exact (utf8_eq_iff (base64Encode_ascii bytes)).1 ((hbase.decode_iff _ _).1 hbytes)
  · intro h
    have hbytes : crypto.base64Decode (utf8 (Words.trim s)) = .ok p.toBytes :=
      (hbase.decode_iff _ _).2 ((utf8_eq_iff (base64Encode_ascii p.toBytes)).2 h)
    have hlen : ¬ p.toBytes.length ≠ payloadBytes := fun hne => hne p.toBytes_length
    simp only [Header.decode, hbytes, if_neg hlen, PaymentPayload.parse_toBytes]

/-- The codec is a bijection between the payments and the canonical texts of 233 bytes. -/
theorem header_codec (hbase : StrictBase64 crypto) :
    (∀ p, Header.decode crypto.toCrypto (Header.encode crypto p) = .ok p ∧
      '=' ∉ (Header.encode crypto p).toList) ∧
    Function.Injective (Header.encode crypto) ∧
    ∀ s : String,
      ((∃ p, Header.decode crypto.toCrypto s = .ok p) ↔
        ∃ bs : Bytes, bs.length = 233 ∧ Words.trim s = base64Text bs) ∧
      (∀ p, Header.decode crypto.toCrypto s = .ok p →
        Header.encode crypto p = Words.trim s ∧
        crypto.base64Decode (utf8 (Words.trim s)) = .ok p.toBytes) ∧
      ∀ (t : String) (p : PaymentPayload), Header.decode crypto.toCrypto s = .ok p →
        Header.decode crypto.toCrypto t = .ok p → Words.trim s = Words.trim t := by
  have hround : ∀ p, Header.decode crypto.toCrypto (Header.encode crypto p) = .ok p := by
    intro p
    rw [header_decode_iff hbase, header_encode_eq hbase, trim_base64Text]
  refine ⟨fun p => ⟨hround p, fun hpad => ?_⟩, fun p q heq => ?_, fun s => ⟨?_, fun p h => ?_, ?_⟩⟩
  · rw [header_encode_eq hbase] at hpad
    exact (mem_base64Text hpad).2 rfl
  · have hp := hround p
    rw [heq, hround q] at hp
    exact (Except.ok.inj hp).symm
  · constructor
    · rintro ⟨p, h⟩
      exact ⟨p.toBytes, p.toBytes_length, (header_decode_iff hbase s p).1 h⟩
    · rintro ⟨bs, hlen, htext⟩
      obtain ⟨p, hp⟩ : ∃ p, PaymentPayload.parse bs = .ok p := by
        rw [PaymentPayload.parse, if_neg (fun hne => hne hlen)]
        exact ⟨_, rfl⟩
      refine ⟨p, (header_decode_iff hbase s p).2 ?_⟩
      rw [toBytes_of_parse hp, htext]
  · have htext := (header_decode_iff hbase s p).1 h
    refine ⟨?_, (hbase.decode_iff _ _).2 ((utf8_eq_iff (base64Encode_ascii _)).2 htext)⟩
    rw [header_encode_eq hbase, htext]
  · intro t p hs ht
    rw [(header_decode_iff hbase s p).1 hs, (header_decode_iff hbase t p).1 ht]

/-- A decoder that takes no text but the one its encoder writes. -/
def strictBase64Decode (text : Bytes) : Except String Bytes :=
  match base64Decode text with
  | none => .error "Invalid padding"
  | some bs => if base64Encode bs = text then .ok bs else .error "Invalid last symbol"

theorem strictBase64Decode_iff (text bs : Bytes) :
    strictBase64Decode text = .ok bs ↔ text = base64Encode bs := by
  constructor
  · intro h
    unfold strictBase64Decode at h
    split at h
    · cases h
    · split at h
      · rename_i htext
        cases h
        exact htext.symm
      · cases h
  · intro h
    rw [h, strictBase64Decode, base64Decode_encode]
    exact if_pos rfl

/-- The base64 engine, beside packages that the codec does not use. -/
def codecCrypto : ClientCrypto where
  keccak256 _ := 0
  base64Decode := strictBase64Decode
  signingKey _ := .ok ()
  signPrehash _ _ := .error "signature error"
  base64Encode := base64Encode
  encodedPoint _ := []
  hexError _ := "Odd number of digits"
  decError _ := "dec string contains invalid character"

def codecPayment : PaymentPayload where
  «from» := ofWordBytes 160 (List.replicate 20 0xa1)
  «to» := ofWordBytes 160 (List.replicate 20 0xa2)
  value := 1000000000000000000
  validAfter := 1714000000
  validBefore := 1714000300
  nonce := ofWordBytes 256 (List.replicate 32 0xde)
  v := 27
  r := ofWordBytes 256 (List.replicate 32 0xab)
  s := ofWordBytes 256 (List.replicate 32 0xcd)

theorem header_codec_sample :
    Header.decode codecCrypto.toCrypto (Header.encode codecCrypto codecPayment) =
      .ok codecPayment ∧ '=' ∉ (Header.encode codecCrypto codecPayment).toList :=
  (header_codec (⟨fun _ => rfl, strictBase64Decode_iff⟩ : StrictBase64 codecCrypto)).1 codecPayment

end Codec
end X402
