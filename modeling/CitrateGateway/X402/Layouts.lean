import CitrateGateway.Shared.Abi
import CitrateGateway.X402.Client

/-!
# The three layouts of a payment

A payment is packed behind the domain separator for the precompile that verifies it, laid out in
words for the contract that settles it, and its first six fields are laid out in words again
for the digest that the client signs. Each layout is read back here from its documented offsets.
-/

namespace X402
set_option autoImplicit false
open Words

section Precompile
variable (crypto : Crypto) (config : X402Config)

/-- The fields of a precompile input, after the 32 bytes of the domain separator. -/
def readPrecompileInput (input : Bytes) : Option PaymentPayload :=
  if input.length = 32 + payloadBytes then
    some {
      «from» := ofWordBytes 160 (takeField input 32 20)
      «to» := ofWordBytes 160 (takeField input 52 20)
      value := ofWordBytes 256 (takeField input 72 32)
      validAfter := ofWordBytes 256 (takeField input 104 32)
      validBefore := ofWordBytes 256 (takeField input 136 32)
      nonce := ofWordBytes 256 (takeField input 168 32)
      v := (takeField input 200 1).headD 0
      r := ofWordBytes 256 (takeField input 201 32)
      s := ofWordBytes 256 (takeField input 233 32) }
  else none

theorem precompileInput_length (p : PaymentPayload) :
    (precompileInput crypto config p).length = 32 + payloadBytes := by
  rw [precompileInput, List.length_append, wordBytes_length, PaymentPayload.toBytes_length]

theorem readPrecompileInput_precompileInput (p : PaymentPayload) :
    readPrecompileInput (precompileInput crypto config p) = some p := by
  rw [readPrecompileInput, if_pos (precompileInput_length crypto config p)]
  simp only [precompileInput, PaymentPayload.toBytes, takeField_append, takeField_prefix,
    takeField_all, wordBytes_length, List.length_cons, List.length_nil, Nat.reduceLeDiff,
    Nat.reduceSub, Nat.reduceAdd, ofWordBytes_wordBytes, Nat.reduceMul, List.headD_cons,
    Nat.le_refl]

end Precompile

section Authorization

/-- What the payer authorizes, without the signature. -/
structure Authorization where
  «from» : H160
  «to» : H160
  value : U256
  validAfter : U256
  validBefore : U256
  nonce : H256
  deriving DecidableEq

def PaymentPayload.authorization (p : PaymentPayload) : Authorization :=
  ⟨p.«from», p.«to», p.value, p.validAfter, p.validBefore, p.nonce⟩

def authorizationTypes : List Nat := [160, 160, 256, 256, 256, 256]

def Authorization.args (a : Authorization) : Abi.Vals authorizationTypes :=
  .cons a.«from» <| .cons a.«to» <| .cons a.value <| .cons a.validAfter <|
    .cons a.validBefore <| .cons a.nonce .nil

def Authorization.ofArgs : Abi.Vals authorizationTypes → Authorization
  | .cons «from» (.cons «to» (.cons value (.cons validAfter (.cons validBefore
      (.cons nonce .nil))))) => ⟨«from», «to», value, validAfter, validBefore, nonce⟩

/-- The six words of an authorization. -/
def readAuthorization (words : Bytes) : Option Authorization :=
  (Abi.decode authorizationTypes words).map .ofArgs

theorem readAuthorization_encode (a : Authorization) :
    readAuthorization (Abi.encode a.args) = some a := by
  have hwidths : ∀ w ∈ authorizationTypes, w ≤ 256 := by decide
  rw [readAuthorization, Abi.decode_encode hwidths]
  rfl

theorem padLeftAddress_eq (addr : H160) : padLeftAddress addr = beBytes 32 addr.toNat :=
  zeros_append_beBytes 12 20 addr.isLt

variable (crypto : Crypto)

/-- The bytes whose hash is the struct hash. -/
def structHashPreimage (a : Authorization) : Bytes :=
  wordBytes 32 (crypto.keccak256 (utf8 transferWithAuthorizationType)) ++
    padLeftAddress a.«from» ++ padLeftAddress a.«to» ++ wordBytes 32 a.value ++
    wordBytes 32 a.validAfter ++ wordBytes 32 a.validBefore ++ wordBytes 32 a.nonce

theorem structHash_eq (a : Authorization) :
    transferWithAuthorizationStructHash crypto a.«from» a.«to» a.value a.validAfter
      a.validBefore a.nonce = crypto.keccak256 (structHashPreimage crypto a) := rfl

theorem structHashPreimage_eq (a : Authorization) :
    structHashPreimage crypto a =
      wordBytes 32 (crypto.keccak256 (utf8 transferWithAuthorizationType)) ++
        Abi.encode a.args := by
  simp only [structHashPreimage, padLeftAddress_eq, Authorization.args, Abi.encode, wordBytes,
    List.append_assoc, List.append_nil]

end Authorization

section Call
variable (crypto : Crypto)

def settlePaymentTypes : List Nat := authorizationTypes ++ [8, 256, 256]

def PaymentPayload.args (p : PaymentPayload) : Abi.Vals settlePaymentTypes :=
  .cons p.«from» <| .cons p.«to» <| .cons p.value <| .cons p.validAfter <|
    .cons p.validBefore <| .cons p.nonce <| .cons p.v.toBitVec <| .cons p.r <| .cons p.s .nil

def PaymentPayload.ofArgs : Abi.Vals settlePaymentTypes → PaymentPayload
  | .cons «from» (.cons «to» (.cons value (.cons validAfter (.cons validBefore
      (.cons nonce (.cons v (.cons r (.cons s .nil)))))))) =>
    ⟨«from», «to», value, validAfter, validBefore, nonce, ⟨v⟩, r, s⟩

/-- The arguments of a `settlePayment` call, after the four bytes of its selector. -/
def readSettlePayment (data : Bytes) : Option PaymentPayload :=
  (Abi.decode settlePaymentTypes (data.drop 4)).map .ofArgs

theorem settlePaymentSelector_length : (settlePaymentSelector crypto).length = 4 := by
  simp [settlePaymentSelector]

theorem encodeSettlePayment_eq (p : PaymentPayload) :
    encodeSettlePayment crypto p = settlePaymentSelector crypto ++ Abi.encode p.args := by
  have hv : List.replicate 31 0 ++ [p.v] = beBytes 32 p.v.toBitVec.toNat := by
    rw [← zeros_append_beBytes 31 1 p.v.toBitVec.isLt]
    simp [beBytes]
  simp only [encodeSettlePayment, padLeftAddress_eq, hv, PaymentPayload.args, Abi.encode, wordBytes,
    List.append_assoc, List.append_nil]

theorem readSettlePayment_encodeSettlePayment (p : PaymentPayload) :
    readSettlePayment (encodeSettlePayment crypto p) = some p := by
  have hwidths : ∀ w ∈ settlePaymentTypes, w ≤ 256 := by decide
  rw [readSettlePayment, encodeSettlePayment_eq,
    List.drop_left' (settlePaymentSelector_length crypto), Abi.decode_encode hwidths]
  rfl

/-- The first six words of the arguments are the words of the authorization. -/
theorem authorization_words (p : PaymentPayload) :
    takeField (encodeSettlePayment crypto p) 4 192 = Abi.encode p.authorization.args := by
  have hlen : (Abi.encode p.authorization.args).length = 192 := Abi.encode_length _
  have hargs : Abi.encode p.args = Abi.encode p.authorization.args ++
      (beBytes 32 p.v.toBitVec.toNat ++ (beBytes 32 p.r.toNat ++ beBytes 32 p.s.toNat)) := by
    simp only [PaymentPayload.args, PaymentPayload.authorization, Authorization.args, Abi.encode,
      List.append_assoc, List.append_nil]
  rw [takeField, encodeSettlePayment_eq,
    List.drop_left' (settlePaymentSelector_length crypto), hargs, List.take_left' hlen]

end Call

section Client

theorem exists_of_bind_eq_ok {ε α β : Type} {x : Except ε α} {f : α → Except ε β} {b : β}
    (h : x >>= f = .ok b) : ∃ a, x = .ok a ∧ f a = .ok b := by
  cases x with
  | error e => cases h
  | ok a => exact ⟨a, rfl, h⟩

variable (crypto : ClientCrypto)

/-- The signature of a payment that the client built is one over its own six fields. -/
theorem authorize_signs {client : X402Client} {challenge : PaymentChallenge} {p : PaymentPayload}
    (h : authorize crypto client challenge = .ok p) :
    signDigestSecp256k1 crypto client.secret (eip712Digest crypto.toCrypto
      (wsaltDomainSeparator crypto.toCrypto challenge.chainId client.wsaltAddress)
      (crypto.keccak256 (structHashPreimage crypto.toCrypto p.authorization))) =
        .ok (p.v, p.r, p.s) := by
  unfold authorize at h
  split at h
  · cases h
  · split at h
    · cases h
    · split at h
      · cases h
      · obtain ⟨recipient, -, h⟩ := exists_of_bind_eq_ok h
        obtain ⟨nonce, -, h⟩ := exists_of_bind_eq_ok h
        obtain ⟨⟨v, r, s⟩, hsign, h⟩ := exists_of_bind_eq_ok h
        cases h
        exact hsign

/-- What is verified is what is settled: the call and the precompile input carry the same nine
fields, and the words of the call begin with the six that the signature is over. -/
theorem verified_is_settled (config : X402Config) (p : PaymentPayload) :
    (encodeSettlePayment crypto.toCrypto p).length = 292 ∧
    (precompileInput crypto.toCrypto config p).length = 265 ∧
    (precompileInput crypto.toCrypto config p).take 32 =
      wordBytes 32 (wsaltDomainSeparator crypto.toCrypto config.chainId config.wsaltAddress) ∧
    readPrecompileInput (precompileInput crypto.toCrypto config p) = some p ∧
    readSettlePayment (encodeSettlePayment crypto.toCrypto p) = some p ∧
    readAuthorization (takeField (encodeSettlePayment crypto.toCrypto p) 4 192) =
      some p.authorization ∧
    readAuthorization ((structHashPreimage crypto.toCrypto p.authorization).drop 32) =
      some p.authorization ∧
    (∀ (client : X402Client) (challenge : PaymentChallenge),
      authorize crypto client challenge = .ok p →
      signDigestSecp256k1 crypto client.secret (eip712Digest crypto.toCrypto
        (wsaltDomainSeparator crypto.toCrypto challenge.chainId client.wsaltAddress)
        (crypto.keccak256 (structHashPreimage crypto.toCrypto p.authorization))) =
          .ok (p.v, p.r, p.s)) ∧
    ∀ q : PaymentPayload,
      (encodeSettlePayment crypto.toCrypto p = encodeSettlePayment crypto.toCrypto q → p = q) ∧
      (precompileInput crypto.toCrypto config p = precompileInput crypto.toCrypto config q →
        p = q) := by
  refine ⟨encodeSettlePayment_length _ p, precompileInput_length _ config p,
    List.take_left' (wordBytes_length 32 _), readPrecompileInput_precompileInput _ config p,
    readSettlePayment_encodeSettlePayment _ p, ?_, ?_,
    fun _ _ h => authorize_signs crypto h, fun q => ⟨fun h => ?_, fun h => ?_⟩⟩
  · rw [authorization_words, readAuthorization_encode]
  · rw [structHashPreimage_eq, List.drop_left' (wordBytes_length 32 _), readAuthorization_encode]
  · have hread := congrArg readSettlePayment h
    rwa [readSettlePayment_encodeSettlePayment, readSettlePayment_encodeSettlePayment,
      Option.some.injEq] at hread
  · have hread := congrArg readPrecompileInput h
    rwa [readPrecompileInput_precompileInput, readPrecompileInput_precompileInput,
      Option.some.injEq] at hread

end Client
end X402
