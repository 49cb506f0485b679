import CitrateGateway.Shared.Words

/-!
# Wire types of the x402 protocol

The payment payload and its 233-byte layout, the error type with its statuses and texts,
the `x-payment` header codec, and what the layer hands to a served request.
-/

namespace X402
set_option autoImplicit false
open Words

/-- The signed authorization of the `x-payment` header. -/
structure PaymentPayload where
  «from» : H160
  «to» : H160
  value : U256
  validAfter : U256
  validBefore : U256
  nonce : H256
  v : UInt8
  r : H256
  s : H256
  deriving DecidableEq

structure X402Paid where
  payer : H160
  amountWei : U256
  nonce : H256
  settleTxHash : H256
  deriving DecidableEq

structure PaymentChallenge where
  version : UInt8
  facilitator : String
  token : String
  chainId : UInt64
  amount : String
  nonce : String
  validAfter : UInt64
  validBefore : UInt64
  recipient : String
  digest : String
  requestHash : String
  deriving DecidableEq

inductive X402Error where
  | missingPaymentHeader
  | malformedPaymentHeader (msg : String)
  | invalidSignature
  | nonceReplayed
  | settleReverted (tx : String)
  | challengeNotIssued
  | expired
  | recipientNotTreasury
  | insufficientBalance
  | budgetExceeded (amountRequestedWei capWei : String)
  | unsupportedKeyType
  | rpcTransport (msg : String)
  | rpcError (msg : String)
  | settlePendingTimeout
  | facilitatorReverted (msg : String)
  | denied
  | pricing (msg : String)
  | internal (msg : String)
  deriving DecidableEq

namespace X402Error

def httpStatus : X402Error → Nat
  | missingPaymentHeader | malformedPaymentHeader _ | invalidSignature | nonceReplayed
  | settleReverted _ | challengeNotIssued | expired | recipientNotTreasury
  | insufficientBalance | budgetExceeded _ _ | unsupportedKeyType => 402
  | denied => 403
  | rpcTransport _ | rpcError _ | settlePendingTimeout | facilitatorReverted _ | pricing _
  | internal _ => 500

def reason : X402Error → String
  | missingPaymentHeader => "payment required"
  | malformedPaymentHeader _ => "malformed payment header"
  | invalidSignature => "signature invalid"
  | nonceReplayed => "nonce replayed"
  | settleReverted _ => "settle reverted"
  | challengeNotIssued => "challenge not issued"
  | expired => "expired"
  | recipientNotTreasury => "recipient not treasury"
  | insufficientBalance => "insufficient balance"
  | budgetExceeded _ _ => "budget cap exceeded"
  | unsupportedKeyType => "unsupported key type"
  | denied => "denied"
  | rpcTransport _ => "rpc transport error"
  | rpcError _ => "rpc error"
  | settlePendingTimeout => "settle pending (timeout)"
  | facilitatorReverted _ => "on-chain settle failed"
  | pricing _ => "pricing error"
  | internal _ => "internal error"

def display : X402Error → String
  | missingPaymentHeader => "missing X-PAYMENT header"
  | malformedPaymentHeader msg => "malformed X-PAYMENT header: " ++ msg
  | invalidSignature => "signature invalid: recovered signer differs from claimed 'from'"
  | nonceReplayed => "nonce replayed: already settled on-chain"
  | settleReverted tx => "settle reverted on-chain (tx 0x" ++ tx ++ ")"
  | challengeNotIssued =>
    "payment nonce not issued by this gateway (or already used/expired)"
  | expired => "payload expired or not yet valid"
  | recipientNotTreasury => "recipient does not match gateway treasury"
  | insufficientBalance => "insufficient wSALT balance"
  | budgetExceeded requested cap =>
    "budget cap exceeded: " ++ requested ++ " wei > " ++ cap ++ " wei"
  | unsupportedKeyType => "unsupported key type: EIP-3009 requires secp256k1"
  | rpcTransport msg => "rpc transport: " ++ msg
  | rpcError msg => "rpc error: " ++ msg
  | settlePendingTimeout => "settle pending (timeout)"
  | facilitatorReverted msg => "facilitator reverted: " ++ msg
  | denied => "payer denied by policy"
  | pricing msg => "pricing error: " ++ msg
  | internal msg => "internal: " ++ msg

end X402Error

/-- The functions of the cryptography and encoding packages the layer links against. -/
structure Crypto where
  keccak256 : Bytes → H256
  base64Decode : Bytes → Except String Bytes
  /-- Checking the secret and signing with it fail with different messages. -/
  signingKey : H256 → Except String Unit
  signPrehash : H256 → H256 → Except String (UInt8 × H256 × H256)

/-- A digest function known on finitely many messages, by length and residue. -/
def knownDigest (digests : List ((Nat × Nat) × H256)) (m : Bytes) : H256 :=
  (digests.lookup (m.length, ofBeBytes m % 65521)).getD 0

section Codec

def payloadBytes : Nat := 20 + 20 + 32 + 32 + 32 + 32 + 1 + 32 + 32

def PaymentPayload.toBytes (p : PaymentPayload) : Bytes :=
  wordBytes 20 p.«from» ++ (wordBytes 20 p.«to» ++ (wordBytes 32 p.value ++
    (wordBytes 32 p.validAfter ++ (wordBytes 32 p.validBefore ++ (wordBytes 32 p.nonce ++
    ([p.v] ++ (wordBytes 32 p.r ++ wordBytes 32 p.s)))))))

/-- The bytes of a field, from where the cursor stands. -/
def takeField (bs : Bytes) (cursor n : Nat) : Bytes := (bs.drop cursor).take n

def PaymentPayload.parse (bs : Bytes) : Except X402Error PaymentPayload :=
  if bs.length ≠ payloadBytes then
    .error (.malformedPaymentHeader
      ("expected " ++ toString payloadBytes ++ " bytes, got " ++ toString bs.length))
  else
    .ok {
      «from» := ofWordBytes 160 (takeField bs 0 20)
      «to» := ofWordBytes 160 (takeField bs 20 20)
      value := ofWordBytes 256 (takeField bs 40 32)
      validAfter := ofWordBytes 256 (takeField bs 72 32)
      validBefore := ofWordBytes 256 (takeField bs 104 32)
      nonce := ofWordBytes 256 (takeField bs 136 32)
      v := (takeField bs 168 1).headD 0
      r := ofWordBytes 256 (takeField bs 169 32)
      s := ofWordBytes 256 (takeField bs 201 32) }

@[simp] theorem PaymentPayload.toBytes_length (p : PaymentPayload) :
    p.toBytes.length = payloadBytes := by
  simp [toBytes, payloadBytes]

theorem takeField_append {xs ys : Bytes} {cursor n : Nat} (h : xs.length ≤ cursor) :
    takeField (xs ++ ys) cursor n = takeField ys (cursor - xs.length) n := by
  rw [takeField, takeField, List.drop_append, List.drop_eq_nil_of_le h, List.nil_append]

theorem takeField_prefix {xs ys : Bytes} {n : Nat} (h : xs.length = n) :
    takeField (xs ++ ys) 0 n = xs := by
  subst h
  simp [takeField]

theorem takeField_all {xs : Bytes} {n : Nat} (h : xs.length = n) : takeField xs 0 n = xs := by
  subst h
  simp [takeField]

/-- Parsing reads back exactly what was laid out. -/
theorem PaymentPayload.parse_toBytes (p : PaymentPayload) : parse p.toBytes = .ok p := by
  rw [parse, if_neg (by simp)]
  simp only [toBytes, takeField_append, takeField_prefix, takeField_all, wordBytes_length,
    List.length_cons, List.length_nil, Nat.reduceLeDiff, Nat.reduceSub, Nat.reduceAdd,
    ofWordBytes_wordBytes, Nat.reduceMul, List.headD_cons, Nat.le_refl]

def isWhitespace (b : UInt8) : Bool := b = 32 || (9 ≤ b && b ≤ 13)

/-- A header value without its surrounding white space. -/
def trim (value : Bytes) : Bytes :=
  ((value.dropWhile isWhitespace).reverse.dropWhile isWhitespace).reverse

/-- The value of the `x-payment` header, as the middleware decodes it. -/
def decode (crypto : Crypto) (value : Bytes) : Except X402Error PaymentPayload :=
  match crypto.base64Decode (trim value) with
  | .error e => .error (.malformedPaymentHeader ("base64: " ++ e))
  | .ok bytes =>
    if bytes.length ≠ payloadBytes then
      .error (.malformedPaymentHeader ("expected " ++ toString payloadBytes ++
        " bytes after base64 decode, got " ++ toString bytes.length))
    else PaymentPayload.parse bytes

end Codec
end X402
