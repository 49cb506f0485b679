import CitrateGateway.X402.Layer
import Mathlib.Data.BitVec

/-!
# The paying client

The client sends a request, and when it is challenged it signs the authorization with its own
address and sends the request once more with the payment in its header.
-/

namespace X402
set_option autoImplicit false
open Words Effects

/-- What the client links against besides. -/
structure ClientCrypto extends Crypto where
  base64Encode : Bytes → Bytes
  /-- The uncompressed point of the public key of a valid secret. -/
  encodedPoint : H256 → Bytes
  /-- The texts of the number and hexadecimal readers. -/
  hexError : List Char → String
  decError : String → String

section Keys
variable (crypto : ClientCrypto)

def deriveSecp256k1Address (secret : H256) : Option H160 :=
  match crypto.signingKey secret with
  | .error _ => none
  | .ok () =>
    let pubkeyBytes := crypto.encodedPoint secret
    if pubkeyBytes.length ≠ 65 then none
    else
      let hash := crypto.keccak256 (pubkeyBytes.drop 1)
      some (ofWordBytes 160 ((wordBytes 32 hash).drop 12))

def signDigestSecp256k1 (secret digest : H256) : Except X402Error (UInt8 × H256 × H256) :=
  match crypto.signingKey secret with
  | .error e => .error (.internal ("invalid secret: " ++ e))
  | .ok () =>
    match crypto.signPrehash secret digest with
    | .error e => .error (.internal ("sign failed: " ++ e))
    | .ok (recoveryId, r, s) => .ok (27 + recoveryId, r, s)

end Keys

section Header

def encode (crypto : ClientCrypto) (payload : PaymentPayload) : Bytes :=
  crypto.base64Encode payload.toBytes

end Header

section Client

structure X402Client where
  secret : H256
  payerAddress : H160
  wsaltAddress : H160
  facilitatorAddress : H160
  chainId : UInt64
  budgetCapWei : U256

def X402Client.tryNew (crypto : ClientCrypto) (secret : H256) (wsaltAddress facilitatorAddress : H160)
    (chainId : UInt64) : Except X402Error X402Client :=
  match deriveSecp256k1Address crypto secret with
  | none => .error (.internal "invalid secp256k1 secret")
  | some payerAddress =>
    .ok ⟨secret, payerAddress, wsaltAddress, facilitatorAddress, chainId, 10 * 10 ^ 18⟩

def X402Client.withBudgetCap (client : X402Client) (capWei : U256) : X402Client :=
  { client with budgetCapWei := capWei }

/-- JSON values, as far as the body of a 402 goes. -/
structure ChallengeFormat where
  Value : Type
  get : Value → String → Option Value
  challengeFromValue : Value → Except String PaymentChallenge
  /-- The value of a body with its challenge, reason and detail. -/
  paymentRequired : PaymentChallenge → Option String → Option String → Value

/-- A response as the client sees it. -/
structure HttpResponse (Value : Type) where
  status : Nat
  json : Except String Value

/-- The one thing a client does: send its request, with a payment header or without. -/
inductive ClientOp where
  | send (xPayment : Option Bytes)

abbrev ClientSig (Value : Type) : Sig :=
  ⟨ClientOp, fun _ => Except String (HttpResponse Value)⟩

variable (crypto : ClientCrypto) (format : ChallengeFormat)

def send (Value : Type) (xPayment : Option Bytes) :
    Prog (ClientSig Value) (Except String (HttpResponse Value)) :=
  .perform (E := ClientSig Value) (.send xPayment)

def parseChallenge (body : format.Value) : Except X402Error PaymentChallenge :=
  match format.get body "x402" with
  | none => .error (.internal "402 body missing 'x402' envelope")
  | some envelope =>
    match format.challengeFromValue envelope with
    | .error e => .error (.internal ("challenge decode: " ++ e))
    | .ok challenge => .ok challenge

/-- Without the prefix of a hexadecimal numeral. -/
def stripHexPrefix (s : String) : List Char :=
  match s.toList with
  | '0' :: 'x' :: rest => rest
  | cs => cs

def parseAddrHex (s : String) : Except X402Error H160 :=
  match hexLoop (stripHexPrefix s) with
  | none => .error (.internal ("bad address hex: " ++ crypto.hexError (stripHexPrefix s)))
  | some bytes =>
    if bytes.length ≠ 20 then
      .error (.internal ("address should be 20 bytes, got " ++ toString bytes.length))
    else .ok (ofWordBytes 160 bytes)

def parseBytes32Hex (s : String) : Except X402Error H256 :=
  match hexLoop (stripHexPrefix s) with
  | none => .error (.internal ("bad bytes32 hex: " ++ crypto.hexError (stripHexPrefix s)))
  | some bytes =>
    if bytes.length ≠ 32 then
      .error (.internal ("bytes32 should be 32 bytes, got " ++ toString bytes.length))
    else .ok (ofWordBytes 256 bytes)

/-- The authorization of a challenge, signed with the address of the client. -/
def authorize (client : X402Client) (challenge : PaymentChallenge) :
    Except X402Error PaymentPayload :=
  if challenge.chainId ≠ client.chainId then
    .error (.internal ("server challenge chain_id " ++ toString challenge.chainId.toNat ++
      " != client chain_id " ++ toString client.chainId.toNat))
  else
    match fromDecStr challenge.amount with
    | none => .error (.internal ("bad challenge amount: " ++ crypto.decError challenge.amount))
    | some amount =>
      if client.budgetCapWei < amount then
        .error (.budgetExceeded challenge.amount (toDecStr client.budgetCapWei))
      else do
        let recipient ← parseAddrHex crypto challenge.recipient
        let nonce ← parseBytes32Hex crypto challenge.nonce
        let validAfter : U256 := BitVec.ofNat 256 challenge.validAfter.toNat
        let validBefore : U256 := BitVec.ofNat 256 challenge.validBefore.toNat
        let domainSep := wsaltDomainSeparator crypto.toCrypto challenge.chainId client.wsaltAddress
        let structHash := transferWithAuthorizationStructHash crypto.toCrypto client.payerAddress
          recipient amount validAfter validBefore nonce
        let ourDigest := eip712Digest crypto.toCrypto domainSep structHash
        let (v, r, s) ← signDigestSecp256k1 crypto client.secret ourDigest
        return ⟨client.payerAddress, recipient, amount, validAfter, validBefore, nonce, v, r, s⟩

/-- Pay the challenge of a body, and send the request again with the payment. -/
def payAndRetry (client : X402Client) (body : format.Value) :
    Prog (ClientSig format.Value) (Except X402Error (HttpResponse format.Value)) :=
  match parseChallenge format body >>= authorize crypto client with
  | .error e => return .error e
  | .ok payload => do
    match ← send format.Value (some (encode crypto payload)) with
    | .error e => return .error (.rpcTransport ("retry failed: " ++ e))
    | .ok resp2 => return .ok resp2

/-- Send a request, and once more with a payment when it is answered with 402. -/
def sendPaid (client : X402Client) (clonable : Bool) :
    Prog (ClientSig format.Value) (Except X402Error (HttpResponse format.Value)) :=
  if client.secret = 0 then return .error .unsupportedKeyType
  else if !clonable then return .error (.internal "request body is not clonable")
  else do
    match ← send format.Value none with
    | .error e => return .error (.rpcTransport ("request failed: " ++ e))
    | .ok resp =>
      if resp.status ≠ 402 then return .ok resp
      else
        match resp.json with
        | .error e => return .error (.rpcTransport ("402 body decode: " ++ e))
        | .ok body => payAndRetry crypto format client body

end Client
end X402
