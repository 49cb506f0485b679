import CitrateGateway.Shared.System
import CitrateGateway.X402.Digest
import CitrateGateway.X402.NonceLedger
import CitrateGateway.X402.Settlement

/-!
# The x402 layer

`call` is the middleware around one request: price it, challenge it when it is unpaid, and
otherwise validate the payment, serve the request and settle only after a 2xx response.
Everything the layer awaits is an operation; the nonce ledger is the only state that
requests share.
-/

namespace X402
set_option autoImplicit false
open Words Effects

structure X402Config where
  chainId : UInt64
  facilitatorAddress : H160
  wsaltAddress : H160
  treasury : H160
  operatorSecret : H256
  operatorAddress : H160
  gasPriceWei : UInt64 := 1000000000
  gasLimit : UInt64 := 200000
  challengeTtlSecs : UInt64 := 300
  receiptTimeoutSecs : UInt64 := 10
  maxOutstanding : Nat := defaultMaxOutstanding

/-- A request: what it commits to, its `x-payment` header when that is printable, and the
marker that an upstream layer may have attached. The body arrives later. -/
structure Request where
  line : RequestLine
  paymentHeader : Option Bytes
  x402Paid : Option X402Paid
  deriving DecidableEq

inductive ReplyBody where
  | served (body : String)
  | badRequest (reason : String)
  | internal (reason : String)
  | paymentRequired (challenge : PaymentChallenge) (reason detail : Option String)
  | failed (reason detail : String)
  deriving DecidableEq

structure Response where
  status : Nat
  body : ReplyBody
  deriving DecidableEq

def Response.isSuccess (r : Response) : Bool := 200 ≤ r.status && r.status < 300

def build400Response (reason : String) : Response := ⟨400, .badRequest reason⟩

def build402Response (challenge : PaymentChallenge) (reason detail : Option String) : Response :=
  ⟨402, .paymentRequired challenge reason detail⟩

def build500Response (reason : String) : Response := ⟨500, .internal reason⟩

def buildErrorResponse (err : X402Error) : Response :=
  ⟨err.httpStatus, .failed err.reason err.display⟩

inductive PricingError where
  | notPriceable (msg : String)
  | oracleUnavailable (msg : String)
  deriving DecidableEq

def PricingError.display : PricingError → String
  | notPriceable msg => "request not priceable: " ++ msg
  | oracleUnavailable msg => "oracle unavailable: " ++ msg

def nonceEntropyError : String :=
  "OS entropy unavailable: refusing to mint a predictable payment nonce"

structure SettledEvent where
  payer : H160
  amountWei : U256
  feeWei : U256
  nonce : H256
  txHash : H256
  blockNumber : UInt64
  deriving DecidableEq

structure RejectedEvent where
  reason : String
  httpStatus : Nat
  payer : Option H160
  deriving DecidableEq

section Operations

/-- What a request does. A call of the inner service and the submission of a transaction
are each two operations, the call itself and the wait for its answer, so that a request can
be dropped in between. -/
inductive Op where
  | bufferRequestBody
  | priceFor (line : RequestLine) (body : Bytes)
  | nowUnixSecs
  | consumeBound (nonce requestCommitment : H256) (now : UInt64)
  | verifyOffline (precompileInput : Bytes)
  /-- Reach the inner service, with the marker this layer inserted. -/
  | innerCall (inserted : Option X402Paid)
  | innerResponse
  | getNonce (address : H160)
  | sendRawTx (raw : Bytes)
  | txAnswer (raw : Bytes)
  | waitForReceipt (txHash : H256) (timeoutSecs : UInt64)
  | onSettled (event : SettledEvent)
  | onRejected (event : RejectedEvent)
  | nextNonce
  | recordBound (nonce requestCommitment : H256) (expiresAt now : UInt64)
  deriving DecidableEq

abbrev Op.Ans : Op → Type
  | .bufferRequestBody => Except String Bytes
  | .priceFor _ _ => Except PricingError U256
  | .nowUnixSecs => UInt64
  | .consumeBound _ _ _ => Except NonceLedgerError Unit
  | .verifyOffline _ => Except X402Error (Option H160)
  | .innerCall _ => Unit
  | .innerResponse => Except String Response
  | .getNonce _ => Except X402Error UInt64
  | .sendRawTx _ => Unit
  | .txAnswer _ => Except X402Error H256
  | .waitForReceipt _ _ => Except X402Error TxReceipt
  | .onSettled _ => Unit
  | .onRejected _ => Unit
  | .nextNonce => Except Unit H256
  | .recordBound _ _ _ _ => Unit

instance : (o : Op) → DecidableEq o.Ans
  | .bufferRequestBody => inferInstanceAs (DecidableEq (Except String Bytes))
  | .priceFor _ _ => inferInstanceAs (DecidableEq (Except PricingError U256))
  | .nowUnixSecs => inferInstanceAs (DecidableEq UInt64)
  | .consumeBound _ _ _ => inferInstanceAs (DecidableEq (Except NonceLedgerError Unit))
  | .verifyOffline _ => inferInstanceAs (DecidableEq (Except X402Error (Option H160)))
  | .innerCall _ | .sendRawTx _ | .onSettled _ | .onRejected _ | .recordBound _ _ _ _ =>
    inferInstanceAs (DecidableEq Unit)
  | .innerResponse => inferInstanceAs (DecidableEq (Except String Response))
  | .getNonce _ => inferInstanceAs (DecidableEq (Except X402Error UInt64))
  | .txAnswer _ => inferInstanceAs (DecidableEq (Except X402Error H256))
  | .waitForReceipt _ _ => inferInstanceAs (DecidableEq (Except X402Error TxReceipt))
  | .nextNonce => inferInstanceAs (DecidableEq (Except Unit H256))

abbrev LayerSig : Sig := ⟨Op, Op.Ans⟩

abbrev M := Prog LayerSig

def bufferRequestBody : M (Except String Bytes) := .perform (E := LayerSig) .bufferRequestBody

def priceFor (line : RequestLine) (body : Bytes) : M (Except PricingError U256) :=
  .perform (E := LayerSig) (.priceFor line body)

def nowUnixSecs : M UInt64 := .perform (E := LayerSig) .nowUnixSecs

def consumeBound (nonce requestCommitment : H256) (now : UInt64) :
    M (Except NonceLedgerError Unit) :=
  .perform (E := LayerSig) (.consumeBound nonce requestCommitment now)

def verifyOffline (precompileInput : Bytes) : M (Except X402Error (Option H160)) :=
  .perform (E := LayerSig) (.verifyOffline precompileInput)

def innerCall (inserted : Option X402Paid) : M (Except String Response) := do
  Prog.perform (E := LayerSig) (.innerCall inserted)
  Prog.perform (E := LayerSig) .innerResponse

def getNonce (address : H160) : M (Except X402Error UInt64) :=
  .perform (E := LayerSig) (.getNonce address)

def sendRawTx (raw : Bytes) : M (Except X402Error H256) := do
  Prog.perform (E := LayerSig) (.sendRawTx raw)
  Prog.perform (E := LayerSig) (.txAnswer raw)

def waitForReceipt (txHash : H256) (timeoutSecs : UInt64) : M (Except X402Error TxReceipt) :=
  .perform (E := LayerSig) (.waitForReceipt txHash timeoutSecs)

def onSettled (event : SettledEvent) : M Unit :=
  .perform (E := LayerSig) (.onSettled event)

def onRejected (event : RejectedEvent) : M Unit :=
  .perform (E := LayerSig) (.onRejected event)

def nextNonce : M (Except Unit H256) := .perform (E := LayerSig) .nextNonce

def recordBound (nonce requestCommitment : H256) (expiresAt now : UInt64) : M Unit :=
  .perform (E := LayerSig) (.recordBound nonce requestCommitment expiresAt now)

end Operations

section Service
variable (crypto : Crypto) (config : X402Config)

def makeChallenge (amountWei : U256) (requestCommitment : H256) :
    M (Except X402Error PaymentChallenge) := do
  match ← nextNonce with
  | .error _ => return .error (.internal ("challenge refused: " ++ nonceEntropyError))
  | .ok nonce =>
    let nowUnix ← nowUnixSecs
    match buildChallenge crypto {
      chainId := config.chainId
      facilitator := config.facilitatorAddress
      wsalt := config.wsaltAddress
      recipient := config.treasury
      amountWei := amountWei
      payer := 0
      nonce := nonce
      nowUnix := nowUnix
      ttlSecs := config.challengeTtlSecs
      requestCommitment := requestCommitment } with
    | .error e => return .error e
    | .ok built =>
      recordBound nonce requestCommitment (nowUnix + config.challengeTtlSecs) nowUnix
      return .ok built.challenge

inductive ValidateOutcome where
  | validated (payload : PaymentPayload)
  | reject (err : X402Error)
  | serverError (err : X402Error)

def precompileInput (payload : PaymentPayload) : Bytes :=
  wordBytes 32 (wsaltDomainSeparator crypto config.chainId config.wsaltAddress) ++
    payload.toBytes

def belowPrice (payload : PaymentPayload) (price : U256) : X402Error :=
  .internal ("authorized amount " ++ toDecStr payload.value ++ " wei below price " ++
    toDecStr price ++ " wei")

/-- Everything a payment must pass before it is served; no money moves here. -/
def validatePaidPath (headerValue : Bytes) (price : U256) (requestCommitment : H256) :
    M ValidateOutcome := do
  match decode crypto headerValue with
  | .error e => return .reject e
  | .ok payload =>
    let now ← nowUnixSecs
    if payload.validBefore.toNat ≤ now.toNat ∨ now.toNat < payload.validAfter.toNat then
      return .reject .expired
    else
      let consumedAt ← nowUnixSecs
      match ← consumeBound payload.nonce requestCommitment consumedAt with
      | .error _ => return .reject .challengeNotIssued
      | .ok () =>
        if payload.value < price then
          return .reject (belowPrice payload price)
        else
          match ← verifyOffline (precompileInput crypto config payload) with
          | .error e => return .serverError e
          | .ok none => return .reject .invalidSignature
          | .ok (some signer) =>
            if signer ≠ payload.«from» then return .reject .invalidSignature
            else if payload.«to» ≠ config.treasury then return .reject .recipientNotTreasury
            else return .validated payload

def settlementTx (payload : PaymentPayload) (opNonce : UInt64) : SettlementTx where
  chainId := config.chainId
  nonce := opNonce
  gasPriceWei := config.gasPriceWei
  gasLimit := config.gasLimit
  «to» := config.facilitatorAddress
  value := 0
  data := encodeSettlePayment crypto payload

def eventMismatch (settled : PaymentSettledEvent) (gross : U256) (payload : PaymentPayload)
    (price : U256) : X402Error :=
  .facilitatorReverted ("PaymentSettled event does not match submitted payload " ++
    "(event from=" ++ hexAddr settled.«from» ++ " to=" ++ hexAddr settled.«to» ++ " gross=" ++
    toDecStr gross ++ "; expected from=" ++ hexAddr payload.«from» ++ " to=" ++
    hexAddr config.treasury ++ " price>=" ++ toDecStr price ++ ")")

/-- Submit the settlement and check the event it emitted. Runs only after a 2xx response. -/
def settlePaidPath (payload : PaymentPayload) (price : U256) :
    M (Except X402Error SettledEvent) := do
  match ← getNonce config.operatorAddress with
  | .error e => return .error e
  | .ok opNonce =>
    match signSettlementTx crypto (settlementTx crypto config payload opNonce)
        config.operatorSecret with
    | .error e => return .error e
    | .ok raw =>
      match ← sendRawTx raw with
      | .error e => return .error e
      | .ok txHash =>
        match ← waitForReceipt txHash config.receiptTimeoutSecs with
        | .error e => return .error e
        | .ok receipt =>
          if !receipt.status then
            return .error (.settleReverted (hexEncode (wordBytes 32 txHash)))
          else
            match findPaymentSettled crypto receipt config.facilitatorAddress with
            | none =>
              return .error (.facilitatorReverted "no PaymentSettled event in receipt")
            | some settled =>
              let gross := saturatingAdd settled.value settled.fee
              if settled.«from» ≠ payload.«from» ∨ settled.«to» ≠ config.treasury ∨
                  gross < price then
                return .error (eventMismatch config settled gross payload price)
              else
                return .ok {
                  payer := settled.«from»
                  amountWei := settled.value
                  feeWei := settled.fee
                  nonce := settled.nonce
                  txHash := txHash
                  blockNumber := receipt.blockNumber }

def rejectedEvent (err : X402Error) (payer : Option H160) : RejectedEvent :=
  ⟨err.reason, err.httpStatus, payer⟩

/-- What a validated payment attaches to the request before it is served. -/
def paidMarker (payload : PaymentPayload) : X402Paid where
  payer := payload.«from»
  amountWei := payload.value
  nonce := payload.nonce
  settleTxHash := 0

/-- Serve a validated request, then settle exactly when the response is a success. -/
def serveThenSettle (payload : PaymentPayload) (price : U256) : M (Except String Response) := do
  match ← innerCall (some (paidMarker payload)) with
  | .error e => return .error e
  | .ok response =>
    if response.isSuccess then
      match ← settlePaidPath crypto config payload price with
      | .ok settled => onSettled settled
      | .error err => onRejected (rejectedEvent err (some payload.«from»))
      return .ok response
    else return .ok response

def challengeUnpaid (price : U256) (commitment : H256) : M (Except String Response) := do
  match ← makeChallenge crypto config price commitment with
  | .ok challenge => return .ok (build402Response challenge none none)
  | .error e => return .ok (build500Response e.display)

def rejectPayment (err : X402Error) (price : U256) (commitment : H256) :
    M (Except String Response) := do
  onRejected (rejectedEvent err none)
  match ← makeChallenge crypto config price commitment with
  | .ok challenge =>
    return .ok (build402Response challenge (some err.reason) (some err.display))
  | .error e => return .ok (build500Response e.display)

/-- The middleware around one request. -/
def call (req : Request) : M (Except String Response) := do
  if req.x402Paid.isSome then
    innerCall none
  else
    match ← bufferRequestBody with
    | .error e => return .ok (build400Response e)
    | .ok body =>
      let commitment := requestCommitment crypto req.line body
      match ← priceFor req.line body with
      | .error e => return .ok (build400Response e.display)
      | .ok price =>
        match req.paymentHeader with
        | none => challengeUnpaid crypto config price commitment
        | some headerValue =>
          match ← validatePaidPath crypto config headerValue price commitment with
          | .validated payload => serveThenSettle crypto config payload price
          | .reject err => rejectPayment crypto config err price commitment
          | .serverError err =>
            onRejected (rejectedEvent err none)
            return .ok (buildErrorResponse err)

end Service

section Requests
variable (crypto : Crypto) (config : X402Config)

/-- The shared ledger answers its own operations; every other answer is the environment's. -/
def handle (st : LedgerState) : (o : Op) → LayerSig.Event → Option (o.Ans × LedgerState)
  | .consumeBound nonce commitment now, _ => some (st.consumeBound nonce commitment now)
  | .recordBound nonce commitment expiresAt now, _ =>
    some ((), st.recordBound config.maxOutstanding nonce commitment expiresAt now)
  | o, e => (System.offered (E := LayerSig) o e).map fun a => (a, st)

/-- Any number of requests through one layer. -/
abbrev layer : System LayerSig where
  Shared := LedgerState
  Job := Request
  Res := Except String Response
  Input := LayerSig.Event
  World := Empty
  prog := call crypto config
  onStart := fun st _ => some st
  handle := fun st _ o e => handle config st o e
  leave := fun st _ => st
  spawn := fun _ => none
  world := fun _ w => nomatch w
  halts := fun w => nomatch w

end Requests
end X402
