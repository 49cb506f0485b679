import CitrateGateway.Gateway.Handlers
import CitrateGateway.Shared.Interp

/-!
# The layers in front of the handlers

A request meets the API-key layer first and the x402 layer behind it; both price its body the
same way. A key that can pay is debited the price before the request goes on, and gets back
what its response did not cost.
-/

namespace Gateway.App
set_option autoImplicit false
open Words Effects X402

structure Request where
  route : Route
  line : RequestLine
  authorization : Option String
  contentType : Option String
  paymentHeader : Option Bytes
  deriving DecidableEq

/-- A request on its way to the inner services: its body once it was buffered, and the markers
that the layers attached. -/
structure Forwarded where
  req : Request
  body : Option Bytes
  paid : Option X402Paid
  key : Option ApiKeyContext
  deriving DecidableEq

variable (config : AppConfig)

section Pricing

def quoteChat (req : ChatCompletionRequest) : M (Except PricingError U256) := do
  match ← resolveModelName req.model with
  | .error e => return .error (.oracleUnavailable e.display)
  | .ok modelHash =>
    match ← estimateCost modelHash (estimateInputTokens req.messages) (outputTokens config req)
        defaultVerificationTier with
    | .error e => return .error (.oracleUnavailable e.display)
    | .ok cost => return .ok cost

/-- The quote of a request that its handler will refuse. -/
def fallbackQuote : M (Except PricingError U256) := do
  match ← resolveModelName config.defaultModel with
  | .error e => return .error (.oracleUnavailable e.display)
  | .ok modelHash =>
    match ← estimateCost modelHash assumedInputTokens assumedOutputTokens
        defaultVerificationTier with
    | .error e => return .error (.oracleUnavailable e.display)
    | .ok cost => return .ok cost

def unquotable (req : ChatCompletionRequest) : Bool :=
  req.messages.isEmpty || req.maxTokens.any (config.maxTokensCeiling < ·)

def quoteBatch (total : U256) : List ChatCompletionRequest → M (Except PricingError U256)
  | [] => return .ok total
  | r :: rs =>
    if unquotable config r then fallbackQuote config
    else do
      match ← quoteChat config r with
      | .error e => return .error e
      | .ok cost =>
        let (next, overflow) := overflowingAdd total cost
        if overflow then return .error (.notPriceable "quoted cost overflow")
        else quoteBatch next rs

def tooManyModels (requests : List ChatCompletionRequest) : PricingError :=
  .notPriceable ("max " ++ toString maxDistinctBatchModels ++
    " distinct models per batch (got " ++ toString (distinctModels requests) ++ ")")

/-- The price of a body: of a chat request if it reads as one, else of a batch. -/
def priceFor (body : Bytes) : M (Except PricingError U256) :=
  match config.format.fromSlice body with
  | .error e => return .error (.notPriceable ("request body is not valid JSON: " ++ e))
  | .ok value =>
    match config.format.chatFromValue value with
    | .ok chat => quoteChat config chat
    | .error _ =>
      match config.format.batchFromValue value with
      | .error e => return .error (.notPriceable ("request shape is not priceable: " ++ e))
      | .ok requests =>
        if requests.isEmpty then fallbackQuote config
        else if maxBatchSize < requests.length then fallbackQuote config
        else if maxDistinctBatchModels < distinctModels requests then
          return .error (tooManyModels requests)
        else quoteBatch config 0 requests

end Pricing

section Routes

def errorResponse (e : GatewayError) : Response := ⟨e.httpStatus, .error e, none⟩

def rejected (r : JsonRejection) : Response := ⟨r.httpStatus, .rejection r, none⟩

def missingExtension : Response := ⟨500, .missingExtension, none⟩

def Handled.response : Handled → Response
  | .error e => errorResponse e
  | .ok (reply, charge) => ⟨200, .reply reply, charge⟩

/-- The body of a request that no layer buffered is read here. -/
def readBody (fwd : Forwarded) : M (Except String Bytes) :=
  match fwd.body with
  | some bytes => return .ok bytes
  | none => layer .bufferRequestBody

/-- The extractors of the route, and its handler. -/
def routeService (fwd : Forwarded) : M Response := do
  match ← readBody fwd with
  | .error e => respond (rejected (.bytes e))
  | .ok bytes =>
    match fwd.req.route with
    | .chat =>
      match config.format.extractChat fwd.req.contentType bytes with
      | .error r => respond (rejected r)
      | .ok req =>
        serve .chat fwd.paid fwd.key
        let handled ← chatCompletionsHandler config fwd.key fwd.paid req
        respond (Handled.response handled)
    | .batch =>
      match fwd.paid with
      | none => respond missingExtension
      | some paid =>
        match config.format.extractBatch fwd.req.contentType bytes with
        | .error r => respond (rejected r)
        | .ok requests =>
          serve .batch (some paid) fwd.key
          let handled ← submitBatchHandler config paid fwd.key requests
          respond (Handled.response handled)

end Routes

section Payment

/-- What the x402 layer carries along: the buffered body, the marker, and the inner answer. -/
structure Passing where
  body : Option Bytes
  paid : Option X402Paid
  answered : Option Response

/-- The operations of the x402 layer in front of the routes. -/
def runLayerOp (fwd : Forwarded) (s : Passing) : (o : X402.Op) → M (o.Ans × Passing)
  | .bufferRequestBody =>
    match s.body with
    | some bytes => return (.ok bytes, s)
    | none => do
      match ← layer .bufferRequestBody with
      | .error e => return (.error e, s)
      | .ok bytes => return (.ok bytes, { s with body := some bytes })
  | .priceFor _ body => do
    let price ← priceFor config body
    return (price, s)
  | .innerCall inserted => return ((), { s with paid := inserted.or s.paid })
  | .innerResponse => do
    let r ← routeService config { fwd with body := s.body, paid := s.paid }
    return (.ok ⟨r.status, .served ""⟩, { s with answered := some r })
  | o => do
    let a ← layer o
    return (a, s)

/-- The layer hands on what the inner service answered, and answers itself otherwise. -/
def x402Service (fwd : Forwarded) : M (Except String Response) := do
  let call := X402.call config.crypto config.x402 ⟨fwd.req.line, fwd.req.paymentHeader, fwd.paid⟩
  let (result, s) ← call.interp (runLayerOp config fwd) ⟨fwd.body, fwd.paid, none⟩
  match s.answered with
  | some r => return .ok r
  | none => return result.map fun r => ⟨r.status, .layer r.body, none⟩

end Payment

section Keys

def extractBearer (authorization : Option String) : Option String := do
  let rest ← (← authorization).toList.dropPrefix? "Bearer ".toList
  let key := trim (String.ofList rest)
  if key.isEmpty then none else some key

def build401 (msg : String) : Response := ⟨401, .message msg, none⟩

def build400 (msg : String) : Response := ⟨400, .message msg, none⟩

def attachDepositHint (r : Response) (deposit : H160) : Response :=
  if r.status ≠ 402 then r else { r with body := .withDeposit r.body deposit }

/-- The marker that lets a debited request pass the x402 layer. -/
def debitMarker (deposit : H160) (price : U256) : X402Paid := ⟨deposit, price, 0, 0⟩

/-- Give back what a debited request did not cost. -/
def settleApiKeyResponse (keyId : String) (debited : U256) (r : Response) : M Response := do
  if r.isSuccess then
    match r.charge with
    | some amount =>
      if amount.toNat < debited.toNat then
        let _ ← keys (.refund keyId (debited - amount))
        return r
      else return r
    | none => return r
  else
    let _ ← keys (.refund keyId debited)
    return r

/-- A key that cannot pay goes on to the x402 challenge. -/
def exhausted (inner : Forwarded → M (Except String Response)) (fwd : Forwarded)
    (deposit : H160) : M (Except String Response) := do
  match ← inner fwd with
  | .error e => return .error e
  | .ok r => return .ok (attachDepositHint r deposit)

def funded (inner : Forwarded → M (Except String Response)) (fwd : Forwarded) (keyId : String)
    (record : ApiKeyRecord) (price : U256) : M (Except String Response) := do
  let marked := { fwd with
    paid := some (debitMarker record.depositAddress price)
    key := some ⟨keyId, record.backing⟩ }
  match ← inner marked with
  | .error e => return .error e
  | .ok r =>
    let settled ← settleApiKeyResponse keyId price r
    return .ok settled

/-- The API-key layer around one request. -/
def apiKeyService (inner : Forwarded → M (Except String Response)) (req : Request) :
    M (Except String Response) :=
  match extractBearer req.authorization with
  | none => inner ⟨req, none, none, none⟩
  | some keyId => do
    match ← keys (.get keyId) with
    | none => return .ok (build401 "unknown api key")
    | some record =>
      if record.revoked then return .ok (build401 "api key revoked")
      else
        match ← layer .bufferRequestBody with
        | .error e => return .ok (build400 e)
        | .ok body =>
          match ← priceFor config body with
          | .error e => return .ok (build400 e.display)
          | .ok price =>
            let fwd : Forwarded := ⟨req, some body, none, none⟩
            if record.balanceGrains.toNat < price.toNat then
              exhausted inner fwd record.depositAddress
            else
              match ← keys (.debit keyId price) with
              | .ok _ => funded inner fwd keyId record price
              | .error _ => exhausted inner fwd record.depositAddress

/-- A request to one of the paid routes. -/
def handleRequest (req : Request) : M (Except String Response) :=
  apiKeyService config (x402Service config) req

end Keys
end Gateway.App
