import CitrateGateway.Gateway.App

/-!
# The chat and batch handlers

A paid request is quoted again by its handler and refused when the payment does not cover the
quote. A dispatch tries at most three providers. A batch is recorded with the quote of every
slot, dispatched slot by slot by a task of its own, and settled when every slot is over.
-/

namespace Gateway.App
set_option autoImplicit false
open Words Effects X402

variable (config : AppConfig)

section Quotes

def outputTokens (req : ChatCompletionRequest) : UInt32 :=
  (clampMaxTokens req.maxTokens config.maxTokensCeiling).getD defaultMaxTokens

/-- The exact charge of a chat request, and the output tokens that it is priced for. -/
def quoteChatRequestCost (req : ChatCompletionRequest) :
    M (Except GatewayError (U256 × UInt32)) := do
  let requestedTokens := outputTokens config req
  let realInputTokens := estimateInputTokens req.messages
  match ← resolveModelName req.model with
  | .error _ => return .error (.unknownModel req.model)
  | .ok modelHash =>
    match ← estimateCost modelHash realInputTokens requestedTokens defaultVerificationTier with
    | .error e => return .error (.pricingUnavailable e.display)
    | .ok actualCost => return .ok (actualCost, requestedTokens)

end Quotes

section Dispatch

def maxProviderAttempts : Nat := 3

def boundedProviderTokenCounts (req : ChatCompletionRequest) (prompt : String)
    (resp : ProviderProtocolResponse) : UInt32 × UInt32 :=
  let promptTokens := resp.inputTokens.getD (UInt32.ofNat (wordCount prompt))
  let completionTokens := resp.outputTokens.getD (UInt32.ofNat (wordCount resp.output))
  (min promptTokens (estimateInputTokens req.messages),
    min completionTokens (outputTokens config req))

/-- A result is taken only from its provider, for the model that was asked for. -/
def acceptable (modelHash : H256) (prompt : String) (provider : ProviderInfo)
    (resp : ProviderProtocolResponse) : Bool :=
  let sigValid := resp.signature.map
    (verifyResultBinding config.resultCrypto provider.address modelHash prompt resp.output)
  !resp.output.isEmpty && resultAcceptable sigValid config.requireSignedResults

def unverified : GatewayError :=
  .providerUnavailable "provider returned an unverified or empty result"

/-- Try a provider; one that fails is not asked again. -/
def failover (req : ChatCompletionRequest) (modelHash : H256) (prompt : String) :
    Nat → Option GatewayError → List ProviderInfo → M (Except GatewayError DispatchOutcome)
  | 0, lastErr, _ => return .error (lastErr.getD .noProviders)
  | attempts + 1, lastErr, providers =>
    match selectProvider providers with
    | none => return .error (lastErr.getD .noProviders)
    | some chosen => do
      let rest := providers.filter (·.address ≠ chosen.address)
      match ← dispatchToProvider chosen ⟨req.model, prompt, outputTokens config req⟩ with
      | .error e => failover req modelHash prompt attempts (some e) rest
      | .ok resp =>
        if acceptable config modelHash prompt chosen resp then
          let counts := boundedProviderTokenCounts config req prompt resp
          return .ok ⟨resp.output, prompt, counts.1, counts.2⟩
        else failover req modelHash prompt attempts (some unverified) rest

def runDispatch (req : ChatCompletionRequest) : M (Except GatewayError DispatchOutcome) := do
  match ← resolveModelName req.model with
  | .error _ => return .error (.unknownModel req.model)
  | .ok modelHash =>
    match ← listProviders modelHash with
    | .error e => return .error (.chainUnavailable e.display)
    | .ok providers =>
      let pools := (← listPools modelHash).toOption.getD []
      if providers.isEmpty ∧ pools.isEmpty then return .error .noProviders
      else
        match selectDispatchTarget providers pools with
        | none => unwind
        | some (some (.pool pl)) => return .error (.poolDispatchUnimplemented pl.name)
        | some _ =>
          if providers.isEmpty then return .error .noProviders
          else
            failover config req modelHash (buildPrompt req.messages) maxProviderAttempts none
              providers

def jsonResponse (req : ChatCompletionRequest) (d : DispatchOutcome) :
    M ChatCompletionResponse := do
  let uuid ← newUuid
  let created ← nowUnixSecs
  return {
    id := "chatcmpl-" ++ uuid
    created := created
    model := req.model
    choices := [⟨0, ⟨"assistant", d.output⟩, "stop"⟩]
    usage := .new d.promptTokens d.completionTokens }

def streamResponse (req : ChatCompletionRequest) (d : DispatchOutcome) : M Reply := do
  let uuid ← newUuid
  let created ← nowUnixSecs
  return .stream ("chatcmpl-" ++ uuid) created req.model d.output

end Dispatch

section Chat

/-- What a handler gives back: a reply, and the charge that it accepted for the key. -/
abbrev Handled := Except GatewayError (Reply × Option U256)

structure ChatCharge where
  accepted : Option U256
  modelDebited : Bool
  deriving DecidableEq

/-- Quote a paid request, check the payment and take the quote from the key's model budget. -/
def acceptCharge (apiKey : Option ApiKeyContext) (paid : Option X402Paid)
    (req : ChatCompletionRequest) : M (Except GatewayError ChatCharge) :=
  match paid with
  | none => return .ok ⟨none, false⟩
  | some pay => do
    match ← quoteChatRequestCost config req with
    | .error e => return .error e
    | .ok (actualCost, requestedTokens) =>
      if pay.amountWei.toNat < actualCost.toNat then
        return .error (.underfunded (toDecStr pay.amountWei) (toDecStr actualCost)
          requestedTokens)
      else
        match apiKey with
        | none => return .ok ⟨some actualCost, false⟩
        | some ctx =>
          match ← keys (.debitModelBudget ctx.keyId req.model actualCost) with
          | .ok () => return .ok ⟨some actualCost, true⟩
          | .error (.exceeded remaining) =>
            return .error (.modelBudgetExceeded req.model (toDecStr remaining))
          | .error _ => return .ok ⟨some actualCost, false⟩

/-- Give the model budget back what was taken from it. -/
def refundModel (apiKey : Option ApiKeyContext) (req : ChatCompletionRequest)
    (charge : ChatCharge) : M Unit :=
  match charge.modelDebited, apiKey, charge.accepted with
  | true, some ctx, some cost => keys (.refundModelBudget ctx.keyId req.model cost)
  | _, _, _ => return ()

def emitUsage (apiKey : Option ApiKeyContext) (charge : ChatCharge) (d : DispatchOutcome) :
    M Unit :=
  match apiKey, charge.accepted with
  | some ctx, some cost => recordUsage ctx.keyId d.promptTokens d.completionTokens cost
  | _, _ => return ()

def chatReply (req : ChatCompletionRequest) (d : DispatchOutcome) : M Reply := do
  if req.stream then streamResponse req d
  else
    let c ← jsonResponse req d
    return .completion c

/-- The output budget as every later step sees it. -/
def clamped (req : ChatCompletionRequest) : ChatCompletionRequest :=
  { req with maxTokens := clampMaxTokens req.maxTokens config.maxTokensCeiling }

def chatCompletionsHandler (apiKey : Option ApiKeyContext) (paid : Option X402Paid)
    (req : ChatCompletionRequest) : M Handled :=
  if req.messages.isEmpty then return .error (.badRequest "messages must be non-empty")
  else do
    let req := clamped config req
    match ← acceptCharge config apiKey paid req with
    | .error e => return .error e
    | .ok charge =>
      match ← runDispatch config req with
      | .error e =>
        refundModel apiKey req charge
        return .error e
      | .ok d =>
        emitUsage apiKey charge d
        let reply ← chatReply req d
        return .ok (reply, if apiKey.isSome then charge.accepted else none)

end Chat

section Batch

def maxBatchSize : Nat := 1000

def maxDistinctBatchModels : Nat := 32

def distinctModels (requests : List ChatCompletionRequest) : Nat :=
  (requests.map (·.model)).dedup.length

/-- The first request of a batch that its handler refuses, with what it says. -/
def findInvalid (ceiling : UInt32) : Nat → List ChatCompletionRequest → Option GatewayError
  | _, [] => none
  | i, r :: rs =>
    if r.messages.isEmpty then
      some (.badRequest ("requests[" ++ toString i ++ "].messages must be non-empty"))
    else if r.maxTokens.any (ceiling < ·) then
      some (.badRequest ("requests[" ++ toString i ++
        "].max_tokens exceeds the maximum output-token ceiling of " ++ toString ceiling.toNat))
    else findInvalid ceiling (i + 1) rs

/-- What the handler checks of a batch before it quotes it. -/
def batchRefusal (requests : List ChatCompletionRequest) : Option GatewayError :=
  if requests.isEmpty then some (.badRequest "requests must be non-empty")
  else if maxBatchSize < requests.length then
    some (.badRequest ("max " ++ toString maxBatchSize ++ " requests per batch (got " ++
      toString requests.length ++ ")"))
  else if maxDistinctBatchModels < distinctModels requests then
    some (.badRequest ("max " ++ toString maxDistinctBatchModels ++
      " distinct models per batch (got " ++ toString (distinctModels requests) ++ ")"))
  else findInvalid config.maxTokensCeiling 0 requests

structure BatchQuote where
  totalRequired : U256
  largestRequestedTokens : UInt32
  slots : List RequestSlot

/-- Quote the requests in order and add the quotes up. -/
def quoteSlots (acc : BatchQuote) : List ChatCompletionRequest →
    M (Except GatewayError BatchQuote)
  | [] => return .ok acc
  | r :: rs => do
    let request := clamped config r
    match ← quoteChatRequestCost config request with
    | .error e => return .error e
    | .ok (cost, requestedTokens) =>
      let (nextTotal, overflow) := overflowingAdd acc.totalRequired cost
      if overflow then return .error (.pricingUnavailable "batch quote overflow")
      else
        quoteSlots {
          totalRequired := nextTotal
          largestRequestedTokens := max acc.largestRequestedTokens requestedTokens
          slots := acc.slots ++ [⟨.pending, request, cost, none, none⟩] } rs

def buildStatus (r : BatchRecord) (readToken : Option String) : BatchStatusResponse where
  batchId := r.id
  status := r.status
  requestCount := r.requestCount
  completedCount := r.completedCount
  erroredCount := r.erroredCount
  createdAt := r.createdAt
  paidEscrowGrains := toDecStr r.paidEscrowGrains
  releasedGrains := toDecStr r.releasedGrains
  refundedGrains := toDecStr r.refundedGrains
  readToken := readToken

/-- Only a batch without an owning key is read with a token of its own. -/
def mintReadToken (apiKey : Option ApiKeyContext) : M (Option String) :=
  match apiKey with
  | some _ => return none
  | none => do
    let uuid ← newUuid
    return some ("brt_" ++ uuid)

/-- Persist the first snapshot, whether that works or not, and open the record to readers. -/
def insertBatch (record : BatchRecord) : M Unit := do
  if config.persist then
    let _ ← store (.persistBatch record.id (.fromRecord record false))
    live (.insert record.id record)
  else live (.insert record.id record)

def submitBatchHandler (paid : X402Paid) (apiKey : Option ApiKeyContext)
    (requests : List ChatCompletionRequest) : M Handled :=
  match batchRefusal config requests with
  | some e => return .error e
  | none => do
    match ← quoteSlots config ⟨0, defaultMaxTokens, []⟩ requests with
    | .error e => return .error e
    | .ok quote =>
      if paid.amountWei.toNat < quote.totalRequired.toNat then
        return .error (.underfunded (toDecStr paid.amountWei) (toDecStr quote.totalRequired)
          quote.largestRequestedTokens)
      else
        let uuid ← newUuid
        let readToken ← mintReadToken apiKey
        let created ← nowUnixSecs
        let record : BatchRecord := {
          id := "batch_" ++ uuid
          status := .submitted
          paidEscrowGrains := quote.totalRequired
          releasedGrains := 0
          refundedGrains := 0
          payerApiKeyId := apiKey.map (·.keyId)
          x402Payer := if apiKey.isNone then some paid.payer else none
          readTokenHash := readToken.map config.hashKeyId
          slots := quote.slots
          createdAt := created }
        insertBatch config record
        let current ← live (.read record.id)
        spawnProcessBatch record.id
        return .ok (.batch (buildStatus current readToken),
          if apiKey.isSome then some quote.totalRequired else none)

end Batch

section Processing

/-- The credit, the obligation or the bare marker that a terminal batch is settled with. -/
def settlePersisted (batchId : String) (payer : Option String) (x402Payer : Option H160)
    (refund : U256) (terminal : PersistedBatch) : M Unit :=
  if 0 < refund.toNat then
    match payer with
    | some keyId => do
      let _ ← store (.settleBatchRefund keyId refund batchId terminal)
      return ()
    | none => do
      let _ ← store (.recordRefundOwed batchId x402Payer refund terminal)
      return ()
  else do
    let _ ← store (.markBatchSettled batchId terminal)
    return ()

def settleBatch (record : BatchRecord) : M Unit :=
  if config.persist then
    settlePersisted record.id record.payerApiKeyId record.x402Payer record.refundedGrains
      (.fromRecord record true)
  else
    match record.payerApiKeyId with
    | some keyId =>
      if 0 < record.refundedGrains.toNat then do
        let _ ← keys (.refund keyId record.refundedGrains)
        return ()
      else return ()
    | none => return ()

def checkpoint (record : BatchRecord) : M Unit :=
  if config.persist then do
    let settled := (← store (.batchWasSettled record.id)).toOption.getD false
    let _ ← store (.persistBatch record.id (.fromRecord record settled))
    return ()
  else return ()

def processSlot (id : String) (i : Nat) : M Unit := do
  if ← live (.isTerminal id i) then return ()
  else
    live (.setDispatched id i)
    let request ← live (.request id i)
    let req := { request with stream := false }
    match ← runDispatch config req with
    | .ok outcome =>
      let response ← jsonResponse req outcome
      live (.done id i response)
    | .error e => live (.errored id i e.display)
    let record ← live (.read id)
    checkpoint config record

def processSlots (id : String) : List Nat → M Unit
  | [] => return ()
  | i :: rest => do
    processSlot config id i
    processSlots id rest

def processBatch (id : String) : M Unit := do
  live (.setRunning id)
  let count ← live (.slotCount id)
  processSlots config id (List.range count)
  let record ← live (.finish id)
  settleBatch config record

/-- A snapshot found at boot: settled unless it was, and opened to readers. -/
def recoverBatch (id : String) (snapshot : PersistedBatch) : M Unit := do
  let settled := (← store (.batchWasSettled id)).toOption.getD false
  if settled then live (.insert id snapshot.intoRecord)
  else
    let record := snapshot.intoRecord.reconcile
    settlePersisted id record.payerApiKeyId record.x402Payer record.refundedGrains
      (.fromRecord record true)
    live (.insert id record)

def recoverBatches : List (String × PersistedBatch) → M Unit
  | [] => return ()
  | (id, snapshot) :: rest => do
    recoverBatch id snapshot
    recoverBatches rest

def recover : M Unit :=
  if config.persist then do
    match ← store .loadBatches with
    | .error _ => return ()
    | .ok found => recoverBatches found
  else return ()

end Processing
end Gateway.App
