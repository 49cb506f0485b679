import CitrateGateway.Gateway.ApiKeys
import CitrateGateway.Gateway.Dispatch
import CitrateGateway.X402.Layer

/-!
# What the handlers work with

The operations of the handlers and layers: calls of the key store, queries of the chain,
requests to providers, the usage rows, the live batch records, and what the x402 layer does.
-/

namespace Gateway
set_option autoImplicit false
open Words Effects X402

inductive Route where
  | chat
  | batch
  deriving DecidableEq

structure ApiKeyContext where
  keyId : String
  backing : KeyBacking
  deriving DecidableEq

/-- Why the JSON extractor turned a body down. -/
inductive JsonRejection where
  | dataError (text : String)
  | syntaxError (text : String)
  | missingContentType
  | bytes (text : String)
  deriving DecidableEq

def JsonRejection.httpStatus : JsonRejection → Nat
  | dataError _ => 422
  | syntaxError _ => 400
  | missingContentType => 415
  | bytes _ => 413

structure BatchStatusResponse where
  batchId : String
  status : BatchStatus
  requestCount : Nat
  completedCount : Nat
  erroredCount : Nat
  createdAt : UInt64
  paidEscrowGrains : String
  releasedGrains : String
  refundedGrains : String
  readToken : Option String
  deriving DecidableEq

inductive Reply where
  | completion (c : ChatCompletionResponse)
  /-- One event with the whole output. -/
  | stream (id : String) (created : UInt64) (model output : String)
  | batch (b : BatchStatusResponse)
  deriving DecidableEq

inductive Body where
  | reply (r : Reply)
  | error (e : GatewayError)
  | rejection (r : JsonRejection)
  | missingExtension
  | message (text : String)
  | layer (b : ReplyBody)
  | withDeposit (b : Body) (address : H160)
  deriving DecidableEq

/-- A response; `charge` is the marker with the grains that the handler accepted. -/
structure App.Response where
  status : Nat
  body : Body
  charge : Option U256
  deriving DecidableEq

def App.Response.isSuccess (r : App.Response) : Bool := 200 ≤ r.status && r.status < 300

/-- The readers of a request body: the two extractors, and the JSON value that pricing reads. -/
structure BodyFormat where
  Value : Type
  extractChat : Option String → Bytes → Except JsonRejection ChatCompletionRequest
  extractBatch : Option String → Bytes → Except JsonRejection (List ChatCompletionRequest)
  fromSlice : Bytes → Except String Value
  chatFromValue : Value → Except String ChatCompletionRequest
  batchFromValue : Value → Except String (List ChatCompletionRequest)

structure AppConfig where
  maxTokensCeiling : UInt32
  requireSignedResults : Bool
  resultCrypto : ResultCrypto
  hashKeyId : String → String
  /-- Whether the batches are kept in the persistent store. -/
  persist : Bool
  /-- The model that a request without a price of its own is quoted for. -/
  defaultModel : String
  format : BodyFormat
  crypto : Crypto
  x402 : X402Config

namespace App

/-- The calls that keep batches in the persistent store. -/
inductive BatchCall where
  | persistBatch (batchId : String) (b : PersistedBatch)
  | loadBatches
  | batchWasSettled (batchId : String)
  | markBatchSettled (batchId : String) (b : PersistedBatch)
  | settleBatchRefund (keyId : String) (refund : U256) (batchId : String) (b : PersistedBatch)
  | recordRefundOwed (batchId : String) (payer : Option H160) (refund : U256)
      (b : PersistedBatch)
  deriving DecidableEq

abbrev BatchCall.toMethod : BatchCall → KeyStore.Method
  | .persistBatch batchId b => .persistBatch batchId b
  | .loadBatches => .loadBatches
  | .batchWasSettled batchId => .batchWasSettled batchId
  | .markBatchSettled batchId b => .markBatchSettled batchId b
  | .settleBatchRefund keyId refund batchId b => .settleBatchRefund keyId refund batchId b
  | .recordRefundOwed batchId payer refund b => .recordRefundOwed batchId payer refund b

/-- One critical section on a live batch record, or on the map of them. -/
inductive Live where
  | insert (id : String) (record : BatchRecord)
  | setRunning (id : String)
  | slotCount (id : String)
  | isTerminal (id : String) (i : Nat)
  | setDispatched (id : String) (i : Nat)
  | request (id : String) (i : Nat)
  | done (id : String) (i : Nat) (response : ChatCompletionResponse)
  | errored (id : String) (i : Nat) (error : String)
  | read (id : String)
  | finish (id : String)
  deriving DecidableEq

abbrev Live.Ans : Live → Type
  | .insert _ _ | .setRunning _ | .setDispatched _ _ | .done _ _ _ | .errored _ _ _ => Unit
  | .slotCount _ => Nat
  | .isTerminal _ _ => Bool
  | .request _ _ => ChatCompletionRequest
  | .read _ | .finish _ => BatchRecord

inductive Op where
  | keys (c : ApiKeyStore.Call)
  | store (c : BatchCall)
  /-- The registry, asked for a name that is no pinned hash. -/
  | lookupModel (name : String)
  | estimateCost (modelHash : H256) (inputTokens outputTokens : UInt32) (tier : UInt8)
  | listProviders (modelHash : H256)
  | listPools (modelHash : H256)
  | dispatchToProvider (provider : ProviderInfo) (req : ProviderProtocolRequest)
  | recordUsage (keyId : String) (inputTokens outputTokens : UInt32) (grains : U256)
  | newUuid
  | nowUnixSecs
  | live (a : Live)
  | spawnProcessBatch (id : String)
  | layer (o : X402.Op)
  /-- The handler of the route begins. -/
  | serve (route : Route) (paid : Option X402Paid) (key : Option ApiKeyContext)
  /-- The service of the route answers. -/
  | respond (r : Response)
  /-- A panic: nothing comes after it. -/
  | unwind
  deriving DecidableEq

abbrev Op.Ans : Op → Type
  | .keys c => c.Ans
  | .store c => c.toMethod.Ans
  | .lookupModel _ => Except GatewayError H256
  | .estimateCost _ _ _ _ => Except GatewayError U256
  | .listProviders _ => Except GatewayError (List ProviderInfo)
  | .listPools _ => Except GatewayError (List PoolEntry)
  | .dispatchToProvider _ _ => Except GatewayError ProviderProtocolResponse
  | .recordUsage _ _ _ _ => Unit
  | .newUuid => String
  | .nowUnixSecs => UInt64
  | .live a => a.Ans
  | .spawnProcessBatch _ | .serve _ _ _ | .respond _ => Unit
  | .layer o => o.Ans
  | .unwind => Empty

abbrev AppSig : Sig := ⟨Op, Op.Ans⟩

abbrev Event := AppSig.Event

abbrev M := Prog AppSig

section Operations

def keys (c : ApiKeyStore.Call) : M c.Ans := .perform (E := AppSig) (.keys c)

def store (c : BatchCall) : M c.toMethod.Ans := .perform (E := AppSig) (.store c)

def estimateCost (modelHash : H256) (inputTokens outputTokens : UInt32) (tier : UInt8) :
    M (Except GatewayError U256) :=
  .perform (E := AppSig) (.estimateCost modelHash inputTokens outputTokens tier)

def listProviders (modelHash : H256) : M (Except GatewayError (List ProviderInfo)) :=
  .perform (E := AppSig) (.listProviders modelHash)

def listPools (modelHash : H256) : M (Except GatewayError (List PoolEntry)) :=
  .perform (E := AppSig) (.listPools modelHash)

def dispatchToProvider (provider : ProviderInfo) (req : ProviderProtocolRequest) :
    M (Except GatewayError ProviderProtocolResponse) :=
  .perform (E := AppSig) (.dispatchToProvider provider req)

def recordUsage (keyId : String) (inputTokens outputTokens : UInt32) (grains : U256) : M Unit :=
  .perform (E := AppSig) (.recordUsage keyId inputTokens outputTokens grains)

def newUuid : M String := .perform (E := AppSig) .newUuid

def nowUnixSecs : M UInt64 := .perform (E := AppSig) .nowUnixSecs

def live (a : Live) : M a.Ans := .perform (E := AppSig) (.live a)

def spawnProcessBatch (id : String) : M Unit := .perform (E := AppSig) (.spawnProcessBatch id)

def layer (o : X402.Op) : M o.Ans := .perform (E := AppSig) (.layer o)

def serve (route : Route) (paid : Option X402Paid) (key : Option ApiKeyContext) : M Unit :=
  .perform (E := AppSig) (.serve route paid key)

/-- Answer with a response. -/
def respond (r : Response) : M Response := do
  Prog.perform (E := AppSig) (.respond r)
  return r

def unwind {α : Type} : M α := .op (E := AppSig) .unwind nofun

/-- A name that spells a hash stands for it; any other is looked up in the registry. -/
def resolveModelName (name : String) : M (Except GatewayError H256) :=
  match pinnedHash name with
  | some hash => return .ok hash
  | none => .perform (E := AppSig) (.lookupModel name)

end Operations
end App
end Gateway
