import CitrateGateway.Gateway.KeyCalls
import CitrateGateway.Gateway.Layers

/-!
# A running gateway

Requests, batch processors, boot recovery and the operator's changes run side by side over one
key store, the live batches and the nonce ledger. The chain answers from its registry and its
oracle, unless a query fails; providers answer what they like.
-/

namespace Gateway.App
set_option autoImplicit false
open Words Effects X402
open ApiKeyStore (Backend Minted)

section Live

namespace Live

/-- The live record of a batch changed by one critical section. -/
def modify (live : String → Option BatchRecord) (id : String) (f : BatchRecord → BatchRecord) :
    Option (Unit × (String → Option BatchRecord)) :=
  (live id).map fun r => ((), Function.update live id (some (f r)))

def onSlot (i : Nat) (f : RequestSlot → RequestSlot) (r : BatchRecord) : BatchRecord :=
  { r with slots := r.slots.modify i f }

def perform (live : String → Option BatchRecord) :
    (a : Live) → Option (a.Ans × (String → Option BatchRecord))
  | .insert id record => some ((), Function.update live id (some record))
  | .setRunning id => modify live id fun r => { r with status := .running }
  | .slotCount id => (live id).map fun r => (r.slots.length, live)
  | .isTerminal id i => do
    let slot ← (← live id).slots[i]?
    return (slot.state.isTerminal, live)
  | .setDispatched id i => modify live id (onSlot i fun s => { s with state := .dispatched })
  | .request id i => do
    let slot ← (← live id).slots[i]?
    return (slot.request, live)
  | .done id i response => modify live id (onSlot i fun s =>
      { s with state := .done, response := some response })
  | .errored id i error => modify live id (onSlot i fun s =>
      { s with state := .errored, error := some error })
  | .read id => (live id).map fun r => (r, live)
  | .finish id => (live id).map fun r => (r.finish, Function.update live id (some r.finish))

end Live
end Live

section Node
variable (config : AppConfig)

/-- What the chain answers with when a query succeeds. -/
structure Chain where
  registry : String → Option H256
  oracle : H256 → UInt32 → UInt32 → UInt8 → U256

structure Shared where
  keys : Backend
  live : String → Option BatchRecord
  ledger : LedgerState
  chain : Chain
  issued : List String

/-- What the environment decides of one operation. -/
inductive Input where
  | ok
  | fail (e : GatewayError)
  /-- What a call mints, and what each of its accesses of the store comes to. -/
  | store (minted : Minted) (accesses : List KeyStore.Input)
  | uuid (u : String)
  | secs (t : UInt64)
  | providers (r : Except GatewayError (List ProviderInfo))
  | pools (r : Except GatewayError (List PoolEntry))
  | provider (r : Except GatewayError ProviderProtocolResponse)
  | layer (e : LayerSig.Event)

def handle (sh : Shared) : (o : Op) → Input → Option (o.Ans × Shared)
  | .keys c, .store minted cs =>
    (sh.keys.perform config.hashKeyId minted cs c).map fun r => (r.1, { sh with keys := r.2 })
  | .store c, .store _ cs =>
    (sh.keys.method config.hashKeyId cs c.toMethod).map fun r => (r.1, { sh with keys := r.2 })
  | .lookupModel name, .ok =>
    match sh.chain.registry name with
    | some hash => some (.ok hash, sh)
    | none => some (.error (.unknownModel name), sh)
  | .lookupModel _, .fail e => some (.error e, sh)
  | .estimateCost hash input output tier, .ok =>
    some (.ok (sh.chain.oracle hash input output tier), sh)
  | .estimateCost _ _ _ _, .fail e => some (.error e, sh)
  | .listProviders _, .providers r => some (r, sh)
  | .listPools _, .pools r => some (r, sh)
  | .dispatchToProvider _ _, .provider r => some (r, sh)
  | .recordUsage _ _ _ _, .ok => some ((), sh)
  | .newUuid, .uuid u =>
    if u ∈ sh.issued then none else some (u, { sh with issued := u :: sh.issued })
  | .nowUnixSecs, .secs t => some (t, sh)
  | .live a, .ok => (a.perform sh.live).map fun r => (r.1, { sh with live := r.2 })
  | .spawnProcessBatch _, .ok => some ((), sh)
  | .layer o, .layer e =>
    (X402.handle config.x402 sh.ledger o e).map fun r => (r.1, { sh with ledger := r.2 })
  | .serve _ _ _, .ok => some ((), sh)
  | .respond _, .ok => some ((), sh)
  | _, _ => none

inductive Job where
  | request (req : Request)
  | createKey (label : String) (balance : U256) (deposit : H160) (backing : KeyBacking)
  | revoke (keyId : String)
  | setModelBudget (keyId model : String) (amount : U256)
  | processBatch (id : String)
  | recover

/-- What a task ends with: an answer to its caller, if it has one. -/
inductive Outcome where
  | answered (r : Except String Response)
  | finished

def Job.prog : Job → M Outcome
  | .request req => do
    let r ← handleRequest config req
    return .answered r
  | .createKey label balance deposit backing => do
    let _ ← keys (.insert label balance deposit backing)
    return .finished
  | .revoke keyId => do
    let _ ← keys (.revoke keyId)
    return .finished
  | .setModelBudget keyId model amount => do
    let _ ← keys (.setModelBudget keyId model amount)
    return .finished
  | .processBatch id => do
    App.processBatch config id
    return .finished
  | .recover => do
    App.recover config
    return .finished

def Op.spawned : Op → Option Job
  | .spawnProcessBatch id => some (.processBatch id)
  | _ => none

inductive World where
  /-- The process stops and starts again, after losing the writes that the mask leaves out. -/
  | restart (mask : List Bool)
  | chain (chain : Chain)

/-- A gateway that starts: nothing in memory but what the store keeps. -/
def Shared.booted (keys : Backend) (chain : Chain) : Shared :=
  ⟨keys, fun _ => none, .empty, chain, []⟩

def restarted (sh : Shared) (mask : List Bool) : Option Shared :=
  match sh.keys with
  | .memory _ => none
  | .persistent st =>
    some { Shared.booted (.persistent { st with rows := st.rows.crash mask }) sh.chain with
      issued := sh.issued }

/-- The gateway; a volatile one does not come back after it stops. -/
abbrev node : System AppSig where
  Shared := Shared
  Job := Job
  Res := Outcome
  Input := Input
  World := World
  prog := Job.prog config
  onStart := fun sh j => match j with
    | .processBatch _ => none
    | _ => some sh
  handle := fun sh _ o c => handle config sh o c
  leave := fun sh _ => sh
  spawn := Op.spawned
  world := fun sh w => match w with
    | .restart mask => restarted sh mask
    | .chain chain => some { sh with chain := chain }
  halts := fun w => match w with
    | .restart _ => true
    | .chain _ => false

end Node
end Gateway.App
