import CitrateGateway.Gateway.Dispatch
import CitrateGateway.Shared.System

/-!
# Names of the model registry

The gateway lists the registered models and resolves their names, each by its own enumeration
of the registry and through its own cache. A name that spells a hash is taken at its word.
-/

namespace Gateway.Models
set_option autoImplicit false
open Words Effects

section Decoding

/-- Sixty-four bits of a length or an offset are enough. -/
def abiLenBounded (word : Bytes) (maxItems : Nat) (what : String) : Except GatewayError Nat :=
  let v := ofBeBytes word
  if maxItems < v then
    .error (.chainUnavailable (what ++ ": declared length " ++ toString v ++
      " exceeds buffer capacity (" ++ toString maxItems ++ " items)"))
  else .ok v

def slice (bytes : Bytes) (start len : Nat) : Bytes := (bytes.drop start).take len

def decodeBytes32Array (bytes : Bytes) : Except GatewayError (List H256) :=
  if bytes.length < 64 then
    .error (.chainUnavailable ("bytes32[] return too short: " ++ toString bytes.length ++
      " bytes"))
  else do
    let len ← abiLenBounded (slice bytes 32 32) ((bytes.length - 64) / 32) "bytes32[]"
    let expected := 64 + len * 32
    if bytes.length < expected then
      .error (.chainUnavailable ("bytes32[] truncated: said len=" ++ toString len ++ " need " ++
        toString expected ++ " have " ++ toString bytes.length))
    else .ok ((List.range len).map fun i => ofWordBytes 256 (slice bytes (64 + i * 32) 32))

def fromUtf8 (bytes : Bytes) : Option String := String.fromUTF8? ⟨bytes.toArray⟩

/-- The text whose offset is in a word of the head; what is wrong with it, nobody reads. -/
def decodeStringAtOffsetWord (bytes : Bytes) (wordIdx : Nat) : Option String :=
  let offStart := wordIdx * 32
  if bytes.length < offStart + 32 then none
  else
    let offset := ofBeBytes (slice bytes offStart 32)
    if 2 ^ 64 ≤ offset then none
    else if bytes.length < offset + 32 then none
    else
      let len := ofBeBytes (slice bytes offset 32)
      if 2 ^ 32 ≤ len then none
      else if bytes.length < offset + 32 + len then none
      else fromUtf8 (slice bytes (offset + 32) len)

end Decoding

section Programs

structure ModelInfo where
  modelHash : H256
  name : String
  owner : H160
  isActive : Bool
  deriving DecidableEq

inductive CachedModelLookup where
  | hit (h : H256)
  | negative
  | miss
  deriving DecidableEq

/-- Names and their hashes, newest first; `none` is a name known to be unknown. -/
abbrev NameMap := List (String × Option H256)

def NameMap.get (map : NameMap) (name : String) : Option (Option H256) := map.lookup name

def NameMap.insert (map : NameMap) (name : String) (h : Option H256) : NameMap := (name, h) :: map

inductive Op where
  | cachedModelHash (name : String)
  | cachedModelList
  /-- Held to the end of the call. -/
  | lockRefresh
  | getAllModelHashes
  | getModel (h : H256)
  | refreshModelCache (map : NameMap)
  | refreshModelList (models : List ModelInfo)
  deriving DecidableEq

abbrev Op.Ans : Op → Type
  | .cachedModelHash _ => CachedModelLookup
  | .cachedModelList => Option (List ModelInfo)
  | .lockRefresh | .refreshModelCache _ | .refreshModelList _ => Unit
  | .getAllModelHashes | .getModel _ => Except GatewayError Bytes

abbrev ModelSig : Sig := ⟨Op, Op.Ans⟩

abbrev Event := ModelSig.Event

abbrev M := Prog ModelSig

def perform (o : Op) : M o.Ans := .perform (E := ModelSig) o

/-- The names of the models, the last one of a name first; a model that cannot be read is left
out. -/
def fetchNames : List H256 → NameMap → M NameMap
  | [], map => return map
  | h :: hs, map => do
    match ← perform (.getModel h) with
    | .error _ => fetchNames hs map
    | .ok result =>
      match decodeStringAtOffsetWord result 1 with
      | none => fetchNames hs map
      | some modelName =>
        if modelName.isEmpty then fetchNames hs map
        else fetchNames hs (map.insert modelName (some h))

/-- Enumerate the registry for a name, and keep what was found and what was not. -/
def enumerate (name : String) : M (Except GatewayError H256) := do
  match ← perform .getAllModelHashes with
  | .error e => return .error (.unknownModel (name ++ " (" ++ e.display ++ ")"))
  | .ok result =>
    match decodeBytes32Array result with
    | .error e => return .error e
    | .ok hashes =>
      let map ← fetchNames hashes []
      match (map.get name).join with
      | some h =>
        perform (.refreshModelCache map)
        return .ok h
      | none =>
        perform (.refreshModelCache (map.insert name none))
        return .error (.unknownModel name)

def resolveModelName (name : String) : M (Except GatewayError H256) :=
  match pinnedHash name with
  | some h => return .ok h
  | none => do
    match ← perform (.cachedModelHash name) with
    | .hit h => return .ok h
    | .negative => return .error (.unknownModel name)
    | .miss =>
      perform .lockRefresh
      match ← perform (.cachedModelHash name) with
      | .hit h => return .ok h
      | .negative => return .error (.unknownModel name)
      | .miss => enumerate name

/-- What a listing keeps of an answer of the registry. -/
def readModelInfo (h : H256) (result : Bytes) : Option ModelInfo :=
  if result.length < 256 then none
  else
    match decodeStringAtOffsetWord result 1 with
    | none => none
    | some name =>
      if name.isEmpty then none
      else some ⟨h, name, ofWordBytes 160 (slice result 12 20), result.getD 255 0 ≠ 0⟩

def fetchModels : List H256 → M (List ModelInfo)
  | [] => return []
  | h :: hs => do
    match ← perform (.getModel h) with
    | .error _ => fetchModels hs
    | .ok result =>
      let rest ← fetchModels hs
      return (readModelInfo h result).toList ++ rest

def listModels : M (Except GatewayError (List ModelInfo)) := do
  match ← perform .cachedModelList with
  | some models => return .ok models
  | none =>
    perform .lockRefresh
    match ← perform .cachedModelList with
    | some models => return .ok models
    | none =>
      match ← perform .getAllModelHashes with
      | .error e => return .error e
      | .ok result =>
        match decodeBytes32Array result with
        | .error e => return .error e
        | .ok hashes =>
          let out ← fetchModels hashes
          perform (.refreshModelList out)
          return .ok out

/-- One registered model in the answer of `/v1/models`. -/
structure ModelEntry where
  id : String
  ownedBy : String
  created : UInt64
  deriving DecidableEq

/-- The registered models that `/v1/models` lists; none when they cannot be listed. -/
def modelsHandler (now : UInt64) : M (List ModelEntry) := do
  let models := (← listModels).toOption.getD []
  return (models.filter (·.isActive)).map fun m =>
    ⟨m.name, "0x" ++ hexEncode (wordBytes 20 m.owner), now⟩

end Programs

section Caching

/-- What the registry answers while its content does not change. -/
structure Registry where
  getAllModelHashes : Except GatewayError Bytes
  getModel : H256 → Except GatewayError Bytes

/-- Thirty seconds, in nanoseconds. -/
def modelCacheTtl : Nat := 30 * 10 ^ 9

/-- Each cache with the time it was filled at. -/
structure Caches where
  names : Option (Nat × NameMap) := none
  list : Option (Nat × List ModelInfo) := none
  now : Nat := 0

def Caches.fresh {α : Type} (c : Caches) (slot : Option (Nat × α)) : Option α :=
  match slot with
  | none => none
  | some (fetchedAt, a) => if modelCacheTtl ≤ c.now - fetchedAt then none else some a

def Caches.cachedModelHash (c : Caches) (name : String) : CachedModelLookup :=
  match c.fresh c.names with
  | none => .miss
  | some map =>
    match map.get name with
    | some (some h) => .hit h
    | some none => .negative
    | none => .miss

def Caches.answer (reg : Registry) (c : Caches) : (o : Op) → o.Ans × Caches
  | .cachedModelHash name => (c.cachedModelHash name, c)
  | .cachedModelList => (c.fresh c.list, c)
  | .lockRefresh => ((), c)
  | .getAllModelHashes => (reg.getAllModelHashes, c)
  | .getModel h => (reg.getModel h, c)
  | .refreshModelCache map => ((), { c with names := some (c.now, map) })
  | .refreshModelList models => ((), { c with list := some (c.now, models) })

end Caching
end Gateway.Models
