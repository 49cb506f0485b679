import CitrateGateway.Gateway.Batch
import CitrateGateway.Gateway.Error
import CitrateGateway.Shared.Text
import Mathlib.Data.Prod.Lex

/-!
# Models, providers and token counts

What a chat request is priced and dispatched by: the hash its model stands for, the tokens it
may use, the providers it can be sent to and when a provider's result is accepted.
-/

namespace Gateway
set_option autoImplicit false
open Words

section Tokens

def defaultMaxTokens : UInt32 := 512

def defaultMaxTokensCeiling : UInt32 := 8192

def assumedInputTokens : UInt32 := 256

def assumedOutputTokens : UInt32 := 512

def defaultVerificationTier : UInt8 := 0

/-- The ceiling in force, given the number that the environment configures. -/
def maxTokensCeiling (configured : Option UInt32) : UInt32 :=
  (configured.filter (0 < ·)).getD defaultMaxTokensCeiling

def clampMaxTokens (requested : Option UInt32) (ceiling : UInt32) : Option UInt32 :=
  requested.map fun mt => min mt ceiling

def saturatingAdd64 (a b : Nat) : Nat := min (a + b) (2 ^ 64 - 1)

/-- The running total with one more message: three bytes a token, and four tokens for the role
and the separator. -/
def tokensStep (total : Nat) (m : ChatMessage) : Nat :=
  let bodyBytes := m.role.utf8ByteSize + m.content.utf8ByteSize
  saturatingAdd64 (saturatingAdd64 total ((bodyBytes + 2) / 3)) 4

def estimateInputTokens (messages : List ChatMessage) : UInt32 :=
  let estimate := max (messages.foldl tokensStep 0) assumedInputTokens.toNat
  if estimate > 2 ^ 32 - 1 then UInt32.ofNat (2 ^ 32 - 1) else UInt32.ofNat estimate

/-- The words of a text, separated by white space. -/
def wordCount (s : String) : Nat := (s.toList.splitOnP isWhiteSpace).countP (!·.isEmpty)

end Tokens

section Models

/-- A name of 64 hexadecimal digits, with or without the prefix, is the hash it spells. -/
def pinnedHash (name : String) : Option H256 :=
  let stripped := match name.toList with
    | '0' :: 'x' :: rest => rest
    | cs => cs
  (hexDecode 32 stripped).map (ofWordBytes 256)

end Models

section Providers

structure ProviderInfo where
  address : H160
  endpoint : String
  reputationBps : UInt32
  currentLoad : UInt32
  maxConcurrent : UInt32
  deriving DecidableEq

def ProviderInfo.capacityRemaining (p : ProviderInfo) : Nat :=
  p.maxConcurrent.toNat - p.currentLoad.toNat

structure PoolEntry where
  name : String
  totalStakeGrains : U256
  minMemberReputationBps : UInt32
  deriving DecidableEq

/-- The last of the elements with the greatest key. -/
def maxByKey {α β : Type} [LE β] [DecidableLE β] (key : α → β) : List α → Option α :=
  List.foldl (fun best a => match best with
    | none => some a
    | some b => if key b ≤ key a then some a else some b) none

/-- Reputation times capacity; between equals the lower load. -/
def providerKey (p : ProviderInfo) : Nat ×ₗ Nat :=
  toLex (p.reputationBps.toNat * p.capacityRemaining / 10000,
    2 ^ 32 - 1 - p.currentLoad.toNat)

def selectProvider (candidates : List ProviderInfo) : Option ProviderInfo :=
  maxByKey providerKey (candidates.filter fun p => 0 < p.capacityRemaining)

inductive DispatchTarget where
  | individual (p : ProviderInfo)
  | pool (p : PoolEntry)
  deriving DecidableEq

def saturatingMul128 (a b : Nat) : Nat := min (a * b) (2 ^ 128 - 1)

def scoreProvider (p : ProviderInfo) : Nat :=
  saturatingMul128 p.reputationBps.toNat p.capacityRemaining

def stakedTokens (p : PoolEntry) : Nat := p.totalStakeGrains.toNat / 10 ^ 18

def scorePool (p : PoolEntry) : Nat :=
  saturatingMul128 p.minMemberReputationBps.toNat (stakedTokens p)

/-- The better target of both classes; `none` where the stake of a pool does not fit the
integer that it is scored in, and the conversion panics. -/
def selectDispatchTarget (providers : List ProviderInfo) (pools : List PoolEntry) :
    Option (Option DispatchTarget) :=
  if pools.any fun p => 2 ^ 128 ≤ stakedTokens p then none
  else
    some (match maxByKey scoreProvider providers, maxByKey scorePool pools with
      | none, none => none
      | some p, none => some (.individual p)
      | none, some pl => some (.pool pl)
      | some p, some pl =>
        if scoreProvider p < scorePool pl then some (.pool pl) else some (.individual p))

end Providers

section Results

structure ProviderProtocolRequest where
  model : String
  prompt : String
  maxTokens : UInt32
  deriving DecidableEq

structure ProviderProtocolResponse where
  output : String
  inputTokens : Option UInt32
  outputTokens : Option UInt32
  signature : Option String
  deriving DecidableEq

/-- The digest, and the recovery of the public key (its 64 bytes) that signed one. -/
structure ResultCrypto where
  keccak256 : Bytes → H256
  recover : H256 → Bytes → UInt8 → Option Bytes

def resultSigDomain : String := "CITRATE-RESULT-V1"

def resultBindingDigest (crypto : ResultCrypto) (modelHash : H256) (prompt output : String) :
    H256 :=
  crypto.keccak256 (utf8 resultSigDomain ++ wordBytes 32 modelHash ++
    wordBytes 32 (crypto.keccak256 (utf8 prompt)) ++
    wordBytes 32 (crypto.keccak256 (utf8 output)))

/-- Every leading `0x` is dropped. -/
def trimHexPrefix : List Char → List Char
  | '0' :: 'x' :: rest => trimHexPrefix rest
  | cs => cs

def verifyResultBinding (crypto : ResultCrypto) (provider : H160) (modelHash : H256)
    (prompt output signatureHex : String) : Bool :=
  match hexDecode 65 (trimHexPrefix signatureHex.toList) with
  | none => false
  | some sigBytes =>
    let v := sigBytes.getD 64 0
    let recoveryId := if 27 ≤ v then v - 27 else v
    if 4 ≤ recoveryId then false
    else
      match crypto.recover (resultBindingDigest crypto modelHash prompt output)
          (sigBytes.take 64) recoveryId with
      | none => false
      | some point =>
        ofWordBytes 160 ((wordBytes 32 (crypto.keccak256 point)).drop 12) = provider

def resultAcceptable (signatureValid : Option Bool) (required : Bool) : Bool :=
  match signatureValid with
  | some valid => valid
  | none => !required

/-- The prompt of a request: its messages, one a line. -/
def buildPrompt (messages : List ChatMessage) : String :=
  "\n".intercalate (messages.map fun m => m.role ++ ": " ++ m.content)

end Results
end Gateway
