import CitrateGateway.Gateway.BudgetRefunds

/-!
# Reading batches

A batch is read with the credential of its submitter: the key that owns it, or the read token
of a batch without an owner. Without it a batch is answered for like one that does not exist.
-/

namespace Gateway.App
set_option autoImplicit false
open Words Effects X402

section Handlers

/-- The headers of a request, with lower-case names; a name may come more than once. -/
abbrev HeaderMap := List (String × Bytes)

def HeaderMap.get (headers : HeaderMap) (name : String) : Option Bytes :=
  (headers.find? (·.1 = name)).map Prod.snd

/-- Whether a header value may be read as text. -/
def isVisibleAscii (b : UInt8) : Bool := (32 ≤ b && b < 127) || b = 9

def headerToStr (value : Bytes) : Option String :=
  if value.all isVisibleAscii then some (String.ofList (value.map fun b => Char.ofNat b.toNat))
  else none

/-- The credential that a caller comes with: a bearer goes before the token header. -/
def presentedCredential (headers : HeaderMap) : Option String :=
  (extractBearer ((headers.get "authorization").bind headerToStr)).or do
    let value ← (headers.get "x-batch-read-token").bind headerToStr
    let token := trim value
    if token.isEmpty then none else some token

/-- One line of the output of a batch. -/
inductive OutputLine where
  | completed (requestIndex : Nat) (response : Option ChatCompletionResponse)
  | errored (requestIndex : Nat) (error : String)
  | pending (requestIndex : Nat)
  | dispatched (requestIndex : Nat)
  deriving DecidableEq

inductive ReadBody where
  | message (text : String)
  | status (b : BatchStatusResponse)
  | lines (out : List OutputLine)
  deriving DecidableEq

structure ReadResponse where
  status : Nat
  contentType : String
  body : ReadBody
  deriving DecidableEq

def batchNotFound (id : String) : ReadResponse :=
  ⟨404, "application/json", .message ("unknown batch_id: " ++ id)⟩

def outputLine (i : Nat) (slot : RequestSlot) : OutputLine :=
  match slot.state with
  | .done => .completed i slot.response
  | .errored => .errored i (slot.error.getD "")
  | .pending => .pending i
  | .dispatched => .dispatched i

variable (config : AppConfig)

/-- Both sides are compared by their hashes; a record without a credential is for nobody. -/
def batchReadAuthorized (record : BatchRecord) (headers : HeaderMap) : Bool :=
  match presentedCredential headers with
  | none => false
  | some presented =>
    match record.payerApiKeyId, record.readTokenHash with
    | some ownerKey, _ => config.hashKeyId presented = config.hashKeyId ownerKey
    | none, some tokenHash => config.hashKeyId presented = tokenHash
    | none, none => false

def getBatchHandler (sh : Shared) (id : String) (headers : HeaderMap) : ReadResponse :=
  match sh.live id with
  | some record =>
    if batchReadAuthorized config record headers then
      ⟨200, "application/json", .status (buildStatus record none)⟩
    else batchNotFound id
  | none => batchNotFound id

def getBatchOutputHandler (sh : Shared) (id : String) (headers : HeaderMap) : ReadResponse :=
  match sh.live id with
  | none => batchNotFound id
  | some record =>
    if batchReadAuthorized config record headers then
      ⟨200, "application/x-ndjson", .lines (record.slots.mapIdx outputLine)⟩
    else batchNotFound id

end Handlers

section Credentials
variable {config : AppConfig} {headers : HeaderMap} {record : BatchRecord}

/-- The credential of a batch is the key that owns it, or else the token whose hash it keeps. -/
def Credential (config : AppConfig) (record : BatchRecord) (credential : String) : Prop :=
  match record.payerApiKeyId with
  | some ownerKey => credential = ownerKey
  | none => ∃ token, record.readTokenHash = some (config.hashKeyId token) ∧ credential = token

/-- The caller comes with the credential of the batch. -/
def Presents (config : AppConfig) (headers : HeaderMap) (record : BatchRecord) : Prop :=
  ∃ credential, presentedCredential headers = some credential ∧
    Credential config record credential

/-- The caller's credential shares its hash with no other key that owns a batch. -/
def CollisionFree (config : AppConfig) (headers : HeaderMap) (sh : Shared) : Prop :=
  ∀ presented id r ownerKey, presentedCredential headers = some presented →
    sh.live id = some r → r.payerApiKeyId = some ownerKey →
    config.hashKeyId presented = config.hashKeyId ownerKey → presented = ownerKey

theorem authorized_iff {sh : Shared} {id : String} (hfree : CollisionFree config headers sh)
    (hlive : sh.live id = some record) :
    batchReadAuthorized config record headers = true ↔ Presents config headers record := by
  unfold batchReadAuthorized Presents Credential
  cases hpresented : presentedCredential headers with
  | none => simp
  | some presented =>
    cases howner : record.payerApiKeyId with
    | some ownerKey =>
      have heq : config.hashKeyId presented = config.hashKeyId ownerKey ↔ presented = ownerKey :=
        ⟨hfree presented id record ownerKey hpresented hlive howner, congrArg _⟩
      simp [heq]
    | none =>
      cases record.readTokenHash with
      | none => simp
      | some tokenHash => simp [eq_comm]

/-- Without the credential either handler answers for a batch like for one that does not
exist. -/
theorem denied_of_not_presents {sh : Shared} {id : String}
    (hfree : CollisionFree config headers sh)
    (hlive : ∀ r, sh.live id = some r → ¬ Presents config headers r) :
    getBatchHandler config sh id headers = batchNotFound id ∧
      getBatchOutputHandler config sh id headers = batchNotFound id := by
  unfold getBatchHandler getBatchOutputHandler
  cases hr : sh.live id with
  | none => exact ⟨rfl, rfl⟩
  | some record =>
    have hdenied : batchReadAuthorized config record headers = false :=
      Bool.eq_false_of_not_eq_true fun h => hlive record hr ((authorized_iff hfree hr).1 h)
    simp [hdenied]

/-- The states of two gateways that differ in batches only, and in none that the caller comes
with the credential of. -/
structure SameToCaller (config : AppConfig) (headers : HeaderMap) (sh sh' : Shared) : Prop where
  others : sh' = { sh with live := sh'.live }
  batches : ∀ id, sh.live id = sh'.live id ∨
    (∀ r, sh.live id = some r → ¬ Presents config headers r) ∧
      ∀ r, sh'.live id = some r → ¬ Presents config headers r

theorem SameToCaller.handlers {sh sh' : Shared} (h : SameToCaller config headers sh sh')
    (hfree : CollisionFree config headers sh) (hfree' : CollisionFree config headers sh')
    (id : String) :
    getBatchHandler config sh id headers = getBatchHandler config sh' id headers ∧
      getBatchOutputHandler config sh id headers =
        getBatchOutputHandler config sh' id headers := by
  rcases h.batches id with hsame | ⟨hno, hno'⟩
  · simp [getBatchHandler, getBatchOutputHandler, hsame]
  · obtain ⟨hget, houtput⟩ := denied_of_not_presents hfree hno
    obtain ⟨hget', houtput'⟩ := denied_of_not_presents hfree' hno'
    exact ⟨hget.trans hget'.symm, houtput.trans houtput'.symm⟩

/-- Batch reads reveal nothing without the credential: two states that differ only in batches
of others are answered for alike, a batch of another like one that does not exist, and nobody
reads a batch with neither an owner nor a read token. -/
theorem reads_reveal_nothing (config : AppConfig) (headers : HeaderMap) (sh : Shared)
    (hfree : CollisionFree config headers sh) :
    (∀ sh', CollisionFree config headers sh' → SameToCaller config headers sh sh' → ∀ id,
      getBatchHandler config sh id headers = getBatchHandler config sh' id headers ∧
      getBatchOutputHandler config sh id headers =
        getBatchOutputHandler config sh' id headers) ∧
    (∀ id r sh', sh.live id = some r → ¬ Presents config headers r → sh'.live id = none →
      getBatchHandler config sh id headers = getBatchHandler config sh' id headers ∧
      getBatchOutputHandler config sh id headers =
        getBatchOutputHandler config sh' id headers) ∧
    ∀ id r, sh.live id = some r → r.payerApiKeyId = none → r.readTokenHash = none →
      getBatchHandler config sh id headers = batchNotFound id ∧
      getBatchOutputHandler config sh id headers = batchNotFound id := by
  refine ⟨fun sh' hfree' h id => h.handlers hfree hfree' id, ?_, ?_⟩
  · intro id r sh' hr hno hunknown
    have hdenied := denied_of_not_presents hfree
      (fun r' hr' => by rwa [← Option.some.inj (hr.symm.trans hr')])
    have hunread : getBatchHandler config sh' id headers = batchNotFound id ∧
        getBatchOutputHandler config sh' id headers = batchNotFound id := by
      simp [getBatchHandler, getBatchOutputHandler, hunknown]
    exact ⟨hdenied.1.trans hunread.1.symm, hdenied.2.trans hunread.2.symm⟩
  · intro id r hr howner htoken
    apply denied_of_not_presents hfree
    rintro r' hr' ⟨credential, _, hcredential⟩
    obtain rfl : r = r' := Option.some.inj (hr.symm.trans hr')
    simp [Credential, howner, htoken] at hcredential

end Credentials

section Sample

def ownedBatch : BatchRecord where
  id := "batch_1"
  status := .running
  paidEscrowGrains := 7
  releasedGrains := 0
  refundedGrains := 0
  payerApiKeyId := some KeyStore.sampleKeyId
  x402Payer := none
  readTokenHash := none
  slots := [⟨.pending, sampleChat llama, 7, none, none⟩]
  createdAt := 7

def ownedState : Shared :=
  { Shared.booted (.persistent ⟨.empty, []⟩) sampleChain with
    live := fun id => if id = "batch_1" then some ownedBatch else none }

def strayHeaders : HeaderMap := [("authorization", utf8 ("Bearer " ++ KeyStore.strayKeyId))]

theorem presented_stray : presentedCredential strayHeaders = some KeyStore.strayKeyId := by
  decide +kernel

theorem reads_reveal_nothing_sample :
    ownedState.live "batch_1" = some ownedBatch ∧
      getBatchHandler sampleApp ownedState "batch_1" strayHeaders =
        getBatchHandler sampleApp { ownedState with live := fun _ => none } "batch_1"
          strayHeaders := by
  have howned : ∀ {id r}, ownedState.live id = some r → r = ownedBatch := by
    intro id r hr
    simp only [ownedState, Option.ite_none_right_eq_some] at hr
    exact (Option.some.inj hr.2).symm
  have hfree : CollisionFree sampleApp strayHeaders ownedState := by
    intro presented id r ownerKey hpresented hr howner heq
    cases presented_stray.symm.trans hpresented
    rw [howned hr] at howner
    cases howner
    exact absurd heq (by decide +kernel)
  have hfree' : CollisionFree sampleApp strayHeaders { ownedState with live := fun _ => none } := by
    intro presented id r ownerKey _ hr
    cases hr
  have hsame : SameToCaller sampleApp strayHeaders ownedState
      { ownedState with live := fun _ => none } := by
    refine ⟨rfl, fun id => Or.inr ⟨fun r hr => ?_, nofun⟩⟩
    rintro ⟨credential, hpresented, hcredential⟩
    cases presented_stray.symm.trans hpresented
    rw [howned hr] at hcredential
    have hne : KeyStore.strayKeyId ≠ KeyStore.sampleKeyId := by decide +kernel
    exact hne hcredential
  exact ⟨rfl, ((reads_reveal_nothing sampleApp strayHeaders ownedState hfree).1 _ hfree' hsame
    "batch_1").1⟩

end Sample
end Gateway.App
