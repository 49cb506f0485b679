import CitrateGateway.Gateway.Batch
import CitrateGateway.Gateway.GenerationBudget

/-!
# Batch snapshots as JSON

A snapshot is an object with a member for each field of its record. Derived code reads it back:
members come in any order, unknown ones are passed over, a field given twice is an error, and an
array of the fields in their order will do for the object. Only the text of the values is the
work of a package.
-/

namespace Gateway.Snapshot
set_option autoImplicit false
open Words LocalProxy

section Derived

variable {α : Type}

/-- The members of an object, or the items of an array under the names of the fields; the fields
after the first `fewest` all have a default. -/
def fieldsOf (names : List String) (fewest : Nat) : Value → Option (List (String × Value))
  | .object members => some members
  | .array items =>
    if fewest ≤ items.length ∧ items.length ≤ names.length then some (names.zip items) else none
  | _ => none

/-- What a field is given, if it is there. A field that is there twice is an error. -/
def fieldValue (members : List (String × Value)) (name : String) : Option (Option Value) :=
  match members.filter (·.1 = name) with
  | [] => some none
  | [member] => some (some member.2)
  | _ => none

def required (read : Value → Option α) (members : List (String × Value)) (name : String) :
    Option α :=
  match fieldValue members name with
  | some (some v) => read v
  | _ => none

/-- A field of an optional type may be missing. -/
def optional (read : Value → Option α) (members : List (String × Value)) (name : String) :
    Option (Option α) :=
  match fieldValue members name with
  | some none | some (some .null) => some none
  | some (some v) => (read v).map some
  | none => none

def defaulted (value : α) (read : Value → Option α) (members : List (String × Value))
    (name : String) : Option α :=
  match fieldValue members name with
  | some none => some value
  | some (some v) => read v
  | none => none

def readString : Value → Option String
  | .string s => some s
  | _ => none

def readBool : Value → Option Bool
  | .bool b => some b
  | _ => none

def readU32 (v : Value) : Option UInt32 :=
  match v.asU64 with
  | some n => if n.toNat < 2 ^ 32 then some (UInt32.ofNat n.toNat) else none
  | none => none

def readList (read : Value → Option α) : Value → Option (List α)
  | .array items => items.mapM read
  | _ => none

/-- A variant without data is its name, or an object with that one member. -/
def readVariant (variants : List (String × α)) : Value → Option α
  | .string name => variants.lookup name
  | .object [(name, .null)] => variants.lookup name
  | _ => none

def writeOption (write : α → Value) : Option α → Value
  | none => .null
  | some a => write a

def writeU32 (n : UInt32) : Value := .ofU64 (UInt64.ofNat n.toNat)

def writeList (write : α → Value) (items : List α) : Value := .array (items.map write)

theorem readU32_writeU32 (n : UInt32) : readU32 (writeU32 n) = some n := by
  have hn := n.toNat_lt
  have h : (UInt64.ofNat n.toNat).toNat = n.toNat := by
    rw [UInt64.toNat_ofNat']
    omega
  have hlt : (UInt64.ofNat n.toNat).toNat < 2 ^ 32 := by omega
  simp only [readU32, writeU32, Value.ofU64, Value.asU64, h]
  rw [if_pos (by omega), UInt32.ofNat_toNat]

theorem readList_writeList {read : Value → Option α} {write : α → Value}
    (h : ∀ a, read (write a) = some a) (items : List α) :
    readList read (writeList write items) = some items := by
  unfold readList writeList
  induction items with
  | nil => rfl
  | cons a items ih =>
    simp only [List.map_cons, List.mapM_cons, h] at ih ⊢
    rw [ih]
    rfl

theorem required_eq {members : List (String × Value)} {name : String} {v : Value}
    (h : fieldValue members name = some (some v)) (read : Value → Option α) :
    required read members name = read v := by
  rw [required, h]

theorem optional_missing {members : List (String × Value)} {name : String}
    (h : fieldValue members name = some none) (read : Value → Option α) :
    optional read members name = some none := by
  rw [optional, h]

theorem fieldValue_filter (members : List (String × Value)) (gone : List String) (name : String) :
    fieldValue (members.filter (·.1 ∉ gone)) name =
      if name ∈ gone then some none else fieldValue members name := by
  unfold fieldValue
  rw [List.filter_filter]
  by_cases hgone : name ∈ gone
  · have hnone : members.filter (fun m => decide (m.1 = name) && decide (m.1 ∉ gone)) = [] := by
      rw [List.filter_eq_nil_iff]
      intro m _ hm
      simp only [Bool.and_eq_true, decide_eq_true_eq] at hm
      exact hm.2 (hm.1 ▸ hgone)
    rw [hnone, if_pos hgone]
  · have hsame : members.filter (fun m => decide (m.1 = name) && decide (m.1 ∉ gone)) =
        members.filter (·.1 = name) := by
      apply List.filter_congr
      intro m _
      by_cases hm : m.1 = name
      · simp [hm, hgone]
      · simp [hm]
    rw [hsame, if_neg hgone]

/-- What was written for an option is read back, where nothing is written as `null`. -/
theorem optional_writeOption {read : Value → Option α} {write : α → Value}
    (h : ∀ a, read (write a) = some a) (hnull : ∀ a, write a ≠ .null)
    {members : List (String × Value)} {name : String} {o : Option α}
    (hvalue : fieldValue members name = some (some (writeOption write o))) :
    optional read members name = some o := by
  unfold optional
  cases o with
  | none => rw [hvalue]; rfl
  | some a =>
    rw [hvalue]
    have hread := h a
    rw [writeOption]
    split
    · rename_i hnone
      cases hnone
    · rename_i hnone
      exact absurd (Option.some.inj (Option.some.inj hnone)) (hnull a)
    · rename_i v _ hv
      rw [← Option.some.inj (Option.some.inj hv), hread, Option.map_some]
    · rename_i hnone
      cases hnone

end Derived

section Shapes

def ChatMessage.toValue (m : ChatMessage) : Value :=
  .object [("role", .string m.role), ("content", .string m.content)]

def ChatMessage.ofValue (v : Value) : Option ChatMessage := do
  let fields ← fieldsOf ["role", "content"] 2 v
  let role ← required readString fields "role"
  let content ← required readString fields "content"
  return { role, content }

def ChatCompletionRequest.toValue (req : ChatCompletionRequest) : Value :=
  .object [
    ("model", .string req.model),
    ("messages", writeList ChatMessage.toValue req.messages),
    ("max_tokens", writeOption writeU32 req.maxTokens),
    ("stream", .bool req.stream)]

def ChatCompletionRequest.ofValue (v : Value) : Option ChatCompletionRequest := do
  let fields ← fieldsOf ["model", "messages", "max_tokens", "stream"] 2 v
  let model ← required readString fields "model"
  let messages ← required (readList ChatMessage.ofValue) fields "messages"
  let maxTokens ← optional readU32 fields "max_tokens"
  let stream ← defaulted false readBool fields "stream"
  return { model, messages, maxTokens, stream }

def requestStatuses : List (String × RequestStatus) :=
  [("pending", .pending), ("dispatched", .dispatched), ("done", .done), ("errored", .errored)]

def RequestStatus.toValue : RequestStatus → Value
  | .pending => .string "pending"
  | .dispatched => .string "dispatched"
  | .done => .string "done"
  | .errored => .string "errored"

def batchStatuses : List (String × BatchStatus) :=
  [("submitted", .submitted), ("running", .running), ("completed", .completed),
    ("partial_failure", .partialFailure), ("failed", .failed)]

def BatchStatus.toValue : BatchStatus → Value
  | .submitted => .string "submitted"
  | .running => .string "running"
  | .completed => .string "completed"
  | .partialFailure => .string "partial_failure"
  | .failed => .string "failed"

def PersistedSlot.toValue (slot : PersistedSlot) : Value :=
  .object [
    ("state", RequestStatus.toValue slot.state),
    ("request", ChatCompletionRequest.toValue slot.request),
    ("quoted_cost_grains", .string slot.quotedCostGrains),
    ("error", writeOption .string slot.error)]

def PersistedSlot.ofValue (v : Value) : Option PersistedSlot := do
  let fields ← fieldsOf ["state", "request", "quoted_cost_grains", "error"] 4 v
  let state ← required (readVariant requestStatuses) fields "state"
  let request ← required ChatCompletionRequest.ofValue fields "request"
  let quotedCostGrains ← required readString fields "quoted_cost_grains"
  let error ← optional readString fields "error"
  return { state, request, quotedCostGrains, error }

def PersistedBatch.members (b : PersistedBatch) : List (String × Value) := [
  ("id", .string b.id),
  ("status", BatchStatus.toValue b.status),
  ("paid_escrow_grains", .string b.paidEscrowGrains),
  ("released_grains", .string b.releasedGrains),
  ("refunded_grains", .string b.refundedGrains),
  ("payer_api_key_id", writeOption .string b.payerApiKeyId),
  ("x402_payer", writeOption .string b.x402Payer),
  ("read_token_hash", writeOption .string b.readTokenHash),
  ("slots", writeList PersistedSlot.toValue b.slots),
  ("created_at", .ofU64 b.createdAt),
  ("refund_settled", .bool b.refundSettled)]

def PersistedBatch.toValue (b : PersistedBatch) : Value := .object (members b)

/-- The two fields that came later have a default, but only an object can leave them out. -/
def PersistedBatch.ofValue (v : Value) : Option PersistedBatch := do
  let fields ← fieldsOf ["id", "status", "paid_escrow_grains", "released_grains",
    "refunded_grains", "payer_api_key_id", "x402_payer", "read_token_hash", "slots", "created_at",
    "refund_settled"] 11 v
  let id ← required readString fields "id"
  let status ← required (readVariant batchStatuses) fields "status"
  let paidEscrowGrains ← required readString fields "paid_escrow_grains"
  let releasedGrains ← required readString fields "released_grains"
  let refundedGrains ← required readString fields "refunded_grains"
  let payerApiKeyId ← optional readString fields "payer_api_key_id"
  let x402Payer ← optional readString fields "x402_payer"
  let readTokenHash ← optional readString fields "read_token_hash"
  let slots ← required (readList PersistedSlot.ofValue) fields "slots"
  let createdAt ← required Value.asU64 fields "created_at"
  let refundSettled ← required readBool fields "refund_settled"
  return ⟨id, status, paidEscrowGrains, releasedGrains, refundedGrains, payerApiKeyId, x402Payer,
    readTokenHash, slots, createdAt, refundSettled⟩

end Shapes

section RoundTrip

theorem readVariant_requestStatus (s : RequestStatus) :
    readVariant requestStatuses (RequestStatus.toValue s) = some s := by
  cases s <;> decide

theorem readVariant_batchStatus (s : BatchStatus) :
    readVariant batchStatuses (BatchStatus.toValue s) = some s := by
  cases s <;> decide

theorem optional_string {members : List (String × Value)} {name : String} {o : Option String}
    (h : fieldValue members name = some (some (writeOption .string o))) :
    optional readString members name = some o :=
  @optional_writeOption String readString .string (fun _ => rfl)
    (fun _ hnull => Value.noConfusion hnull) _ _ _ h

theorem ofValue_message (m : ChatMessage) :
    ChatMessage.ofValue (ChatMessage.toValue m) = some m := by
  simp [ChatMessage.ofValue, ChatMessage.toValue, fieldsOf, required, fieldValue, readString]

theorem ofValue_request (req : ChatCompletionRequest) :
    ChatCompletionRequest.ofValue (ChatCompletionRequest.toValue req) = some req := by
  have hmessages := readList_writeList ofValue_message req.messages
  have htokens : optional readU32
      [("model", .string req.model), ("messages", writeList ChatMessage.toValue req.messages),
        ("max_tokens", writeOption writeU32 req.maxTokens), ("stream", .bool req.stream)]
      "max_tokens" = some req.maxTokens :=
    optional_writeOption readU32_writeU32 (fun _ hnull => Value.noConfusion hnull)
      (by simp [fieldValue])
  simp only [ChatCompletionRequest.ofValue, ChatCompletionRequest.toValue, fieldsOf,
    Option.bind_eq_bind, Option.bind_some, htokens]
  simp [required, defaulted, fieldValue, readString, readBool, hmessages]

theorem ofValue_slot (slot : PersistedSlot) :
    PersistedSlot.ofValue (PersistedSlot.toValue slot) = some slot := by
  have herror : optional readString
      [("state", RequestStatus.toValue slot.state),
        ("request", ChatCompletionRequest.toValue slot.request),
        ("quoted_cost_grains", .string slot.quotedCostGrains),
        ("error", writeOption .string slot.error)] "error" = some slot.error :=
    optional_string (by simp [fieldValue])
  simp only [PersistedSlot.ofValue, PersistedSlot.toValue, fieldsOf, Option.bind_eq_bind,
    Option.bind_some, herror]
  simp [required, fieldValue, readString, readVariant_requestStatus, ofValue_request]

/-- A snapshot as it was written before the fields named in `gone` were there. -/
def PersistedBatch.toValueBefore (gone : List String) (b : PersistedBatch) : Value :=
  .object ((members b).filter (·.1 ∉ gone))

def PersistedBatch.without (gone : List String) (b : PersistedBatch) : PersistedBatch :=
  { b with
    x402Payer := if "x402_payer" ∈ gone then none else b.x402Payer
    readTokenHash := if "read_token_hash" ∈ gone then none else b.readTokenHash }

def laterFields : List String := ["x402_payer", "read_token_hash"]

theorem ofValue_before {gone : List String} (hgone : gone ⊆ laterFields) (b : PersistedBatch) :
    PersistedBatch.ofValue (PersistedBatch.toValueBefore gone b) =
      some (PersistedBatch.without gone b) := by
  have hkept : ∀ {name v}, name ∉ laterFields →
      fieldValue (PersistedBatch.members b) name = some (some v) →
      fieldValue ((PersistedBatch.members b).filter (·.1 ∉ gone)) name = some (some v) := by
    intro name v hname hv
    rw [fieldValue_filter, if_neg fun h => hname (hgone h), hv]
  have hlater : ∀ {name} {o : Option String},
      fieldValue (PersistedBatch.members b) name = some (some (writeOption .string o)) →
      optional readString ((PersistedBatch.members b).filter (·.1 ∉ gone)) name =
        some (if name ∈ gone then none else o) := by
    intro name o ho
    by_cases hin : name ∈ gone
    · rw [if_pos hin]
      apply optional_missing
      rw [fieldValue_filter, if_pos hin]
    · rw [if_neg hin]
      apply optional_string
      rw [fieldValue_filter, if_neg hin, ho]
  have hstatus := readVariant_batchStatus b.status
  have hslots := readList_writeList ofValue_slot b.slots
  unfold PersistedBatch.ofValue PersistedBatch.toValueBefore
  simp only [fieldsOf, Option.bind_eq_bind, Option.bind_some]
  rw [required_eq (hkept (by decide) rfl), required_eq (hkept (by decide) rfl),
    required_eq (hkept (by decide) rfl), required_eq (hkept (by decide) rfl),
    required_eq (hkept (by decide) rfl), optional_string (hkept (by decide) rfl),
    hlater rfl, hlater rfl, required_eq (hkept (by decide) rfl),
    required_eq (hkept (by decide) rfl), required_eq (hkept (by decide) rfl), hstatus, hslots]
  rfl

theorem ofValue_toValue (b : PersistedBatch) :
    PersistedBatch.ofValue (PersistedBatch.toValue b) = some b := by
  have hall := ofValue_before (List.nil_subset laterFields) b
  have hmembers : PersistedBatch.toValueBefore [] b = PersistedBatch.toValue b := by
    simp [PersistedBatch.toValueBefore, PersistedBatch.toValue]
  rw [hmembers] at hall
  simpa [PersistedBatch.without] using hall

end RoundTrip

section Bytes

/-- The package: how a value is written, and the value that some bytes are the text of, with the
members of its objects in the order of the text. -/
structure Format where
  toVec : Value → Option Bytes
  fromSlice : Bytes → Option Value

/-- The package reads back what it writes for `v`. -/
def Format.Carries (format : Format) (v : Value) : Prop :=
  ∃ bytes, format.toVec v = some bytes ∧ format.fromSlice bytes = some v

def PersistedBatch.toJson (format : Format) (b : PersistedBatch) : Bytes :=
  (format.toVec (toValue b)).getD []

def PersistedBatch.fromJson (format : Format) (bytes : Bytes) : Option PersistedBatch :=
  (format.fromSlice bytes).bind ofValue

theorem fromSlice_toJson {format : Format} {b : PersistedBatch}
    (h : format.Carries (PersistedBatch.toValue b)) :
    format.fromSlice (PersistedBatch.toJson format b) = some (PersistedBatch.toValue b) := by
  obtain ⟨bytes, hwrite, hread⟩ := h
  rw [PersistedBatch.toJson, hwrite, Option.getD_some, hread]

theorem fromJson_toJson {format : Format} {b : PersistedBatch}
    (h : format.Carries (PersistedBatch.toValue b)) :
    PersistedBatch.fromJson format (PersistedBatch.toJson format b) = some b := by
  rw [PersistedBatch.fromJson, fromSlice_toJson h, Option.bind_some, ofValue_toValue]

/-- What recovery and the reads make of stored bytes: the record and its settled flag. -/
def restore (format : Format) (bytes : Bytes) : Option (BatchRecord × Bool) :=
  (PersistedBatch.fromJson format bytes).map fun b => (b.intoRecord, b.refundSettled)

def persist (format : Format) (r : BatchRecord) (refundSettled : Bool) : Bytes :=
  PersistedBatch.toJson format (.fromRecord r refundSettled)

theorem restore_persist {format : Format} {r : BatchRecord} {refundSettled : Bool}
    (h : format.Carries (PersistedBatch.toValue (.fromRecord r refundSettled))) :
    restore format (persist format r refundSettled) = some (r.bare, refundSettled) := by
  rw [restore, persist, fromJson_toJson h, Option.map_some, intoRecord_fromRecord]
  rfl

theorem restore_before {format : Format} {bytes : Bytes} {gone : List String} {b : PersistedBatch}
    (hgone : gone ⊆ laterFields)
    (hbytes : format.fromSlice bytes = some (PersistedBatch.toValueBefore gone b)) :
    restore format bytes = some ((PersistedBatch.without gone b).intoRecord, b.refundSettled) := by
  rw [restore, PersistedBatch.fromJson, hbytes, Option.bind_some, ofValue_before hgone,
    Option.map_some]
  rfl

/-- A record without the payer and the read token. -/
def BatchRecord.anonymous (r : BatchRecord) : BatchRecord :=
  { r with x402Payer := none, readTokenHash := none }

theorem intoRecord_without (r : BatchRecord) (refundSettled : Bool) :
    (PersistedBatch.without laterFields (.fromRecord r refundSettled)).intoRecord =
      BatchRecord.anonymous r.bare := by
  rw [BatchRecord.anonymous, ← intoRecord_fromRecord r refundSettled]
  rfl

/-- A persisted record comes back with every response body dropped and everything else as it was.
So records that differ in more than the response bodies, or in the flag, have different bytes. A
snapshot from before the payer and the read token were persisted comes back without the two. -/
theorem persisted_round_trip (format : Format) (r : BatchRecord) (refundSettled : Bool)
    (hcarries : format.Carries (PersistedBatch.toValue (.fromRecord r refundSettled))) :
    restore format (persist format r refundSettled) = some (r.bare, refundSettled) ∧
    (∀ r' refundSettled',
      format.Carries (PersistedBatch.toValue (.fromRecord r' refundSettled')) →
      (r'.bare, refundSettled') ≠ (r.bare, refundSettled) →
      persist format r' refundSettled' ≠ persist format r refundSettled) ∧
    ∀ bytes, format.fromSlice bytes =
        some (PersistedBatch.toValueBefore laterFields (.fromRecord r refundSettled)) →
      restore format bytes = some (BatchRecord.anonymous r.bare, refundSettled) := by
  refine ⟨restore_persist hcarries, ?_, ?_⟩
  · intro r' refundSettled' hcarries' hne hsame
    apply hne
    have hread := restore_persist hcarries'
    rw [hsame, restore_persist hcarries] at hread
    exact (Option.some.inj hread).symm
  · intro bytes hbytes
    rw [restore_before (List.Subset.refl laterFields) hbytes, intoRecord_without]
    rfl

end Bytes

section Sample

def sampleSlot (state : RequestStatus) (quote : Nat) (maxTokens : Option UInt32)
    (error : Option String) : RequestSlot where
  state := state
  request := ⟨"llama", [⟨"user", "hi"⟩], maxTokens, false⟩
  quotedCostGrains := BitVec.ofNat 256 quote
  response := none
  error := error

def sampleRecord : BatchRecord where
  id := "batch_7"
  status := .partialFailure
  paidEscrowGrains := 12
  releasedGrains := 5
  refundedGrains := 7
  payerApiKeyId := none
  x402Payer := some 42
  readTokenHash := some "9f"
  slots := [sampleSlot .done 5 (some 16) none, sampleSlot .errored 7 none (some "timeout")]
  createdAt := 1700000000

def sampleHead : String :=
  "\x7b\"id\":\"batch_7\",\"status\":\"partial_failure\",\"paid_escrow_grains\":\"12\"," ++
  "\"released_grains\":\"5\",\"refunded_grains\":\"7\",\"payer_api_key_id\":null,"

def sampleTail : String :=
  "\"slots\":[\x7b\"state\":\"done\"," ++
  "\"request\":\x7b\"model\":\"llama\"," ++
  "\"messages\":[\x7b\"role\":\"user\",\"content\":\"hi\"\x7d]," ++
  "\"max_tokens\":16,\"stream\":false\x7d,\"quoted_cost_grains\":\"5\",\"error\":null\x7d," ++
  "\x7b\"state\":\"errored\"," ++
  "\"request\":\x7b\"model\":\"llama\"," ++
  "\"messages\":[\x7b\"role\":\"user\",\"content\":\"hi\"\x7d]," ++
  "\"max_tokens\":null,\"stream\":false\x7d,\"quoted_cost_grains\":\"7\"," ++
  "\"error\":\"timeout\"\x7d]," ++
  "\"created_at\":1700000000,\"refund_settled\":true\x7d"

/-- The text of the record, and its text before the payer and the read token were in it. -/
def sampleText : String := sampleHead ++
  "\"x402_payer\":\"0x000000000000000000000000000000000000002a\"," ++
  "\"read_token_hash\":\"9f\"," ++ sampleTail

def sampleOldText : String := sampleHead ++ sampleTail

/-- The package on the sample's two texts. -/
def sampleFormat : Format where
  toVec v := if PersistedBatch.ofValue v = some (.fromRecord sampleRecord true) then
    some (utf8 sampleText) else none
  fromSlice bytes :=
    if bytes = utf8 sampleText then
      some (PersistedBatch.toValue (.fromRecord sampleRecord true))
    else if bytes = utf8 sampleOldText then
      some (PersistedBatch.toValueBefore laterFields (.fromRecord sampleRecord true))
    else none

theorem toVec_sampleFormat : sampleFormat.toVec
    (PersistedBatch.toValue (.fromRecord sampleRecord true)) = some (utf8 sampleText) := by
  simp only [sampleFormat, ofValue_toValue, if_true]

theorem carries_sampleFormat :
    sampleFormat.Carries (PersistedBatch.toValue (.fromRecord sampleRecord true)) := by
  refine ⟨utf8 sampleText, toVec_sampleFormat, ?_⟩
  simp only [sampleFormat, if_true]

theorem fromSlice_sampleOldText : sampleFormat.fromSlice (utf8 sampleOldText) =
    some (PersistedBatch.toValueBefore laterFields (.fromRecord sampleRecord true)) := by
  have hne : utf8 sampleOldText ≠ utf8 sampleText := by decide +kernel
  simp only [sampleFormat, if_neg hne, if_true]

theorem persisted_round_trip_sample :
    restore sampleFormat (utf8 sampleText) = some (sampleRecord, true) ∧
      restore sampleFormat (utf8 sampleOldText) =
        some (BatchRecord.anonymous sampleRecord, true) := by
  obtain ⟨hread, -, hold⟩ :=
    persisted_round_trip sampleFormat sampleRecord true carries_sampleFormat
  have htext : persist sampleFormat sampleRecord true = utf8 sampleText := by
    rw [persist, PersistedBatch.toJson, toVec_sampleFormat, Option.getD_some]
  have hbare : sampleRecord.bare = sampleRecord := by decide +kernel
  rw [htext, hbare] at hread
  rw [hbare] at hold
  exact ⟨hread, hold _ fromSlice_sampleOldText⟩

end Sample

end Gateway.Snapshot
