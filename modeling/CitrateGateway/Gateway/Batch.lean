import CitrateGateway.Shared.Words
import Mathlib.Algebra.BigOperators.Group.List.Basic

/-!
# Batch records

A batch pays the sum of its slots' quotes into escrow. When every slot is over, the quotes of
the slots that were served are released and the others are refunded. The persisted form keeps
amounts as decimal numerals and drops the response bodies.
-/

namespace Gateway
set_option autoImplicit false
open Words

section Types

structure ChatMessage where
  role : String
  content : String
  deriving DecidableEq

structure ChatCompletionRequest where
  model : String
  messages : List ChatMessage
  maxTokens : Option UInt32
  stream : Bool
  deriving DecidableEq

structure Choice where
  index : UInt32
  message : ChatMessage
  finishReason : String
  deriving DecidableEq

structure Usage where
  promptTokens : UInt32
  completionTokens : UInt32
  totalTokens : UInt32
  deriving DecidableEq

def Usage.new (prompt completion : UInt32) : Usage where
  promptTokens := prompt
  completionTokens := completion
  totalTokens := UInt32.ofNat (min (prompt.toNat + completion.toNat) (2 ^ 32 - 1))

structure ChatCompletionResponse where
  id : String
  created : UInt64
  model : String
  choices : List Choice
  usage : Usage
  deriving DecidableEq

/-- What a dispatch produced. -/
structure DispatchOutcome where
  output : String
  prompt : String
  promptTokens : UInt32
  completionTokens : UInt32
  deriving DecidableEq

inductive BatchStatus where
  | submitted
  | running
  | completed
  | partialFailure
  | failed
  deriving DecidableEq

def BatchStatus.isTerminal : BatchStatus → Bool
  | completed | partialFailure | failed => true
  | submitted | running => false

inductive RequestStatus where
  | pending
  | dispatched
  | done
  | errored
  deriving DecidableEq

def RequestStatus.isTerminal : RequestStatus → Bool
  | done | errored => true
  | pending | dispatched => false

structure RequestSlot where
  state : RequestStatus
  request : ChatCompletionRequest
  quotedCostGrains : U256
  response : Option ChatCompletionResponse
  error : Option String
  deriving DecidableEq

structure BatchRecord where
  id : String
  status : BatchStatus
  paidEscrowGrains : U256
  releasedGrains : U256
  refundedGrains : U256
  payerApiKeyId : Option String
  x402Payer : Option H160
  readTokenHash : Option String
  slots : List RequestSlot
  createdAt : UInt64
  deriving DecidableEq

structure PersistedSlot where
  state : RequestStatus
  request : ChatCompletionRequest
  quotedCostGrains : String
  error : Option String
  deriving DecidableEq

structure PersistedBatch where
  id : String
  status : BatchStatus
  paidEscrowGrains : String
  releasedGrains : String
  refundedGrains : String
  payerApiKeyId : Option String
  x402Payer : Option String
  readTokenHash : Option String
  slots : List PersistedSlot
  createdAt : UInt64
  refundSettled : Bool
  deriving DecidableEq

end Types

namespace BatchRecord

def requestCount (r : BatchRecord) : Nat := r.slots.length

def completedCount (r : BatchRecord) : Nat := r.slots.countP (·.state = .done)

def erroredCount (r : BatchRecord) : Nat := r.slots.countP (·.state = .errored)

def allTerminal (r : BatchRecord) : Bool := r.slots.all (·.state.isTerminal)

end BatchRecord

section Escrow

/-- The running pair of released and refunded quotes, with one more slot. -/
def splitStep (acc : U256 × U256) (slot : RequestSlot) : U256 × U256 :=
  match slot.state with
  | .done => (saturatingAdd acc.1 slot.quotedCostGrains, acc.2)
  | .errored => (acc.1, saturatingAdd acc.2 slot.quotedCostGrains)
  | .pending | .dispatched => acc

def splitQuotedEscrow (slots : List RequestSlot) : U256 × U256 := slots.foldl splitStep (0, 0)

/-- The terminal state that `process_batch` computes after its loop. -/
def BatchRecord.finish (r : BatchRecord) : BatchRecord :=
  { r with
    releasedGrains := (splitQuotedEscrow r.slots).1
    refundedGrains := (splitQuotedEscrow r.slots).2
    status :=
      if r.completedCount = r.requestCount then .completed
      else if r.erroredCount = r.requestCount then .failed
      else .partialFailure }

/-- A slot as recovery leaves it. -/
def RequestSlot.interrupt (slot : RequestSlot) : RequestSlot :=
  if slot.state = .done then slot
  else { slot with
    state := .errored
    error := slot.error.or (some "interrupted by gateway restart") }

/-- Recovery's running pair: every slot that is not done refunds. -/
def recoverStep (acc : U256 × U256) (slot : RequestSlot) : U256 × U256 :=
  if slot.state = .done then (saturatingAdd acc.1 slot.quotedCostGrains, acc.2)
  else (acc.1, saturatingAdd acc.2 slot.quotedCostGrains)

/-- What recovery makes of an unsettled record. -/
def BatchRecord.reconcile (r : BatchRecord) : BatchRecord :=
  { r with
    slots := r.slots.map RequestSlot.interrupt
    releasedGrains := (r.slots.foldl recoverStep (0, 0)).1
    refundedGrains := (r.slots.foldl recoverStep (0, 0)).2
    status :=
      if r.completedCount = r.requestCount then .completed
      else if r.completedCount = 0 then .failed
      else .partialFailure }

def isDone (slot : RequestSlot) : Bool := slot.state = .done

def isErrored (slot : RequestSlot) : Bool := slot.state = .errored

/-- The sum of the quotes of the slots that satisfy `p`. -/
def quoteSum (p : RequestSlot → Bool) (slots : List RequestSlot) : Nat :=
  ((slots.filter p).map (·.quotedCostGrains.toNat)).sum

def escrowSum (slots : List RequestSlot) : Nat := (slots.map (·.quotedCostGrains.toNat)).sum

variable {p : RequestSlot → Bool} {slot : RequestSlot} {slots : List RequestSlot}

theorem quoteSum_cons (p : RequestSlot → Bool) (slot : RequestSlot) (slots : List RequestSlot) :
    quoteSum p (slot :: slots) =
      (if p slot then slot.quotedCostGrains.toNat else 0) + quoteSum p slots := by
  unfold quoteSum
  cases h : p slot <;> simp [h]

theorem escrowSum_cons (slot : RequestSlot) (slots : List RequestSlot) :
    escrowSum (slot :: slots) = slot.quotedCostGrains.toNat + escrowSum slots := rfl

theorem quoteSum_add_not (p : RequestSlot → Bool) (slots : List RequestSlot) :
    quoteSum p slots + quoteSum (!p ·) slots = escrowSum slots := by
  induction slots with
  | nil => rfl
  | cons slot slots ih =>
    rw [quoteSum_cons, quoteSum_cons, escrowSum_cons]
    cases h : p slot <;> simp <;> omega

theorem quoteSum_le (p : RequestSlot → Bool) (slots : List RequestSlot) :
    quoteSum p slots ≤ escrowSum slots := by
  have := quoteSum_add_not p slots
  omega

theorem quoteSum_congr {q : RequestSlot → Bool} (h : ∀ slot ∈ slots, p slot = q slot) :
    quoteSum p slots = quoteSum q slots := by
  rw [quoteSum, quoteSum, List.filter_congr h]

/-- A running pair that adds each quote to one of its sides never saturates while the whole
escrow is a word. -/
theorem foldl_toNat {f : U256 × U256 → RequestSlot → U256 × U256} {p q : RequestSlot → Bool}
    (hpq : ∀ slot, p slot = true → q slot = false)
    (hf : ∀ acc slot, acc.1.toNat + acc.2.toNat + slot.quotedCostGrains.toNat < 2 ^ 256 →
      (f acc slot).1.toNat = acc.1.toNat + (if p slot then slot.quotedCostGrains.toNat else 0) ∧
      (f acc slot).2.toNat = acc.2.toNat + (if q slot then slot.quotedCostGrains.toNat else 0))
    (acc : U256 × U256) (hlt : acc.1.toNat + acc.2.toNat + escrowSum slots < 2 ^ 256) :
    (slots.foldl f acc).1.toNat = acc.1.toNat + quoteSum p slots ∧
      (slots.foldl f acc).2.toNat = acc.2.toNat + quoteSum q slots := by
  induction slots generalizing acc with
  | nil => exact ⟨rfl, rfl⟩
  | cons slot slots ih =>
    rw [escrowSum_cons] at hlt
    obtain ⟨h₁, h₂⟩ := hf acc slot (by omega)
    have hsum : (f acc slot).1.toNat + (f acc slot).2.toNat ≤
        acc.1.toNat + acc.2.toNat + slot.quotedCostGrains.toNat := by
      have := hpq slot
      rw [h₁, h₂]
      cases hp : p slot <;> cases hq : q slot <;> simp_all <;> omega
    obtain ⟨ih₁, ih₂⟩ := ih (f acc slot) (by omega)
    rw [List.foldl_cons, quoteSum_cons, quoteSum_cons]
    omega

theorem splitQuotedEscrow_toNat (hlt : escrowSum slots < 2 ^ 256) :
    (splitQuotedEscrow slots).1.toNat = quoteSum isDone slots ∧
      (splitQuotedEscrow slots).2.toNat = quoteSum isErrored slots := by
  have h := foldl_toNat (f := splitStep) (p := isDone) (q := isErrored) ?_ ?_ (0, 0)
    (show _ + escrowSum slots < 2 ^ 256 by simpa using hlt)
  · simpa [splitQuotedEscrow] using h
  · intro slot hdone
    simp_all [isDone, isErrored]
  · intro acc slot hacc
    cases hs : slot.state with
    | done =>
      simp [splitStep, hs, isDone, isErrored, saturatingAdd_toNat_of_lt
        (show acc.1.toNat + slot.quotedCostGrains.toNat < 2 ^ 256 by omega)]
    | errored =>
      simp [splitStep, hs, isDone, isErrored, saturatingAdd_toNat_of_lt
        (show acc.2.toNat + slot.quotedCostGrains.toNat < 2 ^ 256 by omega)]
    | pending | dispatched => simp [splitStep, hs, isDone, isErrored]

theorem foldl_recoverStep_toNat (hlt : escrowSum slots < 2 ^ 256) :
    (slots.foldl recoverStep (0, 0)).1.toNat = quoteSum isDone slots ∧
      (slots.foldl recoverStep (0, 0)).2.toNat = quoteSum (!isDone ·) slots := by
  have h := foldl_toNat (f := recoverStep) (p := isDone) (q := (!isDone ·)) ?_ ?_ (0, 0)
    (show _ + escrowSum slots < 2 ^ 256 by simpa using hlt)
  · simpa using h
  · intro slot hdone
    simp [hdone]
  · intro acc slot hacc
    have h₁ := saturatingAdd_toNat_of_lt
      (show acc.1.toNat + slot.quotedCostGrains.toNat < 2 ^ 256 by omega)
    have h₂ := saturatingAdd_toNat_of_lt
      (show acc.2.toNat + slot.quotedCostGrains.toNat < 2 ^ 256 by omega)
    by_cases hs : slot.state = .done <;> simp [recoverStep, hs, isDone, h₁, h₂]

end Escrow

section Persisted

def PersistedSlot.fromSlot (slot : RequestSlot) : PersistedSlot where
  state := slot.state
  request := slot.request
  quotedCostGrains := toDecStr slot.quotedCostGrains
  error := slot.error

def PersistedBatch.fromRecord (r : BatchRecord) (refundSettled : Bool) : PersistedBatch where
  id := r.id
  status := r.status
  paidEscrowGrains := toDecStr r.paidEscrowGrains
  releasedGrains := toDecStr r.releasedGrains
  refundedGrains := toDecStr r.refundedGrains
  payerApiKeyId := r.payerApiKeyId
  x402Payer := r.x402Payer.map fun p => "0x" ++ hexEncode (wordBytes 20 p)
  readTokenHash := r.readTokenHash
  slots := r.slots.map PersistedSlot.fromSlot
  createdAt := r.createdAt
  refundSettled := refundSettled

def parseDec (s : String) : U256 := (fromDecStr s).getD 0

/-- Twenty bytes in hexadecimal, with or without the prefix. -/
def parseH160Hex (s : String) : Option H160 :=
  let digits := match s.toList with
    | '0' :: 'x' :: rest => rest
    | cs => cs
  (hexDecode 20 digits).map (ofWordBytes 160)

def PersistedSlot.intoSlot (slot : PersistedSlot) : RequestSlot where
  state := slot.state
  request := slot.request
  quotedCostGrains := parseDec slot.quotedCostGrains
  response := none
  error := slot.error

def PersistedBatch.intoRecord (b : PersistedBatch) : BatchRecord where
  id := b.id
  status := b.status
  paidEscrowGrains := parseDec b.paidEscrowGrains
  releasedGrains := parseDec b.releasedGrains
  refundedGrains := parseDec b.refundedGrains
  payerApiKeyId := b.payerApiKeyId
  x402Payer := b.x402Payer.bind parseH160Hex
  readTokenHash := b.readTokenHash
  slots := b.slots.map PersistedSlot.intoSlot
  createdAt := b.createdAt

def RequestSlot.bare (slot : RequestSlot) : RequestSlot := { slot with response := none }

/-- The record without the response bodies. -/
def BatchRecord.bare (r : BatchRecord) : BatchRecord :=
  { r with slots := r.slots.map RequestSlot.bare }

@[simp] theorem parseDec_toDecStr (x : U256) : parseDec (toDecStr x) = x := by
  rw [parseDec, fromDecStr_toDecStr, Option.getD_some]

@[simp] theorem parseH160Hex_hexEncode (p : H160) :
    parseH160Hex ("0x" ++ hexEncode (wordBytes 20 p)) = some p := by
  have hdecode := hexDecode_hexEncode (wordBytes 20 p)
  rw [wordBytes_length] at hdecode
  have hlist : ("0x" ++ hexEncode (wordBytes 20 p)).toList =
      '0' :: 'x' :: (hexEncode (wordBytes 20 p)).toList := by
    rw [String.toList_append]
    rfl
  simp only [parseH160Hex, hlist, hdecode, Option.map_some]
  exact congrArg some (ofWordBytes_wordBytes (by omega) p)

@[simp] theorem intoSlot_fromSlot (slot : RequestSlot) :
    (PersistedSlot.fromSlot slot).intoSlot = slot.bare := by
  simp [PersistedSlot.fromSlot, PersistedSlot.intoSlot, RequestSlot.bare]

theorem intoRecord_fromRecord (r : BatchRecord) (settled : Bool) :
    (PersistedBatch.fromRecord r settled).intoRecord = r.bare := by
  have hpayer : (r.x402Payer.map fun p => "0x" ++ hexEncode (wordBytes 20 p)).bind parseH160Hex =
      r.x402Payer := by
    cases r.x402Payer with
    | none => rfl
    | some p => rw [Option.map_some, Option.bind_some, parseH160Hex_hexEncode]
  have hslots : (r.slots.map PersistedSlot.fromSlot).map PersistedSlot.intoSlot =
      r.slots.map RequestSlot.bare := by
    rw [List.map_map]
    exact List.map_congr_left fun slot _ => intoSlot_fromSlot slot
  simp only [PersistedBatch.fromRecord, PersistedBatch.intoRecord, BatchRecord.bare, hpayer,
    hslots, parseDec_toDecStr]

end Persisted
end Gateway
