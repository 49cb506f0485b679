import CitrateGateway.Gateway.Handlers

/-!
# Recovery does the accounts of the processor

Recovery counts every slot that is not done as errored. On the same slots it comes to the
amounts, the status and the settlement that the processor comes to, and a record with fewer
slots done never refunds less.
-/

namespace Gateway
set_option autoImplicit false
open Words

section Counting

/-- A slot as it counts when nothing more will come of it. -/
def RequestSlot.counted (slot : RequestSlot) : RequestSlot :=
  if slot.state.isTerminal then slot else { slot with state := .errored }

/-- The record with every unfinished slot counted as errored. -/
def BatchRecord.abandoned (r : BatchRecord) : BatchRecord :=
  { r with slots := r.slots.map RequestSlot.counted }

theorem counted_done (slot : RequestSlot) : slot.counted.state = .done ↔ slot.state = .done := by
  unfold RequestSlot.counted
  cases h : slot.state <;> simp [RequestStatus.isTerminal, h]

theorem counted_errored (slot : RequestSlot) :
    slot.counted.state = .errored ↔ slot.state ≠ .done := by
  unfold RequestSlot.counted
  cases h : slot.state <;> simp [RequestStatus.isTerminal, h]

theorem counted_quote (slot : RequestSlot) :
    slot.counted.quotedCostGrains = slot.quotedCostGrains := by
  unfold RequestSlot.counted
  split <;> rfl

theorem recoverStep_bare (acc : U256 × U256) (slot : RequestSlot) :
    recoverStep acc slot.bare = splitStep acc slot.counted := by
  unfold recoverStep splitStep RequestSlot.counted RequestSlot.bare
  cases h : slot.state <;> simp [RequestStatus.isTerminal, h]

theorem foldl_recoverStep_bare (slots : List RequestSlot) (acc : U256 × U256) :
    (slots.map RequestSlot.bare).foldl recoverStep acc =
      (slots.map RequestSlot.counted).foldl splitStep acc := by
  induction slots generalizing acc with
  | nil => rfl
  | cons slot slots ih =>
    rw [List.map_cons, List.foldl_cons, recoverStep_bare, ih]
    rfl

theorem completedCount_bare (r : BatchRecord) :
    r.bare.completedCount = r.abandoned.completedCount := by
  unfold BatchRecord.completedCount BatchRecord.bare BatchRecord.abandoned
  rw [List.countP_map, List.countP_map]
  apply List.countP_congr
  intro slot _
  simp only [Function.comp_apply, decide_eq_true_eq, counted_done]
  rfl

theorem requestCount_bare (r : BatchRecord) : r.bare.requestCount = r.abandoned.requestCount := by
  simp [BatchRecord.requestCount, BatchRecord.bare, BatchRecord.abandoned]

theorem countP_counted (slots : List RequestSlot) :
    (slots.map RequestSlot.counted).countP (·.state = .done) +
      (slots.map RequestSlot.counted).countP (·.state = .errored) = slots.length := by
  induction slots with
  | nil => rfl
  | cons slot slots ih =>
    rw [List.map_cons, List.countP_cons, List.countP_cons, List.length_cons]
    by_cases h : slot.state = .done
    · have hcounted : slot.counted.state = .done := (counted_done slot).2 h
      simp only [hcounted, decide_true, if_true, reduceCtorEq, decide_false, Bool.false_eq_true,
        if_false]
      omega
    · have hcounted : slot.counted.state = .errored := (counted_errored slot).2 h
      simp only [hcounted, decide_true, if_true, reduceCtorEq, decide_false, Bool.false_eq_true,
        if_false]
      omega

theorem counts_abandoned (r : BatchRecord) :
    r.abandoned.completedCount + r.abandoned.erroredCount = r.abandoned.requestCount := by
  have hcounted := countP_counted r.slots
  simp only [BatchRecord.completedCount, BatchRecord.erroredCount, BatchRecord.requestCount,
    BatchRecord.abandoned, List.length_map]
  exact hcounted

end Counting

section Agreement

/-- What the two ways to settle a batch have to agree on. -/
structure SameAccounts (r r' : BatchRecord) : Prop where
  released : r.releasedGrains = r'.releasedGrains
  refunded : r.refundedGrains = r'.refundedGrains
  status : r.status = r'.status
  settlement : ∀ batchId terminal,
    App.settlePersisted batchId r.payerApiKeyId r.x402Payer r.refundedGrains terminal =
      App.settlePersisted batchId r'.payerApiKeyId r'.x402Payer r'.refundedGrains terminal

/-- Recovery of a snapshot agrees with the processor that counts unfinished slots as errored. -/
theorem reconcile_agrees (r : BatchRecord) :
    SameAccounts r.bare.reconcile r.abandoned.finish := by
  have hfold := foldl_recoverStep_bare r.slots (0, 0)
  have hrefunded : r.bare.reconcile.refundedGrains = r.abandoned.finish.refundedGrains :=
    congrArg Prod.snd hfold
  constructor
  · exact congrArg Prod.fst hfold
  · exact hrefunded
  · have hsum := counts_abandoned r
    simp only [BatchRecord.reconcile, BatchRecord.finish, completedCount_bare, requestCount_bare]
    by_cases hall : r.abandoned.completedCount = r.abandoned.requestCount
    · rw [if_pos hall, if_pos hall]
    · rw [if_neg hall, if_neg hall]
      by_cases hnone : r.abandoned.completedCount = 0
      · rw [if_pos hnone, if_pos (by omega)]
      · rw [if_neg hnone, if_neg (by omega)]
  · intro batchId terminal
    rw [hrefunded]
    rfl

/-- Every errored slot says what went wrong. -/
def BatchRecord.Explained (r : BatchRecord) : Prop :=
  ∀ slot ∈ r.slots, slot.state = .errored → slot.error.isSome = true

theorem interrupt_bare {slot : RequestSlot} (hterminal : slot.state.isTerminal = true)
    (hexplained : slot.state = .errored → slot.error.isSome = true) :
    slot.bare.interrupt = slot.bare := by
  obtain ⟨state, request, quote, response, error⟩ := slot
  cases state with
  | done => rfl
  | errored =>
    obtain ⟨text, htext⟩ := Option.isSome_iff_exists.1 (hexplained rfl)
    simp only at htext
    subst htext
    rfl
  | pending => cases hterminal
  | dispatched => cases hterminal

theorem counted_of_terminal {slot : RequestSlot} (h : slot.state.isTerminal = true) :
    slot.counted = slot := if_pos h

theorem abandoned_of_terminal {r : BatchRecord} (h : r.allTerminal = true) :
    r.abandoned = r := by
  have hall := List.all_eq_true.1 h
  have hslots : r.slots.map RequestSlot.counted = r.slots := by
    conv_rhs => rw [← List.map_id r.slots]
    exact List.map_congr_left fun slot hslot => counted_of_terminal (hall slot hslot)
  rw [BatchRecord.abandoned, hslots]

/-- Once every slot is over, recovery comes to the very record that the processor settles. -/
theorem reconcile_eq_finish {r : BatchRecord} (hterminal : r.allTerminal = true)
    (hexplained : r.Explained) : r.bare.reconcile = r.finish.bare := by
  have hagree := reconcile_agrees r
  rw [abandoned_of_terminal hterminal] at hagree
  have hslots : (r.slots.map RequestSlot.bare).map RequestSlot.interrupt =
      r.slots.map RequestSlot.bare := by
    rw [List.map_map]
    apply List.map_congr_left
    intro slot hslot
    exact interrupt_bare (List.all_eq_true.1 hterminal slot hslot) (hexplained slot hslot)
  have hreleased := hagree.released
  have hrefunded := hagree.refunded
  have hstatus := hagree.status
  simp only [BatchRecord.reconcile, BatchRecord.finish, BatchRecord.bare] at *
  rw [hslots, hreleased, hrefunded, hstatus]

end Agreement

section Lag

/-- What recovery refunds of some slots. -/
def recoveredRefund (slots : List RequestSlot) : U256 := (slots.foldl recoverStep (0, 0)).2

theorem saturatingAdd_toNat_min {w : Nat} (a b : BitVec w) :
    (saturatingAdd a b).toNat = min (a.toNat + b.toNat) (2 ^ w - 1) := by
  unfold saturatingAdd
  split
  · rename_i h
    rw [BitVec.toNat_add, Nat.mod_eq_of_lt h]
    omega
  · rw [BitVec.toNat_allOnes]
    omega

theorem foldl_recoverStep_min (slots : List RequestSlot) (acc : U256 × U256) :
    (slots.foldl recoverStep acc).2.toNat =
      min (acc.2.toNat + quoteSum (!isDone ·) slots) (2 ^ 256 - 1) := by
  induction slots generalizing acc with
  | nil =>
    have := acc.2.isLt
    simp only [List.foldl_nil, quoteSum, List.filter_nil, List.map_nil, List.sum_nil]
    omega
  | cons slot slots ih =>
    rw [List.foldl_cons, ih, quoteSum_cons]
    by_cases h : slot.state = .done
    · simp [recoverStep, isDone, h]
    · simp only [recoverStep, isDone, h, if_false, decide_false, Bool.not_false, if_true,
        saturatingAdd_toNat_min]
      omega

/-- A slot that is done stays done, and the quote stays what it was. -/
def Advances (slot slot' : RequestSlot) : Prop :=
  slot'.quotedCostGrains = slot.quotedCostGrains ∧ (slot.state = .done → slot'.state = .done)

theorem quoteSum_advances {slots slots' : List RequestSlot}
    (h : List.Forall₂ Advances slots slots') :
    quoteSum (!isDone ·) slots' ≤ quoteSum (!isDone ·) slots := by
  induction h with
  | nil => exact Nat.le_refl _
  | @cons slot slot' slots slots' hslot _ ih =>
    obtain ⟨hquote, hdone⟩ := hslot
    rw [quoteSum_cons, quoteSum_cons, hquote]
    by_cases h' : slot.state = .done
    · have hover : (!isDone slot) = false := by simp [isDone, h']
      have hover' : (!isDone slot') = false := by simp [isDone, hdone h']
      rw [hover, hover']
      simpa using ih
    · have hopen : (!isDone slot) = true := by simp [isDone, h']
      rw [if_pos hopen]
      split <;> omega

/-- A lagging snapshot never refunds less. -/
theorem recoveredRefund_antitone {slots slots' : List RequestSlot}
    (h : List.Forall₂ Advances slots slots') :
    (recoveredRefund slots').toNat ≤ (recoveredRefund slots).toNat := by
  have hsum := quoteSum_advances h
  rw [recoveredRefund, recoveredRefund, foldl_recoverStep_min, foldl_recoverStep_min]
  omega

end Lag
end Gateway
