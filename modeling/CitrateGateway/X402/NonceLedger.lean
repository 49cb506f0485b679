import CitrateGateway.Shared.Words
import Mathlib.Data.List.AList

/-!
# Ledger of issued challenge nonces

Two indexes over the outstanding nonces: `entries` by nonce and `insertionOrder` by
sequence number. Recording prunes expired entries when the ledger is full and then evicts
the newest ones; consuming removes a nonce on its first use.
-/

namespace X402
set_option autoImplicit false
open Words

def defaultMaxOutstanding : Nat := 100000

inductive NonceLedgerError where
  | unknown
  | expired
  | requestMismatch
  deriving DecidableEq

structure LedgerEntry where
  expiresAt : UInt64
  sequence : UInt64
  requestCommitment : H256
  deriving DecidableEq

structure LedgerState where
  entries : AList fun _ : H256 => LedgerEntry
  insertionOrder : AList fun _ : UInt64 => H256
  nextSequence : UInt64

namespace LedgerState

def empty : LedgerState := ⟨∅, ∅, 0⟩

/-- The sequence numbers of the entries that have expired. -/
def expiredSequences (st : LedgerState) (now : UInt64) : List UInt64 :=
  st.entries.entries.filterMap fun e =>
    if e.2.expiresAt ≤ now then some e.2.sequence else none

def removeSequences (order : AList fun _ : UInt64 => H256) (seqs : List UInt64) :
    AList fun _ : UInt64 => H256 :=
  seqs.foldl (fun o sequence => o.erase sequence) order

/-- Keep the unexpired entries. -/
def retain (entries : AList fun _ : H256 => LedgerEntry) (now : UInt64) :
    AList fun _ : H256 => LedgerEntry where
  entries := entries.entries.filter fun e => now < e.2.expiresAt
  nodupKeys := entries.nodupKeys.sublist List.filter_sublist

/-- The last entry of an ordered index. -/
def maxSequence (order : AList fun _ : UInt64 => H256) : Option (UInt64 × H256) :=
  order.entries.foldl (fun best e =>
    match best with
    | none => some (e.1, e.2)
    | some b => if b.1 < e.1 then some (e.1, e.2) else some b) none

/-- Evict the newest entries until there is room; `fuel` bounds the rounds. -/
def evict (maxOutstanding : Nat) : Nat → LedgerState → LedgerState
  | 0, st => st
  | fuel+1, st =>
    if maxOutstanding ≤ st.entries.keys.length then
      match maxSequence st.insertionOrder with
      | none => st
      | some (sequence, candidate) =>
        evict maxOutstanding fuel {
          st with
          insertionOrder := st.insertionOrder.erase sequence
          entries := st.entries.erase candidate }
    else st

def recordBound (maxOutstanding : Nat) (st : LedgerState) (nonce requestCommitment : H256)
    (expiresAt now : UInt64) : LedgerState :=
  if maxOutstanding = 0 then st
  else
    let st :=
      match st.entries.lookup nonce with
      | some previous =>
        { st with
          entries := st.entries.erase nonce
          insertionOrder := st.insertionOrder.erase previous.sequence }
      | none => st
    let st :=
      if maxOutstanding ≤ st.entries.keys.length then
        { st with
          insertionOrder := removeSequences st.insertionOrder (st.expiredSequences now)
          entries := retain st.entries now }
      else st
    let st := evict maxOutstanding st.insertionOrder.keys.length st
    let sequence := st.nextSequence
    { entries := st.entries.insert nonce ⟨expiresAt, sequence, requestCommitment⟩
      insertionOrder := st.insertionOrder.insert sequence nonce
      nextSequence := if sequence = 0xffffffffffffffff then sequence else sequence + 1 }

def consumeBound (st : LedgerState) (nonce requestCommitment : H256) (now : UInt64) :
    Except NonceLedgerError Unit × LedgerState :=
  match st.entries.lookup nonce with
  | none => (.error .unknown, st)
  | some entry =>
    if entry.expiresAt ≤ now then
      (.error .expired,
        { st with
          entries := st.entries.erase nonce
          insertionOrder := st.insertionOrder.erase entry.sequence })
    else if entry.requestCommitment ≠ requestCommitment then
      (.error .requestMismatch, st)
    else
      (.ok (),
        { st with
          entries := st.entries.erase nonce
          insertionOrder := st.insertionOrder.erase entry.sequence })

section Lookups

/-- Every entry of `st'` is an entry of `st`. -/
def Within (st' st : LedgerState) : Prop :=
  ∀ n e, st'.entries.lookup n = some e → st.entries.lookup n = some e

theorem Within.refl (st : LedgerState) : st.Within st := fun _ _ h => h

theorem Within.trans {st st' st'' : LedgerState} (h : st''.Within st') (h' : st'.Within st) :
    st''.Within st := fun n e he => h' n e (h n e he)

theorem within_of_erase {st st' : LedgerState} {nonce : H256}
    (h : st'.entries = st.entries.erase nonce) : st'.Within st := by
  intro n e he
  rw [h] at he
  by_cases hn : n = nonce
  · subst hn
    simp at he
  · rwa [AList.lookup_erase_ne hn] at he

theorem within_of_retain {st st' : LedgerState} {now : UInt64}
    (h : st'.entries = retain st.entries now) : st'.Within st := by
  intro n e he
  rw [h] at he
  have hmem := AList.mem_lookup_iff.1 he
  exact AList.mem_lookup_iff.2 (List.mem_of_mem_filter hmem)

theorem evict_within (maxOutstanding fuel : Nat) (st : LedgerState) :
    (evict maxOutstanding fuel st).Within st := by
  induction fuel generalizing st with
  | zero => exact .refl st
  | succ fuel ih =>
    unfold evict
    split
    · split
      · exact .refl st
      · exact (ih _).trans (within_of_erase rfl)
    · exact .refl st

theorem lookup_of_recordBound {maxOutstanding : Nat} {st : LedgerState}
    {nonce requestCommitment : H256} {expiresAt now : UInt64} {n : H256} {e : LedgerEntry}
    (h : (st.recordBound maxOutstanding nonce requestCommitment expiresAt now).entries.lookup n =
      some e) :
    st.entries.lookup n = some e ∨
      n = nonce ∧ e.requestCommitment = requestCommitment ∧ e.expiresAt = expiresAt := by
  unfold recordBound at h
  split at h
  · exact Or.inl h
  · simp only at h
    by_cases hn : n = nonce
    · subst hn
      rw [AList.lookup_insert] at h
      cases h
      exact Or.inr ⟨rfl, rfl, rfl⟩
    · rw [AList.lookup_insert_ne hn] at h
      left
      have h₁ := evict_within _ _ _ n e h
      have h₂ : ∀ {st₁ : LedgerState}, (if maxOutstanding ≤ st₁.entries.keys.length then
          { st₁ with
            insertionOrder := removeSequences st₁.insertionOrder (st₁.expiredSequences now)
            entries := retain st₁.entries now }
        else st₁).Within st₁ := by
        intro st₁
        split
        · exact within_of_retain rfl
        · exact .refl st₁
      have h₃ := h₂ n e h₁
      split at h₃
      · exact within_of_erase rfl n e h₃
      · exact h₃

theorem consumeBound_within (st : LedgerState) (nonce requestCommitment : H256) (now : UInt64) :
    (st.consumeBound nonce requestCommitment now).2.Within st := by
  unfold consumeBound
  split
  · exact .refl st
  · split
    · exact within_of_erase rfl
    · split
      · exact .refl st
      · exact within_of_erase rfl

/-- A nonce is consumed only while it is live and for the request it was issued for, and it
is gone afterwards. -/
theorem consumeBound_ok {st st' : LedgerState} {nonce requestCommitment : H256} {now : UInt64}
    (h : st.consumeBound nonce requestCommitment now = (.ok (), st')) :
    (∃ e, st.entries.lookup nonce = some e ∧ now < e.expiresAt ∧
      e.requestCommitment = requestCommitment) ∧ st'.entries.lookup nonce = none := by
  unfold consumeBound at h
  split at h
  · cases h
  · rename_i e he
    split at h
    · cases h
    · rename_i hlive
      split at h
      · cases h
      · rename_i hcommit
        cases h
        exact ⟨⟨e, he, by simpa using hlive, by simpa using hcommit⟩,
          AList.lookup_erase nonce st.entries⟩

end Lookups
end LedgerState
end X402
