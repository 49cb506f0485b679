import CitrateGateway.X402.NonceLedger

/-!
# The two indexes of the nonce ledger

Whatever calls a ledger has seen, its indexes are inverse to each other and it holds at
most as many nonces as it has room for. A nonce that is recorded again, pruned, evicted or
consumed leaves both of them. A full ledger gives up the nonce recorded last, so the older
ones survive a flood of new challenges.
-/

namespace X402
set_option autoImplicit false
open Words

namespace LedgerState

section Indexes

/-- The two indexes are inverse to each other, and every sequence number is used up. -/
structure Indexed (st : LedgerState) : Prop where
  nonce_of : ∀ n e, st.entries.lookup n = some e → st.insertionOrder.lookup e.sequence = some n
  entry_of : ∀ s n, st.insertionOrder.lookup s = some n →
    ∃ e, st.entries.lookup n = some e ∧ e.sequence = s
  fresh : ∀ n e, st.entries.lookup n = some e → e.sequence < st.nextSequence

/-- The ledger without one of its entries. -/
def remove (st : LedgerState) (nonce : H256) (sequence : UInt64) : LedgerState :=
  { st with
    entries := st.entries.erase nonce
    insertionOrder := st.insertionOrder.erase sequence }

theorem indexed_empty : empty.Indexed := by
  constructor
  · intro n e h
    simp [empty] at h
  · intro s n h
    simp [empty] at h
  · intro n e h
    simp [empty] at h

theorem remove_within (st : LedgerState) (nonce : H256) (sequence : UInt64) :
    (st.remove nonce sequence).Within st :=
  within_of_erase rfl

theorem lookup_remove_ne {st : LedgerState} {nonce n : H256} (sequence : UInt64)
    (h : n ≠ nonce) : (st.remove nonce sequence).entries.lookup n = st.entries.lookup n :=
  AList.lookup_erase_ne h

theorem Indexed.sequence_inj {st : LedgerState} (h : st.Indexed) {n n' : H256}
    {e e' : LedgerEntry} (he : st.entries.lookup n = some e)
    (he' : st.entries.lookup n' = some e') (hs : e.sequence = e'.sequence) : n = n' := by
  have hn := h.nonce_of n e he
  rw [hs, h.nonce_of n' e' he'] at hn
  exact (Option.some.inj hn).symm

theorem Indexed.remove {st : LedgerState} (h : st.Indexed) {nonce : H256} {e : LedgerEntry}
    (he : st.entries.lookup nonce = some e) : (st.remove nonce e.sequence).Indexed := by
  constructor
  · intro n e' he'
    have hold := st.remove_within nonce e.sequence n e' he'
    have hn : n ≠ nonce := by
      rintro rfl
      rw [LedgerState.remove, AList.lookup_erase] at he'
      cases he'
    have hs : e'.sequence ≠ e.sequence := fun hs => hn (h.sequence_inj hold he hs)
    exact (AList.lookup_erase_ne hs).trans (h.nonce_of n e' hold)
  · intro s n hs
    have hne : s ≠ e.sequence := by
      rintro rfl
      rw [LedgerState.remove, AList.lookup_erase] at hs
      cases hs
    obtain ⟨e', he', rfl⟩ := h.entry_of s n ((AList.lookup_erase_ne hne).symm.trans hs)
    refine ⟨e', ?_, rfl⟩
    refine (lookup_remove_ne _ ?_).trans he'
    rintro rfl
    rw [he] at he'
    cases he'
    exact hne rfl
  · intro n e' he'
    exact h.fresh n e' (st.remove_within nonce e.sequence n e' he')

theorem remove_length {st : LedgerState} {nonce : H256} {e : LedgerEntry} (sequence : UInt64)
    (he : st.entries.lookup nonce = some e) :
    (st.remove nonce sequence).entries.keys.length + 1 = st.entries.keys.length := by
  have hmem : nonce ∈ st.entries.keys :=
    AList.mem_keys.1 (AList.lookup_isSome.1 (by rw [he]; rfl))
  have hpos := List.length_pos_of_mem hmem
  rw [remove, AList.keys_erase, List.length_erase_of_mem hmem]
  omega

end Indexes

section Prune

/-- The ledger without its expired entries. -/
def prune (st : LedgerState) (now : UInt64) : LedgerState :=
  { st with
    insertionOrder := removeSequences st.insertionOrder (st.expiredSequences now)
    entries := retain st.entries now }

theorem lookup_retain (entries : AList fun _ : H256 => LedgerEntry) (now : UInt64) (n : H256) :
    (retain entries now).lookup n =
      (entries.lookup n).filter fun e => now < e.expiresAt := by
  apply Option.ext
  intro e
  rw [Option.filter_eq_some_iff, ← Option.mem_def, AList.mem_lookup_iff, ← Option.mem_def,
    AList.mem_lookup_iff]
  exact List.mem_filter

theorem lookup_removeSequences (order : AList fun _ : UInt64 => H256) (seqs : List UInt64)
    (s : UInt64) :
    (removeSequences order seqs).lookup s = if s ∈ seqs then none else order.lookup s := by
  induction seqs generalizing order with
  | nil => rfl
  | cons q seqs ih =>
    rw [removeSequences, List.foldl_cons]
    refine (ih _).trans ?_
    by_cases hs : s ∈ seqs
    · rw [if_pos hs, if_pos (List.mem_cons_of_mem q hs)]
    · rw [if_neg hs]
      by_cases hq : s = q
      · subst hq
        rw [AList.lookup_erase, if_pos List.mem_cons_self]
      · rw [AList.lookup_erase_ne hq, if_neg (by simp [hq, hs])]

theorem mem_expiredSequences {st : LedgerState} {now s : UInt64} :
    s ∈ st.expiredSequences now ↔
      ∃ n e, st.entries.lookup n = some e ∧ e.expiresAt ≤ now ∧ e.sequence = s := by
  unfold expiredSequences
  rw [List.mem_filterMap]
  constructor
  · rintro ⟨⟨n, e⟩, hmem, hs⟩
    split at hs
    · rename_i hexp
      exact ⟨n, e, AList.mem_lookup_iff.2 hmem, hexp, Option.some.inj hs⟩
    · cases hs
  · rintro ⟨n, e, he, hexp, hs⟩
    refine ⟨⟨n, e⟩, AList.mem_lookup_iff.1 he, ?_⟩
    rw [if_pos hexp, hs]

theorem prune_within (st : LedgerState) (now : UInt64) : (st.prune now).Within st :=
  within_of_retain rfl

theorem lookup_prune {st : LedgerState} {now : UInt64} {n : H256} {e : LedgerEntry}
    (he : st.entries.lookup n = some e) (hlive : now < e.expiresAt) :
    (st.prune now).entries.lookup n = some e := by
  refine (lookup_retain _ _ _).trans ?_
  rw [he, Option.filter_some, if_pos (by simpa using hlive)]

theorem Indexed.prune {st : LedgerState} (h : st.Indexed) (now : UInt64) :
    (st.prune now).Indexed := by
  constructor
  · intro n e he
    have hlive := he
    rw [LedgerState.prune, lookup_retain, Option.filter_eq_some_iff] at hlive
    obtain ⟨hold, hlive⟩ := hlive
    refine (lookup_removeSequences _ _ _).trans ?_
    rw [if_neg]
    · exact h.nonce_of n e hold
    · intro hmem
      obtain ⟨n', e', he', hexp, hs⟩ := mem_expiredSequences.1 hmem
      have hn := h.sequence_inj he' hold hs
      subst hn
      rw [hold] at he'
      cases he'
      exact absurd (of_decide_eq_true hlive) (UInt64.not_lt.2 hexp)
  · intro s n hs
    rw [LedgerState.prune, lookup_removeSequences] at hs
    split at hs
    · cases hs
    · rename_i hmem
      obtain ⟨e, he, rfl⟩ := h.entry_of s n hs
      refine ⟨e, lookup_prune he ?_, rfl⟩
      rw [← UInt64.not_le]
      intro hexp
      exact hmem (mem_expiredSequences.2 ⟨n, e, he, hexp, rfl⟩)
  · intro n e he
    exact h.fresh n e (st.prune_within now n e he)

theorem retain_length (entries : AList fun _ : H256 => LedgerEntry) (now : UInt64) :
    (retain entries now).keys.length ≤ entries.keys.length := by
  simp only [AList.keys, List.keys, List.length_map]
  exact List.length_filter_le _ _

end Prune
section Evict

theorem maxSequence_fold (es : List (Sigma fun _ : UInt64 => H256)) :
    ∀ best : Option (UInt64 × H256),
      let last := es.foldl (fun best e =>
        match best with
        | none => some (e.1, e.2)
        | some b => if b.1 < e.1 then some (e.1, e.2) else some b) best
      (∀ b, last = some b → best = some b ∨ ⟨b.1, b.2⟩ ∈ es) ∧
        (∀ b, best = some b → ∃ b', last = some b' ∧ b.1 ≤ b'.1) ∧
        ∀ e ∈ es, ∃ b', last = some b' ∧ e.1 ≤ b'.1 := by
  induction es with
  | nil =>
    intro best
    exact ⟨fun b hb => Or.inl hb, fun b hb => ⟨b, hb, UInt64.le_refl _⟩, nofun⟩
  | cons e es ih =>
    intro best
    obtain ⟨next, hnext⟩ : ∃ next : UInt64 × H256, (match best with
        | none => some (e.1, e.2)
        | some b => if b.1 < e.1 then some (e.1, e.2) else some b) = some next ∧
        (best = some next ∨ next = (e.1, e.2)) ∧ e.1 ≤ next.1 ∧
        ∀ b, best = some b → b.1 ≤ next.1 := by
      cases best with
      | none => exact ⟨_, rfl, Or.inr rfl, UInt64.le_refl _, nofun⟩
      | some b =>
        by_cases hlt : b.1 < e.1
        · refine ⟨(e.1, e.2), if_pos hlt, Or.inr rfl, UInt64.le_refl _, ?_⟩
          intro b' hb'
          cases hb'
          exact UInt64.le_of_lt hlt
        · refine ⟨b, if_neg hlt, Or.inl rfl, UInt64.not_lt.1 hlt, ?_⟩
          intro b' hb'
          cases hb'
          exact UInt64.le_refl _
    obtain ⟨hmatch, hfrom, hle, hbest⟩ := hnext
    simp only [List.foldl_cons, hmatch]
    obtain ⟨hin, hkeep, hall⟩ := ih (some next)
    obtain ⟨last, hlast, hnl⟩ := hkeep next rfl
    refine ⟨?_, ?_, ?_⟩
    · intro b hb
      rcases hin b hb with h | h
      · cases h
        rcases hfrom with h | h
        · exact Or.inl h
        · refine Or.inr ?_
          rw [h]
          exact List.mem_cons_self
      · exact Or.inr (List.mem_cons_of_mem _ h)
    · intro b hb
      exact ⟨last, hlast, UInt64.le_trans (hbest b hb) hnl⟩
    · intro e' he'
      rcases List.mem_cons.1 he' with rfl | he'
      · exact ⟨last, hlast, UInt64.le_trans hle hnl⟩
      · exact hall e' he'

theorem maxSequence_none {order : AList fun _ : UInt64 => H256}
    (h : maxSequence order = none) (s : UInt64) : order.lookup s = none := by
  cases hs : order.lookup s with
  | none => rfl
  | some n =>
    have hmem := AList.mem_lookup_iff.1 (Option.mem_def.2 hs)
    obtain ⟨b, hb, _⟩ := (maxSequence_fold order.entries none).2.2 _ hmem
    cases h.symm.trans hb

theorem maxSequence_some {order : AList fun _ : UInt64 => H256} {s : UInt64} {n : H256}
    (h : maxSequence order = some (s, n)) :
    order.lookup s = some n ∧ ∀ s' n', order.lookup s' = some n' → s' ≤ s := by
  have hfold := maxSequence_fold order.entries none
  constructor
  · rcases hfold.1 _ h with h' | h'
    · cases h'
    · exact AList.mem_lookup_iff.2 h'
  · intro s' n' hs'
    obtain ⟨b, hb, hle⟩ := hfold.2.2 _ (AList.mem_lookup_iff.1 hs')
    cases h.symm.trans hb
    exact hle

theorem evict_of_room {m : Nat} {st : LedgerState} (h : st.entries.keys.length < m)
    (fuel : Nat) : evict m fuel st = st := by
  cases fuel with
  | zero => rfl
  | succ fuel =>
    rw [evict, if_neg (Nat.not_le.2 h)]

theorem exists_lookup (st : LedgerState) (h : 0 < st.entries.keys.length) :
    ∃ n e, st.entries.lookup n = some e := by
  obtain ⟨n, hn⟩ := List.exists_mem_of_length_pos h
  have hsome := AList.lookup_isSome.2 (AList.mem_keys.2 hn)
  obtain ⟨e, he⟩ := Option.isSome_iff_exists.1 hsome
  exact ⟨n, e, he⟩

/-- A full ledger gives up the one entry with the greatest sequence number. -/
theorem Indexed.evict_full {m : Nat} {st : LedgerState} (h : st.Indexed) (hm : 1 ≤ m)
    (hfull : st.entries.keys.length = m) :
    ∃ n e, st.entries.lookup n = some e ∧
      (∀ n' e', st.entries.lookup n' = some e' → e'.sequence ≤ e.sequence) ∧
      evict m st.insertionOrder.keys.length st = st.remove n e.sequence := by
  obtain ⟨n₀, e₀, he₀⟩ := exists_lookup st (by omega)
  have horder := h.nonce_of n₀ e₀ he₀
  have hmem : e₀.sequence ∈ st.insertionOrder.keys :=
    AList.mem_keys.1 (AList.lookup_isSome.1 (by rw [horder]; rfl))
  obtain ⟨fuel, hfuel⟩ : ∃ fuel, st.insertionOrder.keys.length = fuel + 1 :=
    ⟨_, (Nat.succ_pred_eq_of_pos (List.length_pos_of_mem hmem)).symm⟩
  cases hmax : maxSequence st.insertionOrder with
  | none =>
    rw [maxSequence_none hmax] at horder
    cases horder
  | some last =>
    obtain ⟨s, n⟩ := last
    obtain ⟨hs, hgreatest⟩ := maxSequence_some hmax
    obtain ⟨e, he, rfl⟩ := h.entry_of s n hs
    refine ⟨n, e, he, ?_, ?_⟩
    · intro n' e' he'
      exact hgreatest _ n' (h.nonce_of n' e' he')
    · rw [hfuel, evict, if_pos (Nat.le_of_eq hfull.symm)]
      simp only [hmax]
      apply evict_of_room
      have hlen := remove_length e.sequence he
      change (st.remove n e.sequence).entries.keys.length < m
      omega

end Evict

section Record

/-- The ledger without an earlier record of a nonce. -/
def forget (st : LedgerState) (nonce : H256) : LedgerState :=
  match st.entries.lookup nonce with
  | some previous => st.remove nonce previous.sequence
  | none => st

theorem forget_within (st : LedgerState) (nonce : H256) : (st.forget nonce).Within st := by
  unfold forget
  split
  · exact st.remove_within _ _
  · exact .refl st

theorem lookup_forget (st : LedgerState) (nonce : H256) :
    (st.forget nonce).entries.lookup nonce = none := by
  unfold forget
  split
  · exact AList.lookup_erase nonce st.entries
  · assumption

theorem lookup_forget_ne (st : LedgerState) {nonce n : H256} (h : n ≠ nonce) :
    (st.forget nonce).entries.lookup n = st.entries.lookup n := by
  unfold forget
  split
  · exact lookup_remove_ne _ h
  · rfl

theorem Indexed.forget {st : LedgerState} (h : st.Indexed) (nonce : H256) :
    (st.forget nonce).Indexed := by
  unfold LedgerState.forget
  split
  · exact h.remove ‹_›
  · exact h

theorem forget_length {m : Nat} {st : LedgerState} (hroom : st.entries.keys.length ≤ m)
    (nonce : H256) : (st.forget nonce).entries.keys.length ≤ m := by
  unfold forget
  split
  · rename_i e he
    have := remove_length e.sequence he
    omega
  · exact hroom

theorem forget_full {m : Nat} {st : LedgerState} {nonce : H256}
    (hroom : st.entries.keys.length ≤ m)
    (hfull : m ≤ (st.forget nonce).entries.keys.length) : st.forget nonce = st := by
  unfold forget at hfull ⊢
  split at hfull
  · rename_i e he
    have := remove_length e.sequence he
    omega
  · rfl

/-- The ledger with room for one more nonce. -/
def makeRoom (m : Nat) (st : LedgerState) (nonce : H256) (now : UInt64) : LedgerState :=
  let st := st.forget nonce
  let st := if m ≤ st.entries.keys.length then st.prune now else st
  evict m st.insertionOrder.keys.length st

/-- What recording a nonce adds. -/
def push (st : LedgerState) (nonce requestCommitment : H256) (expiresAt : UInt64) :
    LedgerState where
  entries := st.entries.insert nonce ⟨expiresAt, st.nextSequence, requestCommitment⟩
  insertionOrder := st.insertionOrder.insert st.nextSequence nonce
  nextSequence := if st.nextSequence = 0xffffffffffffffff then st.nextSequence
    else st.nextSequence + 1

theorem recordBound_eq {m : Nat} (hm : 1 ≤ m) (st : LedgerState)
    (nonce requestCommitment : H256) (expiresAt now : UInt64) :
    st.recordBound m nonce requestCommitment expiresAt now =
      (st.makeRoom m nonce now).push nonce requestCommitment expiresAt := by
  rw [recordBound, if_neg (by omega)]
  rfl

/-- What `makeRoom` does: it takes a live nonce out only when the ledger is full, and then
the one with the greatest sequence number. -/
structure Roomy (m : Nat) (st : LedgerState) (nonce : H256) (now : UInt64)
    (st' : LedgerState) : Prop where
  indexed : st'.Indexed
  within : st'.Within st
  absent : st'.entries.lookup nonce = none
  room : st'.entries.keys.length < m
  next : st'.nextSequence = st.nextSequence
  kept : ∀ n e, n ≠ nonce → st.entries.lookup n = some e → now < e.expiresAt →
    st'.entries.lookup n = some e ∨ st.entries.keys.length = m ∧
      ∀ n' e', st.entries.lookup n' = some e' → e'.sequence ≤ e.sequence

theorem lookup_prune_of_length {m : Nat} {st : LedgerState} {now : UInt64}
    (hroom : st.entries.keys.length ≤ m) (hfull : m ≤ (st.prune now).entries.keys.length)
    {n : H256} {e : LedgerEntry} (he : st.entries.lookup n = some e) :
    (st.prune now).entries.lookup n = some e := by
  have hlen := Nat.le_antisymm (retain_length st.entries now) (Nat.le_trans hroom hfull)
  simp only [AList.keys, List.keys, List.length_map] at hlen
  have hall := List.length_filter_eq_length_iff.1 hlen
  exact lookup_prune he (of_decide_eq_true (hall ⟨n, e⟩ (AList.mem_lookup_iff.1 he)))

theorem Indexed.makeRoom {m : Nat} {st : LedgerState} (h : st.Indexed) (hm : 1 ≤ m)
    (hroom : st.entries.keys.length ≤ m) (nonce : H256) (now : UInt64) :
    Roomy m st nonce now (st.makeRoom m nonce now) := by
  unfold LedgerState.makeRoom
  dsimp only
  by_cases hfull : m ≤ (st.forget nonce).entries.keys.length
  · have hforget := forget_full hroom hfull
    have habsent := st.lookup_forget nonce
    rw [hforget] at hfull habsent ⊢
    rw [if_pos hfull]
    have hpruned := h.prune now
    have hwithin := st.prune_within now
    have hnone : (st.prune now).entries.lookup nonce = none := by
      cases hl : (st.prune now).entries.lookup nonce with
      | none => rfl
      | some e => cases habsent.symm.trans (hwithin nonce e hl)
    by_cases hstill : m ≤ (st.prune now).entries.keys.length
    · -- nothing had expired: the newest entry makes room
      have hlen : (st.prune now).entries.keys.length = m :=
        Nat.le_antisymm (Nat.le_trans (retain_length _ _) hroom) hstill
      obtain ⟨n₁, e₁, he₁, hgreatest, heq⟩ := hpruned.evict_full hm hlen
      rw [heq]
      refine ⟨hpruned.remove he₁, (remove_within _ _ _).trans hwithin, ?_, ?_, rfl, ?_⟩
      · cases hl : ((st.prune now).remove n₁ e₁.sequence).entries.lookup nonce with
        | none => rfl
        | some e => cases hnone.symm.trans (remove_within _ _ _ nonce e hl)
      · have := remove_length e₁.sequence he₁
        omega
      · intro n e _ he hlive
        by_cases hn : n = n₁
        · subst hn
          right
          refine ⟨Nat.le_antisymm hroom hfull, ?_⟩
          intro n' e' he'
          cases he₁.symm.trans (lookup_prune he hlive)
          exact hgreatest n' e' (lookup_prune_of_length hroom hstill he')
        · left
          rw [lookup_remove_ne _ hn]
          exact lookup_prune he hlive
    · rw [evict_of_room (Nat.not_le.1 hstill)]
      refine ⟨hpruned, hwithin, hnone, Nat.not_le.1 hstill, rfl, ?_⟩
      intro n e _ he hlive
      exact Or.inl (lookup_prune he hlive)
  · rw [if_neg hfull, evict_of_room (Nat.not_le.1 hfull)]
    refine ⟨h.forget nonce, st.forget_within nonce, st.lookup_forget nonce,
      Nat.not_le.1 hfull, ?_, ?_⟩
    · unfold LedgerState.forget
      split <;> rfl
    · intro n e hn he _
      left
      rw [lookup_forget_ne st hn]
      exact he

theorem Indexed.push {st : LedgerState} (h : st.Indexed) {nonce : H256}
    (habsent : st.entries.lookup nonce = none)
    (hnext : st.nextSequence ≠ 0xffffffffffffffff) (requestCommitment : H256)
    (expiresAt : UInt64) : (st.push nonce requestCommitment expiresAt).Indexed := by
  have hlt : st.nextSequence < st.nextSequence + 1 := by
    have hne : st.nextSequence.toNat ≠ 0xffffffffffffffff := fun heq =>
      hnext (UInt64.toNat_inj.1 heq)
    have := st.nextSequence.toNat_lt
    rw [UInt64.lt_iff_toNat_lt, UInt64.toNat_add, UInt64.toNat_one]
    omega
  constructor
  · intro n e he
    by_cases hn : n = nonce
    · subst hn
      rw [LedgerState.push, AList.lookup_insert] at he
      cases he
      exact AList.lookup_insert _
    · rw [LedgerState.push, AList.lookup_insert_ne hn] at he
      have hs := UInt64.ne_of_lt (h.fresh n e he)
      exact (AList.lookup_insert_ne hs).trans (h.nonce_of n e he)
  · intro s n hs
    by_cases hq : s = st.nextSequence
    · subst hq
      rw [LedgerState.push, AList.lookup_insert] at hs
      cases hs
      exact ⟨_, AList.lookup_insert _, rfl⟩
    · rw [LedgerState.push, AList.lookup_insert_ne hq] at hs
      obtain ⟨e, he, rfl⟩ := h.entry_of s n hs
      refine ⟨e, (AList.lookup_insert_ne ?_).trans he, rfl⟩
      rintro rfl
      cases habsent.symm.trans he
  · intro n e he
    simp only [LedgerState.push, if_neg hnext]
    by_cases hn : n = nonce
    · subst hn
      rw [LedgerState.push, AList.lookup_insert] at he
      cases he
      exact hlt
    · rw [LedgerState.push, AList.lookup_insert_ne hn] at he
      exact UInt64.lt_trans (h.fresh n e he) hlt

theorem push_length {st : LedgerState} {nonce : H256}
    (habsent : st.entries.lookup nonce = none) (requestCommitment : H256)
    (expiresAt : UInt64) :
    (st.push nonce requestCommitment expiresAt).entries.keys.length =
      st.entries.keys.length + 1 := by
  have hmem : nonce ∉ st.entries.keys := fun hmem =>
    AList.lookup_eq_none.1 habsent (AList.mem_keys.2 hmem)
  rw [push, AList.keys_insert, List.length_cons, List.erase_of_not_mem hmem]

end Record

section Consume

theorem consumeBound_cases (st : LedgerState) (nonce requestCommitment : H256)
    (now : UInt64) :
    (st.entries.lookup nonce = none ∧
      st.consumeBound nonce requestCommitment now = (.error .unknown, st)) ∨
    ∃ e, st.entries.lookup nonce = some e ∧
      (e.expiresAt ≤ now ∧ st.consumeBound nonce requestCommitment now =
          (.error .expired, st.remove nonce e.sequence) ∨
        now < e.expiresAt ∧ e.requestCommitment ≠ requestCommitment ∧
          st.consumeBound nonce requestCommitment now = (.error .requestMismatch, st) ∨
        now < e.expiresAt ∧ e.requestCommitment = requestCommitment ∧
          st.consumeBound nonce requestCommitment now =
            (.ok (), st.remove nonce e.sequence)) := by
  unfold consumeBound
  cases he : st.entries.lookup nonce with
  | none => exact Or.inl ⟨rfl, rfl⟩
  | some e =>
    refine Or.inr ⟨e, rfl, ?_⟩
    by_cases hexp : e.expiresAt ≤ now
    · exact Or.inl ⟨hexp, if_pos hexp⟩
    · have hlive := UInt64.not_le.1 hexp
      refine Or.inr ?_
      by_cases hc : e.requestCommitment = requestCommitment
      · exact Or.inr ⟨hlive, hc, (if_neg hexp).trans (if_neg (not_not.2 hc))⟩
      · exact Or.inl ⟨hlive, hc, (if_neg hexp).trans (if_pos hc)⟩

/-- Consuming leaves the ledger alone or takes the one nonce out. -/
theorem consumeBound_state (st : LedgerState) (nonce requestCommitment : H256)
    (now : UInt64) :
    (st.consumeBound nonce requestCommitment now).2 = st ∨
      ∃ e, st.entries.lookup nonce = some e ∧
        (st.consumeBound nonce requestCommitment now).2 = st.remove nonce e.sequence := by
  rcases st.consumeBound_cases nonce requestCommitment now with
    ⟨_, h⟩ | ⟨e, he, ⟨_, h⟩ | ⟨_, _, h⟩ | ⟨_, _, h⟩⟩
  · exact Or.inl (by rw [h])
  · exact Or.inr ⟨e, he, by rw [h]⟩
  · exact Or.inl (by rw [h])
  · exact Or.inr ⟨e, he, by rw [h]⟩

end Consume

section Calls

inductive Call where
  | record (nonce requestCommitment : H256) (expiresAt now : UInt64)
  | consume (nonce requestCommitment : H256) (now : UInt64)
  deriving DecidableEq

def Call.records (n : H256) : Call → Bool
  | .record nonce _ _ _ => nonce = n
  | .consume _ _ _ => false

def Call.isRecord : Call → Bool
  | .record _ _ _ _ => true
  | .consume _ _ _ => false

/-- The ledger after the calls of a list, the newest of which comes first. -/
def after (m : Nat) : List Call → LedgerState
  | [] => empty
  | .record nonce requestCommitment expiresAt now :: past =>
    (after m past).recordBound m nonce requestCommitment expiresAt now
  | .consume nonce requestCommitment now :: past =>
    ((after m past).consumeBound nonce requestCommitment now).2

/-- How many of the calls consumed a nonce. -/
def taken (m : Nat) (n : H256) : List Call → Nat
  | [] => 0
  | .record _ _ _ _ :: past => taken m n past
  | .consume nonce requestCommitment now :: past =>
    taken m n past +
      match ((after m past).consumeBound nonce requestCommitment now).1 with
      | .ok _ => if nonce = n then 1 else 0
      | .error _ => 0

/-- A held nonce was recorded once among the calls and not since; its sequence number
counts the records before it. -/
def Recorded (calls : List Call) (n : H256) (e : LedgerEntry) : Prop :=
  ∃ late early at_, calls = late ++ .record n e.requestCommitment e.expiresAt at_ :: early ∧
    (∀ call ∈ late, call.records n = false) ∧ e.sequence.toNat = early.countP Call.isRecord

structure LedgerRun (calls : List Call) (st : LedgerState) (m : Nat) : Prop where
  indexed : st.Indexed
  room : st.entries.keys.length ≤ m
  next : st.nextSequence.toNat = calls.countP Call.isRecord
  recorded : ∀ n e, st.entries.lookup n = some e → Recorded calls n e

theorem Recorded.cons {calls : List Call} {n : H256} {e : LedgerEntry}
    (h : Recorded calls n e) {call : Call} (hcall : call.records n = false) :
    Recorded (call :: calls) n e := by
  obtain ⟨late, early, at_, rfl, hlate, hseq⟩ := h
  refine ⟨call :: late, early, at_, rfl, ?_, hseq⟩
  intro call' hcall'
  rcases List.mem_cons.1 hcall' with rfl | hcall'
  · exact hcall
  · exact hlate call' hcall'

theorem nextSequence_ne {calls : List Call} {st : LedgerState} {m : Nat}
    (h : LedgerRun calls st m) (hlen : calls.length < 2 ^ 64 - 1) :
    st.nextSequence ≠ 0xffffffffffffffff := by
  intro heq
  have hnext := h.next
  have hcount := List.countP_le_length (p := Call.isRecord) (l := calls)
  rw [heq] at hnext
  have : (0xffffffffffffffff : UInt64).toNat = 2 ^ 64 - 1 := rfl
  omega

theorem LedgerRun.record {calls : List Call} {st : LedgerState} {m : Nat}
    (h : LedgerRun calls st m) (hm : 1 ≤ m) (hlen : calls.length < 2 ^ 64 - 1)
    (nonce requestCommitment : H256) (expiresAt now : UInt64) :
    LedgerRun (.record nonce requestCommitment expiresAt now :: calls)
      (st.recordBound m nonce requestCommitment expiresAt now) m := by
  have hmade := h.indexed.makeRoom hm h.room nonce now
  have hne := nextSequence_ne h hlen
  rw [recordBound_eq hm]
  constructor
  · exact hmade.indexed.push hmade.absent (by rw [hmade.next]; exact hne) _ _
  · rw [push_length hmade.absent]
    exact hmade.room
  · have hnext := h.next
    have hcount := List.countP_le_length (p := Call.isRecord) (l := calls)
    simp only [push, hmade.next, if_neg hne]
    rw [UInt64.toNat_add, UInt64.toNat_one, List.countP_cons_of_pos rfl]
    omega
  · intro n e he
    by_cases hn : n = nonce
    · subst hn
      rw [push, AList.lookup_insert] at he
      cases he
      refine ⟨[], calls, now, rfl, nofun, ?_⟩
      rw [hmade.next]
      exact h.next
    · rw [push, AList.lookup_insert_ne hn] at he
      refine (h.recorded n e (hmade.within n e he)).cons ?_
      exact decide_eq_false (Ne.symm hn)

theorem LedgerRun.consume {calls : List Call} {st : LedgerState} {m : Nat}
    (h : LedgerRun calls st m) (nonce requestCommitment : H256) (now : UInt64) :
    LedgerRun (.consume nonce requestCommitment now :: calls)
      (st.consumeBound nonce requestCommitment now).2 m := by
  have hnext : st.nextSequence.toNat =
      (Call.consume nonce requestCommitment now :: calls).countP Call.isRecord := by
    rw [List.countP_cons_of_neg (by simp [Call.isRecord])]
    exact h.next
  rcases st.consumeBound_state nonce requestCommitment now with heq | ⟨e, he, heq⟩
  · rw [heq]
    exact ⟨h.indexed, h.room, hnext, fun n e he => (h.recorded n e he).cons rfl⟩
  · rw [heq]
    have hlen := remove_length e.sequence he
    have hroom := h.room
    refine ⟨h.indexed.remove he, by omega, hnext, ?_⟩
    intro n e' he'
    exact (h.recorded n e' (remove_within _ _ _ n e' he')).cons rfl

theorem ledgerRun_after {m : Nat} (hm : 1 ≤ m) (calls : List Call)
    (hlen : calls.length < 2 ^ 64) : LedgerRun calls (after m calls) m := by
  induction calls with
  | nil =>
    refine ⟨indexed_empty, Nat.zero_le m, rfl, ?_⟩
    intro n e he
    simp [after, empty] at he
  | cons call calls ih =>
    rw [List.length_cons] at hlen
    have h := ih (by omega)
    cases call with
    | record nonce requestCommitment expiresAt now =>
      exact h.record hm (by omega) nonce requestCommitment expiresAt now
    | consume nonce requestCommitment now => exact h.consume nonce requestCommitment now

end Calls

section Newest

/-- Nothing the ledger holds was recorded after the last record of a nonce. -/
def Newest (m : Nat) (calls : List Call) (n : H256) : Prop :=
  ∃ late early requestCommitment expiresAt at_,
    calls = late ++ .record n requestCommitment expiresAt at_ :: early ∧
      ∀ call ∈ late, ∀ n', call.records n' = true → (after m calls).entries.lookup n' = none

theorem records_later {calls late early late' early' : List Call} {call call' : Call}
    {n : H256} (h : calls = late ++ call :: early) (h' : calls = late' ++ call' :: early')
    (hlate' : ∀ c ∈ late', c.records n = false) {c : Call} (hc : c ∈ late)
    (hrecords : c.records n = true) (hcall : call.isRecord = true) :
    early.countP Call.isRecord < early'.countP Call.isRecord := by
  obtain ⟨a, b, rfl⟩ := List.mem_iff_append.1 hc
  have heq : (a ++ [c]) ++ (b ++ call :: early) = late' ++ call' :: early' := by
    rw [← h', h]
    simp
  rcases List.append_eq_append_iff.1 heq with ⟨d, hd, _⟩ | ⟨d, hd, hrest⟩
  · -- the record lies in `late'`, which has none
    have hmem : c ∈ late' := by
      rw [hd]
      simp
    rw [hlate' c hmem] at hrecords
    cases hrecords
  · cases d with
    | nil =>
      have hmem : c ∈ late' := by
        rw [List.append_nil] at hd
        rw [← hd]
        simp
      rw [hlate' c hmem] at hrecords
      cases hrecords
    | cons x d =>
      rw [List.cons_append] at hrest
      obtain ⟨_, rfl⟩ := List.cons.inj hrest
      rw [List.countP_append, List.countP_append, List.countP_cons_of_pos hcall]
      omega

theorem newest_of_greatest {m : Nat} {calls : List Call}
    (h : LedgerRun calls (after m calls) m) {n : H256} {e : LedgerEntry}
    (he : (after m calls).entries.lookup n = some e)
    (hgreatest : ∀ n' e', (after m calls).entries.lookup n' = some e' →
      e'.sequence ≤ e.sequence) : Newest m calls n := by
  obtain ⟨late, early, at_, heq, _, hseq⟩ := h.recorded n e he
  refine ⟨late, early, _, _, at_, heq, ?_⟩
  intro call hcall n' hrecords
  cases hl : (after m calls).entries.lookup n' with
  | none => rfl
  | some e' =>
    obtain ⟨late', early', at', heq', hlate', hseq'⟩ := h.recorded n' e' hl
    have hlt := records_later heq heq' hlate' hcall hrecords rfl
    have hle := UInt64.le_iff_toNat_le.1 (hgreatest n' e' hl)
    omega

/-- A live nonce that recording another one takes out was the newest of a full ledger. -/
theorem evicted_newest {m : Nat} (hm : 1 ≤ m) {calls : List Call}
    (h : LedgerRun calls (after m calls) m) {nonce : H256} (requestCommitment : H256)
    (expiresAt : UInt64) {now : UInt64} {n : H256} {e : LedgerEntry} (hn : n ≠ nonce)
    (he : (after m calls).entries.lookup n = some e) (hlive : now < e.expiresAt)
    (hgone : (after m (.record nonce requestCommitment expiresAt now :: calls)).entries.lookup n ≠
      some e) :
    (after m calls).entries.keys.length = m ∧ Newest m calls n := by
  rcases (h.indexed.makeRoom hm h.room nonce now).kept n e hn he hlive with
    hkept | ⟨hfull, hgreatest⟩
  · refine absurd ?_ hgone
    rw [after, recordBound_eq hm, push, AList.lookup_insert_ne hn]
    exact hkept
  · exact ⟨hfull, newest_of_greatest h he hgreatest⟩

end Newest

section Flood

/-- Calls that are not about a nonce, or try it for another request, before it expires. -/
def Call.spares (n : H256) (e : LedgerEntry) : Call → Prop
  | .record nonce _ _ now => nonce ≠ n ∧ now < e.expiresAt
  | .consume nonce requestCommitment now =>
    nonce ≠ n ∨ requestCommitment ≠ e.requestCommitment ∧ now < e.expiresAt

/-- The ledger has room, or holds a nonce recorded later. -/
def Safe (m : Nat) (st : LedgerState) (e : LedgerEntry) : Prop :=
  st.entries.keys.length < m ∨
    ∃ n' e', st.entries.lookup n' = some e' ∧ e.sequence < e'.sequence

theorem safe_record {m : Nat} (hm : 1 ≤ m) {calls : List Call} {st : LedgerState}
    (h : LedgerRun calls st m) {n : H256} {e : LedgerEntry}
    (he : st.entries.lookup n = some e) (hsafe : Safe m st e) {nonce : H256}
    (requestCommitment : H256) (expiresAt : UInt64) {now : UInt64} (hn : nonce ≠ n)
    (hlive : now < e.expiresAt) :
    (st.recordBound m nonce requestCommitment expiresAt now).entries.lookup n = some e ∧
      Safe m (st.recordBound m nonce requestCommitment expiresAt now) e := by
  have hmade := h.indexed.makeRoom hm h.room nonce now
  rw [recordBound_eq hm]
  constructor
  · rw [push, AList.lookup_insert_ne hn.symm]
    rcases hmade.kept n e hn.symm he hlive with hkept | ⟨hfull, hgreatest⟩
    · exact hkept
    · rcases hsafe with hroom | ⟨n', e', he', hlt⟩
      · omega
      · exact absurd hlt (UInt64.not_lt.2 (hgreatest n' e' he'))
  · refine Or.inr ⟨nonce, _, AList.lookup_insert _, ?_⟩
    change e.sequence < (st.makeRoom m nonce now).nextSequence
    rw [hmade.next]
    exact h.indexed.fresh n e he

theorem safe_consume {m : Nat} {calls : List Call} {st : LedgerState}
    (h : LedgerRun calls st m) {n : H256} {e : LedgerEntry}
    (he : st.entries.lookup n = some e) (hsafe : Safe m st e) {nonce requestCommitment : H256}
    {now : UInt64} (hspares : (Call.consume nonce requestCommitment now).spares n e) :
    (st.consumeBound nonce requestCommitment now).2.entries.lookup n = some e ∧
      Safe m (st.consumeBound nonce requestCommitment now).2 e := by
  by_cases hn : nonce = n
  · subst hn
    rcases hspares with hne | ⟨hcommit, hlive⟩
    · exact absurd rfl hne
    · have hsame : st.consumeBound nonce requestCommitment now =
          (.error .requestMismatch, st) := by
        rcases st.consumeBound_cases nonce requestCommitment now with
          ⟨hnone, _⟩ | ⟨e', he', ⟨hexp, _⟩ | ⟨_, _, heq⟩ | ⟨_, hc, _⟩⟩
        · cases hnone.symm.trans he
        · cases he.symm.trans he'
          exact absurd hlive (UInt64.not_lt.2 hexp)
        · exact heq
        · cases he.symm.trans he'
          exact absurd hc.symm hcommit
      rw [hsame]
      exact ⟨he, hsafe⟩
  · rcases st.consumeBound_state nonce requestCommitment now with heq | ⟨e', he', heq⟩
    · rw [heq]
      exact ⟨he, hsafe⟩
    · rw [heq]
      have hlen := remove_length e'.sequence he'
      have hroom := h.room
      exact ⟨(lookup_remove_ne _ (Ne.symm hn)).trans he, Or.inl (by omega)⟩

theorem lookup_after_flood {m : Nat} (hm : 1 ≤ m) {calls flood : List Call}
    (hlen : (flood ++ calls).length < 2 ^ 64) {n : H256} {e : LedgerEntry}
    (he : (after m calls).entries.lookup n = some e) (hsafe : Safe m (after m calls) e)
    (hspares : ∀ call ∈ flood, call.spares n e) :
    (after m (flood ++ calls)).entries.lookup n = some e ∧
      Safe m (after m (flood ++ calls)) e := by
  induction flood with
  | nil => exact ⟨he, hsafe⟩
  | cons call flood ih =>
    rw [List.cons_append, List.length_cons] at hlen
    have hrun := ledgerRun_after hm (flood ++ calls) (by omega)
    obtain ⟨hkept, hstill⟩ := ih (by omega) fun c hc => hspares c (List.mem_cons_of_mem _ hc)
    have hcall := hspares call List.mem_cons_self
    cases call with
    | record nonce requestCommitment expiresAt now =>
      exact safe_record hm hrun hkept hstill requestCommitment expiresAt hcall.1 hcall.2
    | consume nonce requestCommitment now => exact safe_consume hrun hkept hstill hcall

theorem consumeBound_live {st : LedgerState} {n : H256} {e : LedgerEntry}
    (he : st.entries.lookup n = some e) {now : UInt64} (hlive : now < e.expiresAt) :
    (st.consumeBound n e.requestCommitment now).1 = .ok () := by
  rcases st.consumeBound_cases n e.requestCommitment now with
    ⟨hnone, _⟩ | ⟨e', he', ⟨hexp, _⟩ | ⟨_, hc, _⟩ | ⟨_, _, heq⟩⟩
  · cases hnone.symm.trans he
  · cases he.symm.trans he'
    exact absurd hlive (UInt64.not_lt.2 hexp)
  · cases he.symm.trans he'
    exact absurd rfl hc
  · rw [heq]

end Flood

section Once

theorem lookup_record_ne {m : Nat} {past : List Call} {nonce requestCommitment : H256}
    {expiresAt now : UInt64} {n : H256}
    (h : (Call.record nonce requestCommitment expiresAt now).records n = false)
    {e : LedgerEntry}
    (he : (after m (.record nonce requestCommitment expiresAt now :: past)).entries.lookup n =
      some e) : (after m past).entries.lookup n = some e := by
  rcases lookup_of_recordBound he with hold | ⟨heq, _⟩
  · exact hold
  · exact absurd heq.symm (of_decide_eq_false h)

theorem taken_consume_ne {m : Nat} {past : List Call} {nonce requestCommitment : H256}
    {now : UInt64} {n : H256} (h : nonce ≠ n) :
    taken m n (.consume nonce requestCommitment now :: past) = taken m n past := by
  rw [taken]
  split
  · rw [if_neg h]
    rfl
  · rfl

theorem taken_consume_error {m : Nat} {past : List Call} {nonce requestCommitment : H256}
    {now : UInt64} (n : H256) {err : NonceLedgerError}
    (h : ((after m past).consumeBound nonce requestCommitment now).1 = .error err) :
    taken m n (.consume nonce requestCommitment now :: past) = taken m n past := by
  rw [taken, h]
  rfl

/-- Until a nonce is recorded again, its record is either still held or used up. -/
theorem held_or_taken {m : Nat} (hm : 1 ≤ m) {n c : H256} {x t : UInt64}
    (late early : List Call) (hlate : ∀ call ∈ late, call.records n = false) :
    (after m (late ++ .record n c x t :: early)).entries.lookup n = none ∧
        taken m n (late ++ .record n c x t :: early) ≤ taken m n early + 1 ∨
      (∃ s, (after m (late ++ .record n c x t :: early)).entries.lookup n = some ⟨x, s, c⟩) ∧
        taken m n (late ++ .record n c x t :: early) = taken m n early := by
  induction late with
  | nil =>
    refine Or.inr ⟨⟨((after m early).makeRoom m n t).nextSequence, ?_⟩, rfl⟩
    rw [List.nil_append, after, recordBound_eq hm]
    exact AList.lookup_insert _
  | cons call late ih =>
    have hcall := hlate call List.mem_cons_self
    have hrest := ih fun call' h => hlate call' (List.mem_cons_of_mem _ h)
    rw [List.cons_append]
    generalize late ++ Call.record n c x t :: early = past at hrest
    cases call with
    | record nonce requestCommitment expiresAt now =>
      rw [taken]
      cases hl : (after m (.record nonce requestCommitment expiresAt now :: past)).entries.lookup
          n with
      | none =>
        left
        refine ⟨rfl, ?_⟩
        rcases hrest with ⟨_, h⟩ | ⟨_, h⟩
        · exact h
        · omega
      | some e =>
        have hold := lookup_record_ne hcall hl
        rcases hrest with ⟨h, _⟩ | ⟨⟨s, h⟩, htaken⟩
        · cases h.symm.trans hold
        · cases h.symm.trans hold
          exact Or.inr ⟨⟨s, rfl⟩, htaken⟩
    | consume nonce requestCommitment now =>
      rw [after]
      by_cases hn : nonce = n
      · subst hn
        rcases (after m past).consumeBound_cases nonce requestCommitment now with
          ⟨_, heq⟩ | ⟨e, he, ⟨_, heq⟩ | ⟨_, _, heq⟩ | ⟨_, _, heq⟩⟩
        · rw [taken_consume_error nonce (by rw [heq]), heq]
          exact hrest
        · rw [taken_consume_error nonce (by rw [heq]), heq]
          refine Or.inl ⟨AList.lookup_erase _ _, ?_⟩
          rcases hrest with ⟨_, h⟩ | ⟨_, h⟩ <;> omega
        · rw [taken_consume_error nonce (by rw [heq]), heq]
          exact hrest
        · refine Or.inl ⟨?_, ?_⟩
          · rw [heq]
            exact AList.lookup_erase _ _
          · rcases hrest with ⟨hnone, _⟩ | ⟨_, htaken⟩
            · cases hnone.symm.trans he
            · rw [taken, heq]
              simp only [if_pos]
              omega
      · rw [taken_consume_ne hn]
        rcases (after m past).consumeBound_state nonce requestCommitment now with
          heq | ⟨e, _, heq⟩
        · rw [heq]
          exact hrest
        · rw [heq, lookup_remove_ne _ (Ne.symm hn)]
          exact hrest

/-- A nonce that was never recorded is never consumed. -/
theorem taken_of_unrecorded {m : Nat} {n : H256} {calls : List Call}
    (h : ∀ call ∈ calls, call.records n = false) :
    (after m calls).entries.lookup n = none ∧ taken m n calls = 0 := by
  induction calls with
  | nil => exact ⟨rfl, rfl⟩
  | cons call calls ih =>
    have hcall := h call List.mem_cons_self
    obtain ⟨hnone, htaken⟩ := ih fun call' h' => h call' (List.mem_cons_of_mem _ h')
    cases call with
    | record nonce requestCommitment expiresAt now =>
      refine ⟨?_, htaken⟩
      cases hl : (after m (.record nonce requestCommitment expiresAt now :: calls)).entries.lookup
          n with
      | none => rfl
      | some e => cases hnone.symm.trans (lookup_record_ne hcall hl)
    | consume nonce requestCommitment now =>
      constructor
      · cases hl : (after m (.consume nonce requestCommitment now :: calls)).entries.lookup n with
        | none => rfl
        | some e => cases hnone.symm.trans (consumeBound_within _ _ _ _ n e hl)
      · by_cases hn : nonce = n
        · subst hn
          rcases (after m calls).consumeBound_cases nonce requestCommitment now with
            ⟨_, heq⟩ | ⟨e, he, _⟩
          · rw [taken_consume_error nonce (by rw [heq]), htaken]
          · cases hnone.symm.trans he
        · rw [taken_consume_ne hn, htaken]

end Once

section Sound

structure Sound (m : Nat) (calls : List Call) : Prop where
  inverse : ∀ n s, ((after m calls).entries.lookup n).map LedgerEntry.sequence = some s ↔
    (after m calls).insertionOrder.lookup s = some n
  bounded : (after m calls).entries.keys.length ≤ m
  /-- A record allows one consume until the nonce is recorded again, for its request and
  before it expires. -/
  once : ∀ n c x t late early, calls = late ++ .record n c x t :: early →
    (∀ call ∈ late, call.records n = false) →
      taken m n calls ≤ taken m n early + 1 ∧
      ∀ c' now, ((after m calls).consumeBound n c' now).1 = .ok () →
        c' = c ∧ now < x ∧ taken m n calls = taken m n early
  unrecorded : ∀ n, (∀ call ∈ calls, call.records n = false) → taken m n calls = 0
  mismatch : ∀ n c now, ((after m calls).consumeBound n c now).1 = .error .requestMismatch →
    ((after m calls).consumeBound n c now).2 = after m calls
  evicts : ∀ nonce c x now n e, n ≠ nonce → (after m calls).entries.lookup n = some e →
    now < e.expiresAt →
    (after m (.record nonce c x now :: calls)).entries.lookup n ≠ some e →
      (after m calls).entries.keys.length = m ∧ Newest m calls n
  /-- A live nonce that is not the newest of a full ledger survives a flood of calls. -/
  survives : ∀ n e flood, (after m calls).entries.lookup n = some e →
    ((after m calls).entries.keys.length = m → ¬ Newest m calls n) →
    (∀ call ∈ flood, call.spares n e) → (flood ++ calls).length < 2 ^ 64 →
    ∀ now, now < e.expiresAt →
      ((after m (flood ++ calls)).consumeBound n e.requestCommitment now).1 = .ok ()

theorem safe_of_not_newest {m : Nat} {calls : List Call}
    (h : LedgerRun calls (after m calls) m) {n : H256} {e : LedgerEntry}
    (he : (after m calls).entries.lookup n = some e)
    (hnew : (after m calls).entries.keys.length = m → ¬ Newest m calls n) :
    Safe m (after m calls) e := by
  by_cases hfull : (after m calls).entries.keys.length = m
  · right
    by_contra hnone
    apply hnew hfull
    apply newest_of_greatest h he
    intro n' e' he'
    rw [← UInt64.not_lt]
    intro hlt
    exact hnone ⟨n', e', he', hlt⟩
  · exact Or.inl (Nat.lt_of_le_of_ne h.room hfull)

/-- The ledger is sound after any run of fewer than `2 ^ 64` calls. -/
theorem ledger_sound (m : Nat) (hm : 1 ≤ m) (calls : List Call)
    (hlen : calls.length < 2 ^ 64) : Sound m calls := by
  have h := ledgerRun_after hm calls hlen
  constructor
  · intro n s
    rw [Option.map_eq_some_iff]
    constructor
    · rintro ⟨e, he, rfl⟩
      exact h.indexed.nonce_of n e he
    · exact h.indexed.entry_of s n
  · exact h.room
  · intro n c x t late early heq hlate
    subst heq
    have hheld := held_or_taken hm (n := n) (c := c) (x := x) (t := t) late early hlate
    refine ⟨?_, ?_⟩
    · rcases hheld with ⟨_, h'⟩ | ⟨_, h'⟩ <;> omega
    · intro c' now hok
      have hconsumed : consumeBound _ n c' now = (.ok (), (consumeBound _ n c' now).2) :=
        Prod.ext hok rfl
      obtain ⟨⟨e, he, hlive, hcommit⟩, _⟩ := consumeBound_ok hconsumed
      rcases hheld with ⟨hnone, _⟩ | ⟨⟨s, hs⟩, htaken⟩
      · cases hnone.symm.trans he
      · cases hs.symm.trans he
        exact ⟨hcommit.symm, hlive, htaken⟩
  · intro n hn
    exact (taken_of_unrecorded hn).2
  · intro n c now hmis
    rcases (after m calls).consumeBound_cases n c now with
      ⟨_, heq⟩ | ⟨e, _, ⟨_, heq⟩ | ⟨_, _, heq⟩ | ⟨_, _, heq⟩⟩ <;> rw [heq] at hmis ⊢ <;>
      cases hmis
  · intro nonce c x now n e hn he hlive hgone
    exact evicted_newest hm h c x hn he hlive hgone
  · intro n e flood he hnew hspares hflood now hlive
    exact consumeBound_live
      (lookup_after_flood hm hflood he (safe_of_not_newest h he hnew) hspares).1 hlive

theorem ledger_sound_two :
    Sound 2 [.consume 3 7 20, .record 4 9 100 10, .record 3 7 50 5, .record 2 8 60 1] :=
  ledger_sound 2 (by decide) _ (by decide)

end Sound
end LedgerState
end X402
