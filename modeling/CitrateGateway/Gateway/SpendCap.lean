import CitrateGateway.Gateway.Signer

/-!
# The spend cap per epoch

The cap keeps one counter, for the epoch of the last call. Calls that stay in an epoch, or move
to one that was not spent in before, are bounded by the ceiling; a call stamped with an epoch
that was left finds the counter at zero again.
-/

namespace Gateway
set_option autoImplicit false
open Words

namespace SpendCap

/-- One call of `try_spend`: its amount and its block. -/
abbrev Call := U256 × UInt64

variable {cap : SpendCap} {amount : U256} {block : UInt64} {calls : List Call}

def epochOf (cap : SpendCap) (block : UInt64) : UInt64 := block / cap.blocksPerEpoch

def epochs (cap : SpendCap) (calls : List Call) : List UInt64 :=
  calls.map fun c => cap.epochOf c.2

/-- What has been spent of the epoch of the block, as the cap counts it. -/
def counted (cap : SpendCap) (block : UInt64) : U256 :=
  if cap.epoch = cap.epochOf block then cap.spent else 0

def remaining (cap : SpendCap) (block : UInt64) : Nat :=
  cap.ceilingWei.toNat - (cap.counted block).toNat

def accepts (cap : SpendCap) (amount : U256) (block : UInt64) : Bool :=
  (cap.trySpend amount block).1.isOk

/-- The cap after the calls, one after the other. -/
def after (cap : SpendCap) (calls : List Call) : SpendCap :=
  calls.foldl (fun cap c => (cap.trySpend c.1 c.2).2) cap

/-- The calls that were accepted. -/
def accepted : SpendCap → List Call → List Call
  | _, [] => []
  | cap, c :: calls =>
    if cap.accepts c.1 c.2 then c :: accepted (cap.trySpend c.1 c.2).2 calls
    else accepted (cap.trySpend c.1 c.2).2 calls

/-- The amounts of the calls whose block lies in the epoch, added up. -/
def spentIn (cap : SpendCap) (epoch : UInt64) (calls : List Call) : Nat :=
  ((calls.filter fun c => cap.epochOf c.2 = epoch).map (·.1.toNat)).sum

theorem spentIn_cons (cap : SpendCap) (epoch : UInt64) (c : Call) (calls : List Call) :
    cap.spentIn epoch (c :: calls) =
      (if cap.epochOf c.2 = epoch then c.1.toNat else 0) + cap.spentIn epoch calls := by
  unfold spentIn
  by_cases h : cap.epochOf c.2 = epoch <;> simp [h]

section Step

theorem accepts_iff : cap.accepts amount block = true ↔
    (saturatingAdd (cap.counted block) amount).toNat ≤ cap.ceilingWei.toNat := by
  rw [← BitVec.le_def, ← BitVec.not_lt]
  simp only [accepts, trySpend, counted, epochOf]
  by_cases h : cap.epoch = block / cap.blocksPerEpoch
  · simp only [h, ne_eq, not_true_eq_false, if_false, if_true]
    split <;> simp_all [Except.isOk, Except.toBool]
  · simp only [ne_eq, h, not_false_eq_true, if_true, if_false]
    split <;> simp_all [Except.isOk, Except.toBool]

@[simp] theorem trySpend_ceilingWei :
    (cap.trySpend amount block).2.ceilingWei = cap.ceilingWei := by
  simp only [trySpend]
  split <;> split <;> rfl

@[simp] theorem trySpend_blocksPerEpoch :
    (cap.trySpend amount block).2.blocksPerEpoch = cap.blocksPerEpoch := by
  simp only [trySpend]
  split <;> split <;> rfl

theorem trySpend_epoch : (cap.trySpend amount block).2.epoch = cap.epochOf block := by
  simp only [trySpend, epochOf]
  by_cases h : cap.epoch = block / cap.blocksPerEpoch
  · simp only [h, ne_eq, not_true_eq_false, if_false]
    split <;> simp [h]
  · simp only [ne_eq, h, not_false_eq_true, if_true]
    split <;> rfl

theorem trySpend_spent : (cap.trySpend amount block).2.spent =
    if cap.accepts amount block then saturatingAdd (cap.counted block) amount
    else cap.counted block := by
  simp only [accepts, trySpend, counted, epochOf]
  by_cases h : cap.epoch = block / cap.blocksPerEpoch
  · simp only [h, ne_eq, not_true_eq_false, if_false, if_true]
    split <;> simp [Except.isOk, Except.toBool]
  · simp only [ne_eq, h, not_false_eq_true, if_true, if_false]
    split <;> simp [Except.isOk, Except.toBool]

@[simp] theorem epochOf_trySpend (b : UInt64) :
    (cap.trySpend amount block).2.epochOf b = cap.epochOf b := by
  simp [epochOf]

@[simp] theorem epochs_trySpend (calls : List Call) :
    (cap.trySpend amount block).2.epochs calls = cap.epochs calls := by
  simp [epochs]

@[simp] theorem spentIn_trySpend (epoch : UInt64) (calls : List Call) :
    (cap.trySpend amount block).2.spentIn epoch calls = cap.spentIn epoch calls := by
  simp [spentIn]

/-- Below the top word an accepted sum has not saturated. -/
theorem counted_add_of_accepts (hceil : cap.ceilingWei.toNat + 1 < 2 ^ 256)
    (h : cap.accepts amount block = true) :
    (saturatingAdd (cap.counted block) amount).toNat =
      (cap.counted block).toNat + amount.toNat := by
  rw [accepts_iff] at h
  by_cases hlt : (cap.counted block).toNat + amount.toNat < 2 ^ 256
  · exact saturatingAdd_toNat_of_lt hlt
  · rw [saturatingAdd, if_neg hlt] at h
    simp at h
    omega

/-- A refused call leaves what its epoch has left. -/
theorem remaining_of_refused (h : cap.accepts amount block = false) :
    (cap.trySpend amount block).2.remaining block = cap.remaining block := by
  have hspent : (cap.trySpend amount block).2.spent = cap.counted block := by
    rw [trySpend_spent, h, if_neg Bool.false_ne_true]
  rw [remaining, counted, trySpend_epoch, epochOf_trySpend, if_pos rfl, hspent, trySpend_ceilingWei,
    remaining]

end Step

section Runs

/-- Nothing occurs again after something else has occurred. -/
def Contiguous {α : Type} : List α → Prop
  | [] => True
  | e :: es => (e ∈ es → es.head? = some e) ∧ Contiguous es

theorem spentIn_eq_zero {epoch : UInt64} (h : epoch ∉ cap.epochs calls) :
    cap.spentIn epoch calls = 0 := by
  induction calls with
  | nil => rfl
  | cons c calls ih =>
    simp only [epochs, List.map_cons, List.mem_cons, not_or] at h
    rw [spentIn_cons, if_neg (Ne.symm h.1), Nat.zero_add]
    exact ih h.2

theorem accepted_sublist (cap : SpendCap) (calls : List Call) :
    (cap.accepted calls).Sublist calls := by
  induction calls generalizing cap with
  | nil => exact List.Sublist.slnil
  | cons c calls ih =>
    simp only [accepted]
    split
    · exact (ih _).cons_cons c
    · exact (ih _).cons c

theorem epochs_sublist {calls' : List Call} (h : calls'.Sublist calls) :
    (cap.epochs calls').Sublist (cap.epochs calls) :=
  h.map _

/-- While no epoch is returned to, the accepted amounts of an epoch are the ones it counted. -/
theorem spentIn_accepted_le (cap : SpendCap) (hceil : cap.ceilingWei.toNat + 1 < 2 ^ 256)
    (hspent : cap.spent.toNat ≤ cap.ceilingWei.toNat)
    (horder : Contiguous (cap.epoch :: cap.epochs calls) ∨
      cap.spent = 0 ∧ Contiguous (cap.epochs calls)) (epoch : UInt64) :
    cap.spentIn epoch (cap.accepted calls) + (if cap.epoch = epoch then cap.spent.toNat else 0) ≤
      cap.ceilingWei.toNat := by
  induction calls generalizing cap with
  | nil =>
    simp only [accepted, spentIn, List.filter_nil, List.map_nil, List.sum_nil]
    split <;> omega
  | cons c calls ih =>
    obtain ⟨amount, block⟩ := c
    have hrest : Contiguous (cap.epochOf block :: cap.epochs calls) :=
      horder.elim (·.2) (·.2)
    have hcounted : (cap.counted block).toNat ≤ cap.ceilingWei.toNat := by
      unfold counted
      split
      · exact hspent
      · simp
    have hnext : (cap.trySpend amount block).2.spent.toNat =
        (cap.counted block).toNat +
          (if cap.accepts amount block then amount.toNat else 0) := by
      rw [trySpend_spent]
      split
      · exact counted_add_of_accepts hceil ‹_›
      · rfl
    have hbound := ih (cap.trySpend amount block).2 (by simpa using hceil) ?_
      (Or.inl (by simpa [trySpend_epoch] using hrest))
    · rw [spentIn_trySpend, trySpend_epoch, trySpend_ceilingWei, hnext] at hbound
      have haccepted : cap.spentIn epoch (cap.accepted ((amount, block) :: calls)) =
          (if cap.epochOf block = epoch ∧ cap.accepts amount block then amount.toNat else 0) +
            cap.spentIn epoch ((cap.trySpend amount block).2.accepted calls) := by
        simp only [accepted]
        by_cases h : cap.accepts amount block = true
        · rw [if_pos h, spentIn_cons]
          simp [h]
        · rw [if_neg h]
          simp [h]
      rw [haccepted]
      by_cases hepoch : cap.epochOf block = epoch
      · subst hepoch
        simp only [if_true, true_and] at hbound ⊢
        unfold counted at hbound
        split at hbound <;> simp_all <;> omega
      · simp only [hepoch, if_false, false_and, Nat.zero_add, Nat.add_zero] at hbound ⊢
        split
        · rename_i hleft
          rcases horder with horder | ⟨hzero, _⟩
          · -- the epoch of the cap was left, so it does not come back
            have hnot : epoch ∉ cap.epochs calls := by
              intro hmem
              have := horder.1 (List.mem_cons_of_mem _ (hleft ▸ hmem))
              simp only [epochs, List.map_cons, List.head?_cons, Option.some.injEq] at this
              exact hepoch (this.trans hleft)
            have hnone : epoch ∉ cap.epochs ((cap.trySpend amount block).2.accepted calls) :=
              fun h => hnot ((epochs_sublist (accepted_sublist _ _)).subset h)
            rw [spentIn_eq_zero hnone]
            omega
          · rw [hzero]
            simpa using hbound
        · exact hbound
    · rw [hnext, trySpend_ceilingWei]
      split
      · rename_i h
        rw [← counted_add_of_accepts hceil h]
        exact accepts_iff.1 h
      · simpa using hcounted

theorem spentIn_le_of_nodup (h : (cap.epochs calls).Nodup) (epoch : UInt64) :
    cap.spentIn epoch calls < 2 ^ 256 := by
  induction calls with
  | nil => simp [spentIn]
  | cons c calls ih =>
    obtain ⟨hnot, hrest⟩ := List.nodup_cons.1 h
    rw [spentIn_cons]
    split
    · rename_i heq
      rw [spentIn_eq_zero (heq ▸ hnot)]
      exact c.1.isLt
    · rw [Nat.zero_add]
      exact ih hrest

theorem accepted_zero (cap : SpendCap) (hceil : cap.ceilingWei = 0) (epoch : UInt64) :
    cap.spentIn epoch (cap.accepted calls) = 0 := by
  induction calls generalizing cap with
  | nil => rfl
  | cons c calls ih =>
    have hrest := ih (cap.trySpend c.1 c.2).2 (by simpa using hceil)
    rw [spentIn_trySpend] at hrest
    simp only [accepted]
    split
    · rename_i h
      have hzero : c.1.toNat = 0 := by
        have := counted_add_of_accepts (by simp [hceil]) h
        have := accepts_iff.1 h
        simp only [hceil, show (0 : U256).toNat = 0 from rfl] at this
        omega
      rw [spentIn_cons, hrest, hzero, ite_self]
    · exact hrest

end Runs

section Returns

/-- The same amount asked for in each of the blocks. -/
def asking (amount : U256) (blocks : List UInt64) : List Call := blocks.map (amount, ·)

theorem accepted_of_top (hceil : cap.ceilingWei = BitVec.allOnes 256) (calls : List Call) :
    cap.accepted calls = calls := by
  induction calls generalizing cap with
  | nil => rfl
  | cons c calls ih =>
    have h : cap.accepts c.1 c.2 = true := by
      rw [accepts_iff, hceil, BitVec.toNat_allOnes]
      have := (saturatingAdd (cap.counted c.2) c.1).isLt
      omega
    rw [accepted, if_pos h, ih (by simpa using hceil)]

/-- Two calls of one epoch that ask for the largest word each. -/
theorem spentIn_asking_of_not_nodup {blocks : List UInt64}
    (h : ¬ (cap.epochs (asking (BitVec.allOnes 256) blocks)).Nodup) :
    ∃ epoch, 2 ^ 256 ≤ cap.spentIn epoch (asking (BitVec.allOnes 256) blocks) := by
  have htop : (BitVec.allOnes 256).toNat = 2 ^ 256 - 1 := BitVec.toNat_allOnes
  induction blocks with
  | nil => simp [asking, epochs] at h
  | cons b blocks ih =>
    simp only [asking, List.map_cons, epochs, List.nodup_cons, not_and_or, not_not] at h
    rcases h with hmem | hrest
    · refine ⟨cap.epochOf b, ?_⟩
      rw [asking, List.map_cons, spentIn_cons, if_pos rfl, htop]
      have hone : 2 ^ 256 - 1 ≤ cap.spentIn (cap.epochOf b) (asking (BitVec.allOnes 256) blocks) := by
        obtain ⟨c, hc, heq⟩ := List.mem_map.1 hmem
        obtain ⟨b', _, rfl⟩ := List.mem_map.1 hc
        unfold spentIn
        refine List.single_le_sum (by simp) _ (List.mem_map.2 ⟨_, List.mem_filter.2 ⟨hc, ?_⟩, htop⟩)
        simpa using heq
      unfold asking at hone
      omega
    · obtain ⟨epoch, hepoch⟩ := ih hrest
      refine ⟨epoch, ?_⟩
      rw [asking, List.map_cons, spentIn_cons]
      unfold asking at hepoch
      omega

variable {ceiling : U256}

theorem accepts_ceiling_iff (hceil : cap.ceilingWei = ceiling) (hpos : 0 < ceiling.toNat)
    (htop : ceiling.toNat + 1 < 2 ^ 256) (hspent : cap.spent = ceiling) (b : UInt64) :
    cap.accepts ceiling b = true ↔ cap.epoch ≠ cap.epochOf b := by
  constructor
  · intro h heq
    have hadd := counted_add_of_accepts (by rw [hceil]; exact htop) h
    have hle := accepts_iff.1 h
    rw [counted, if_pos heq, hspent] at hadd hle
    rw [hceil] at hle
    omega
  · intro hne
    rw [accepts_iff, counted, if_neg hne, hceil, saturatingAdd_toNat_of_lt (by simpa using ceiling.isLt)]
    simp

/-- Asking for the whole ceiling leaves the counter full. -/
theorem spent_asking (hceil : cap.ceilingWei = ceiling) (hpos : 0 < ceiling.toNat)
    (htop : ceiling.toNat + 1 < 2 ^ 256) (hspent : cap.spent = ceiling) (b : UInt64) :
    (cap.trySpend ceiling b).2.spent = ceiling := by
  have hiff := accepts_ceiling_iff hceil hpos htop hspent b
  rw [trySpend_spent]
  split
  · rename_i h
    have hadd := counted_add_of_accepts (by rw [hceil]; exact htop) h
    rw [counted, if_neg (hiff.1 h)] at hadd ⊢
    exact BitVec.eq_of_toNat_eq (by simpa using hadd)
  · rename_i h
    rw [counted, if_pos (by_contra fun hne => h (hiff.2 hne)), hspent]

/-- An epoch that is returned to is spent in once more. -/
theorem le_spentIn_of_mem (cap : SpendCap) {blocks : List UInt64} {epoch : UInt64}
    (hceil : cap.ceilingWei = ceiling) (hpos : 0 < ceiling.toNat)
    (htop : ceiling.toNat + 1 < 2 ^ 256) (hspent : cap.spent = ceiling)
    (hleft : cap.epoch ≠ epoch) (hmem : epoch ∈ cap.epochs (asking ceiling blocks)) :
    ceiling.toNat ≤ cap.spentIn epoch (cap.accepted (asking ceiling blocks)) := by
  induction blocks generalizing cap with
  | nil => simp [asking, epochs] at hmem
  | cons b blocks ih =>
    have hiff := accepts_ceiling_iff hceil hpos htop hspent b
    simp only [asking, List.map_cons, accepted]
    by_cases hb : cap.epochOf b = epoch
    · rw [if_pos (hiff.2 (hb ▸ hleft)), spentIn_cons, if_pos hb]
      exact Nat.le_add_right _ _
    · have hlater : epoch ∈ cap.epochs (asking ceiling blocks) := by
        simp only [asking, List.map_cons, epochs, List.mem_cons] at hmem
        exact hmem.resolve_left (Ne.symm hb)
      have hrest := ih (cap.trySpend ceiling b).2 (by simpa using hceil)
        (spent_asking hceil hpos htop hspent b) (by simpa [trySpend_epoch] using hb)
        (by simpa using hlater)
      rw [spentIn_trySpend] at hrest
      unfold asking at hrest
      split
      · rw [spentIn_cons, if_neg hb, Nat.zero_add]
        exact hrest
      · exact hrest

theorem exceeds_of_not_contiguous (cap : SpendCap) {blocks : List UInt64}
    (hceil : cap.ceilingWei = ceiling) (hpos : 0 < ceiling.toNat)
    (htop : ceiling.toNat + 1 < 2 ^ 256) (hspent : cap.spent = ceiling)
    (hreturn : ¬ Contiguous (cap.epoch :: cap.epochs (asking ceiling blocks))) :
    ∃ epoch, ceiling.toNat < (if cap.epoch = epoch then ceiling.toNat else 0) +
      cap.spentIn epoch (cap.accepted (asking ceiling blocks)) := by
  induction blocks generalizing cap with
  | nil => simp [asking, epochs, Contiguous] at hreturn
  | cons b blocks ih =>
    have hiff := accepts_ceiling_iff hceil hpos htop hspent b
    have hfull := spent_asking hceil hpos htop hspent b
    simp only [asking, List.map_cons, accepted]
    by_cases hb : cap.epoch = cap.epochOf b
    · -- the epoch goes on: the call is refused
      have hrest : ¬ Contiguous (cap.epochOf b :: cap.epochs (asking ceiling blocks)) := by
        intro hcont
        refine hreturn ⟨fun _ => ?_, hcont⟩
        simp [asking, epochs, hb]
      obtain ⟨epoch, hepoch⟩ := ih (cap.trySpend ceiling b).2 (by simpa using hceil) hfull
        (by simpa [trySpend_epoch] using hrest)
      refine ⟨epoch, ?_⟩
      rw [if_neg (fun h => hiff.1 h hb)]
      rw [spentIn_trySpend, trySpend_epoch, ← hb] at hepoch
      exact hepoch
    · rw [if_pos (hiff.2 hb)]
      by_cases hback : cap.epoch ∈ cap.epochs (asking ceiling blocks)
      · -- the epoch of the cap comes back
        refine ⟨cap.epoch, ?_⟩
        have hagain := le_spentIn_of_mem (cap.trySpend ceiling b).2 (by simpa using hceil) hpos htop
          hfull (by simpa [trySpend_epoch] using Ne.symm hb)
          (show cap.epoch ∈ _ by simpa using hback)
        rw [spentIn_trySpend] at hagain
        rw [if_pos rfl, spentIn_cons, if_neg (Ne.symm hb)]
        unfold asking at hagain
        omega
      · have hrest : ¬ Contiguous (cap.epochOf b :: cap.epochs (asking ceiling blocks)) := by
          intro hcont
          refine hreturn ⟨fun hmem => ?_, hcont⟩
          simp only [asking, List.map_cons, epochs, List.mem_cons] at hmem
          exact absurd hmem (not_or.2 ⟨hb, hback⟩)
        obtain ⟨epoch, hepoch⟩ := ih (cap.trySpend ceiling b).2 (by simpa using hceil)
          hfull (by simpa [trySpend_epoch] using hrest)
        refine ⟨epoch, ?_⟩
        rw [spentIn_trySpend, trySpend_epoch] at hepoch
        unfold asking at hepoch
        rw [spentIn_cons]
        dsimp only
        omega

end Returns

section Bound

/-- What the cap promises for a sequence of calls: no epoch is spent in beyond the ceiling, and
a refused call leaves what its epoch has left. -/
structure SpendBound (ceiling : U256) (blocksPerEpoch : UInt64) (calls : List Call) : Prop where
  bound : ∀ epoch, (new ceiling blocksPerEpoch).spentIn epoch
    ((new ceiling blocksPerEpoch).accepted calls) ≤ ceiling.toNat
  refused : ∀ early amount block late, calls = early ++ (amount, block) :: late →
    ((new ceiling blocksPerEpoch).after early).accepts amount block = false →
      ((((new ceiling blocksPerEpoch).after early).trySpend amount block).2).remaining block =
        ((new ceiling blocksPerEpoch).after early).remaining block

/-- No call is stamped with an epoch that was left; under the largest ceiling, which no sum
exceeds, none is stamped with an epoch twice. -/
def KeepsEpochs (ceiling : U256) (epochs : List UInt64) : Prop :=
  ceiling = 0 ∨ (if ceiling = BitVec.allOnes 256 then epochs.Nodup else Contiguous epochs)

theorem epochs_asking (cap : SpendCap) (amount : U256) (blocks : List UInt64) :
    cap.epochs (asking amount blocks) = blocks.map cap.epochOf := by
  simp [epochs, asking, Function.comp_def]

theorem epochs_eq_map {blocks : List UInt64} (cap : SpendCap)
    (h : calls.map Prod.snd = blocks) : cap.epochs calls = blocks.map cap.epochOf := by
  rw [← h, List.map_map]
  rfl

theorem below_top {ceiling : U256} (h : ¬ ceiling = BitVec.allOnes 256) :
    ceiling.toNat + 1 < 2 ^ 256 := by
  have := ceiling.isLt
  have hne : ceiling.toNat ≠ 2 ^ 256 - 1 := fun heq =>
    h (BitVec.eq_of_toNat_eq (heq.trans BitVec.toNat_allOnes.symm))
  omega

theorem exceeds_from_new {ceiling : U256} {blocksPerEpoch : UInt64} {blocks : List UInt64}
    (hpos : 0 < ceiling.toNat) (htop : ceiling.toNat + 1 < 2 ^ 256)
    (hreturn : ¬ Contiguous (blocks.map (new ceiling blocksPerEpoch).epochOf)) :
    ∃ epoch, ceiling.toNat < (new ceiling blocksPerEpoch).spentIn epoch
      ((new ceiling blocksPerEpoch).accepted (asking ceiling blocks)) := by
  cases blocks with
  | nil => simp [Contiguous] at hreturn
  | cons b blocks =>
    generalize hcap : new ceiling blocksPerEpoch = cap at hreturn ⊢
    have hceil : cap.ceilingWei = ceiling := by rw [← hcap, new]
    have hzero : cap.counted b = 0 := by
      have hspent : cap.spent = 0 := by rw [← hcap, new]
      rw [counted, hspent, ite_self]
    have hadd : (saturatingAdd (cap.counted b) ceiling).toNat = ceiling.toNat := by
      rw [hzero, saturatingAdd_toNat_of_lt (by simpa using ceiling.isLt)]
      simp
    have haccepts : cap.accepts ceiling b = true := by
      rw [accepts_iff, hceil, hadd]
    have hfull : (cap.trySpend ceiling b).2.spent = ceiling := by
      rw [trySpend_spent, if_pos haccepts]
      exact BitVec.eq_of_toNat_eq hadd
    obtain ⟨epoch, hepoch⟩ := exceeds_of_not_contiguous (cap.trySpend ceiling b).2
      (by simpa using hceil) hpos htop hfull
      (by rwa [trySpend_epoch, epochs_trySpend, epochs_asking])
    refine ⟨epoch, ?_⟩
    rw [spentIn_trySpend, trySpend_epoch] at hepoch
    unfold asking at hepoch
    simp only [asking, List.map_cons, accepted]
    rw [if_pos haccepts, spentIn_cons]
    exact hepoch

/-- The cap keeps its promise, whatever the amounts, exactly for the stamps that never return
to an epoch. -/
theorem spendBound_iff (ceiling : U256) (blocksPerEpoch : UInt64) (blocks : List UInt64) :
    (∀ calls, calls.map Prod.snd = blocks → SpendBound ceiling blocksPerEpoch calls) ↔
      KeepsEpochs ceiling (blocks.map (new ceiling blocksPerEpoch).epochOf) := by
  constructor
  · intro hall
    by_contra hnot
    obtain ⟨hpos, hkeeps⟩ := not_or.1 hnot
    have hpos : 0 < ceiling.toNat := by
      by_contra hle
      exact hpos (BitVec.eq_of_toNat_eq (by simpa using Nat.le_zero.1 (Nat.not_lt.1 hle)))
    have hblocks : ∀ amount, (asking amount blocks).map Prod.snd = blocks := fun amount => by
      simp [asking, Function.comp_def]
    split at hkeeps
    · rename_i htop
      subst htop
      rw [← epochs_asking _ (BitVec.allOnes 256)] at hkeeps
      obtain ⟨epoch, hepoch⟩ := spentIn_asking_of_not_nodup hkeeps
      have := (hall _ (hblocks (BitVec.allOnes 256))).bound epoch
      rw [accepted_of_top rfl, BitVec.toNat_allOnes] at this
      omega
    · rename_i htop
      obtain ⟨epoch, hepoch⟩ := exceeds_from_new hpos (below_top htop) hkeeps
      have := (hall _ (hblocks ceiling)).bound epoch
      omega
  · intro hkeeps calls hcalls
    refine ⟨fun epoch => ?_, fun early amount block late _ h => remaining_of_refused h⟩
    rw [← epochs_eq_map _ hcalls] at hkeeps
    rcases hkeeps with hzero | hkeeps
    · rw [accepted_zero _ (by rw [new, hzero])]
      exact Nat.zero_le _
    split at hkeeps
    · rename_i htop
      have := spentIn_le_of_nodup (hkeeps.sublist (epochs_sublist (accepted_sublist
        (new ceiling blocksPerEpoch) calls))) epoch
      rw [htop, BitVec.toNat_allOnes]
      rw [htop] at this
      omega
    · rename_i htop
      have := spentIn_accepted_le (new ceiling blocksPerEpoch) (below_top htop) (by simp [new])
        (Or.inr ⟨rfl, hkeeps⟩) epoch
      simpa [new] using this

/-- An older block after a newer one: epoch 0 is spent in twice. -/
theorem ceiling_exceeded : ¬ SpendBound 100 10 [(100, 9), (1, 10), (100, 9)] := by
  intro h
  have hbound := h.bound 0
  revert hbound
  decide +kernel

end Bound
end SpendCap
end Gateway
