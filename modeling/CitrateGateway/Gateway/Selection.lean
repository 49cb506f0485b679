import CitrateGateway.Gateway.Dispatch

/-!
# Selecting a dispatch target

The better of the best provider and the best pool. The stake of a pool is narrowed to 128 bits
before it is scored, and the narrowing panics on a stake that does not fit.
-/

namespace Gateway
set_option autoImplicit false
open Words

section Maximum
variable {α β : Type} [LinearOrder β] {key : α → β}

/-- The fold of `maxByKey`, from the best element so far. -/
theorem maxByKey_fold (l : List α) (best : α) :
    ∃ a, l.foldl (fun best a => match best with
        | none => some a
        | some b => if key b ≤ key a then some a else some b) (some best) = some a ∧
      (a = best ∨ a ∈ l) ∧ key best ≤ key a ∧ ∀ b ∈ l, key b ≤ key a := by
  induction l generalizing best with
  | nil => exact ⟨best, rfl, .inl rfl, le_rfl, by simp⟩
  | cons x l ih =>
    rw [List.foldl_cons]
    by_cases hle : key best ≤ key x
    · obtain ⟨a, hfold, hmem, hx, hall⟩ := ih x
      refine ⟨a, by simp only [if_pos hle]; exact hfold, ?_, hle.trans hx, ?_⟩
      · rcases hmem with rfl | hmem
        · exact .inr (by simp)
        · exact .inr (by simp [hmem])
      · intro b hb
        rcases List.mem_cons.1 hb with rfl | hb
        · exact hx
        · exact hall b hb
    · obtain ⟨a, hfold, hmem, hbest, hall⟩ := ih best
      refine ⟨a, by simp only [if_neg hle]; exact hfold, ?_, hbest, ?_⟩
      · rcases hmem with rfl | hmem
        · exact .inl rfl
        · exact .inr (by simp [hmem])
      · intro b hb
        rcases List.mem_cons.1 hb with rfl | hb
        · exact (le_of_not_ge hle).trans hbest
        · exact hall b hb

theorem maxByKey_cons (key : α → β) (x : α) (l : List α) :
    ∃ a, maxByKey key (x :: l) = some a ∧ (a = x ∨ a ∈ l) ∧ key x ≤ key a ∧
      ∀ b ∈ l, key b ≤ key a :=
  maxByKey_fold l x

theorem maxByKey_eq_none {l : List α} : maxByKey key l = none ↔ l = [] := by
  cases l with
  | nil => simp [maxByKey]
  | cons x l =>
    obtain ⟨a, hmax, -⟩ := maxByKey_cons key x l
    simp [hmax]

theorem maxByKey_spec {l : List α} {a : α} (h : maxByKey key l = some a) :
    a ∈ l ∧ ∀ b ∈ l, key b ≤ key a := by
  cases l with
  | nil => simp [maxByKey] at h
  | cons x l =>
    obtain ⟨a', hmax, hmem, hx, hall⟩ := maxByKey_cons key x l
    rw [hmax] at h
    cases h
    constructor
    · rcases hmem with rfl | hmem
      · simp
      · simp [hmem]
    · intro b hb
      rcases List.mem_cons.1 hb with rfl | hb
      · exact hx
      · exact hall b hb

end Maximum

section Target

def DispatchTarget.score : DispatchTarget → Nat
  | .individual p => scoreProvider p
  | .pool pl => scorePool pl

/-- The target is one of the candidates. -/
def DispatchTarget.ListedIn (providers : List ProviderInfo) (pools : List PoolEntry) :
    DispatchTarget → Prop
  | .individual p => p ∈ providers
  | .pool pl => pl ∈ pools

/-- A candidate with the highest score; between a provider and a pool of equal score, the
provider. -/
structure BestTarget (providers : List ProviderInfo) (pools : List PoolEntry)
    (target : DispatchTarget) : Prop where
  listed : target.ListedIn providers pools
  providers_le : ∀ p ∈ providers, scoreProvider p ≤ target.score
  pools_le : ∀ pl ∈ pools, scorePool pl ≤ target.score
  tie : ∀ pl, target = .pool pl → ∀ p ∈ providers, scoreProvider p < scorePool pl

/-- Selection comes to an end, with a best target whenever there is a candidate. -/
def SelectsBest (providers : List ProviderInfo) (pools : List PoolEntry) : Prop :=
  ∃ result, selectDispatchTarget providers pools = some result ∧
    (result = none ↔ providers = [] ∧ pools = []) ∧
    ∀ target, result = some target → BestTarget providers pools target

theorem bestTarget_individual {providers : List ProviderInfo} {pools : List PoolEntry}
    {p : ProviderInfo} (hp : maxByKey scoreProvider providers = some p)
    (hpools : ∀ pl ∈ pools, scorePool pl ≤ scoreProvider p) :
    BestTarget providers pools (.individual p) where
  listed := (maxByKey_spec hp).1
  providers_le := (maxByKey_spec hp).2
  pools_le := hpools
  tie := nofun

theorem bestTarget_pool {providers : List ProviderInfo} {pools : List PoolEntry}
    {pl : PoolEntry} (hpl : maxByKey scorePool pools = some pl)
    (hproviders : ∀ p ∈ providers, scoreProvider p < scorePool pl) :
    BestTarget providers pools (.pool pl) where
  listed := (maxByKey_spec hpl).1
  providers_le := fun p hp => Nat.le_of_lt (hproviders p hp)
  pools_le := (maxByKey_spec hpl).2
  tie := by
    intro pl' heq
    cases heq
    exact hproviders

theorem selectsBest_of_staked {providers : List ProviderInfo} {pools : List PoolEntry}
    (hstaked : ∀ pl ∈ pools, stakedTokens pl < 2 ^ 128) : SelectsBest providers pools := by
  have hfits : (pools.any fun p => 2 ^ 128 ≤ stakedTokens p) = false := by
    rw [List.any_eq_false]
    intro pl hpl
    have := hstaked pl hpl
    simpa using this
  rw [SelectsBest, selectDispatchTarget, hfits, if_neg (by simp)]
  refine ⟨_, rfl, ?_, ?_⟩
  · cases hp : maxByKey scoreProvider providers with
    | none =>
      have hnone := maxByKey_eq_none.1 hp
      cases hpl : maxByKey scorePool pools with
      | none => simp [hnone, maxByKey_eq_none.1 hpl]
      | some pl =>
        have hmem := (maxByKey_spec hpl).1
        simp [List.ne_nil_of_mem hmem]
    | some p =>
      have hmem := (maxByKey_spec hp).1
      cases hpl : maxByKey scorePool pools with
      | none => simp [List.ne_nil_of_mem hmem]
      | some pl =>
        simp only [List.ne_nil_of_mem hmem, false_and, iff_false]
        split
        · simp
        · simp
  · intro target heq
    cases hp : maxByKey scoreProvider providers with
    | none =>
      have hnone := maxByKey_eq_none.1 hp
      cases hpl : maxByKey scorePool pools with
      | none => simp [hp, hpl] at heq
      | some pl =>
        rw [hp, hpl] at heq
        cases heq
        exact bestTarget_pool hpl (by simp [hnone])
    | some p =>
      cases hpl : maxByKey scorePool pools with
      | none =>
        rw [hp, hpl] at heq
        cases heq
        exact bestTarget_individual hp (by simp [maxByKey_eq_none.1 hpl])
      | some pl =>
        simp only [hp, hpl] at heq
        split at heq
        · rename_i hlt
          cases heq
          exact bestTarget_pool hpl fun q hq => Nat.lt_of_le_of_lt ((maxByKey_spec hp).2 q hq) hlt
        · rename_i hge
          cases heq
          exact bestTarget_individual hp fun q hq =>
            ((maxByKey_spec hpl).2 q hq).trans (Nat.not_lt.1 hge)

/-- Selection is total and best exactly when every stake fits the integer it is scored in. -/
theorem selectsBest_iff (providers : List ProviderInfo) (pools : List PoolEntry) :
    SelectsBest providers pools ↔ ∀ pl ∈ pools, stakedTokens pl < 2 ^ 128 := by
  constructor
  · rintro ⟨result, hselect, -⟩ pl hpl
    by_contra hbig
    have hany : (pools.any fun p => 2 ^ 128 ≤ stakedTokens p) = true := by
      rw [List.any_eq_true]
      exact ⟨pl, hpl, decide_eq_true (Nat.not_lt.1 hbig)⟩
    rw [selectDispatchTarget, hany, if_pos rfl] at hselect
    cases hselect
  · exact selectsBest_of_staked

/-- A pool whose stake is the largest word stops the selection. -/
def staggeringPool : PoolEntry := ⟨"pool-x", BitVec.allOnes 256, 9500⟩

theorem staggeringPool_panics : ¬ SelectsBest [] [staggeringPool] := by
  rintro ⟨result, hselect, -⟩
  have hpanic : selectDispatchTarget [] [staggeringPool] = none := by decide +kernel
  rw [hpanic] at hselect
  cases hselect

end Target
end Gateway
