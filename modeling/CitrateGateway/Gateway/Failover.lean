import CitrateGateway.Gateway.BudgetRefunds
import CitrateGateway.Gateway.Selection

/-!
# Failover

Each attempt of a dispatch goes to the best provider that was not tried yet. What a dispatch does
is read off its operations, whatever the providers answer.
-/

namespace Gateway.App
set_option autoImplicit false
open Words Effects Prog

variable (config : AppConfig)

section Attempts

/-- A provider that was contacted, and its answer. -/
structure Attempt where
  provider : ProviderInfo
  answer : Except GatewayError ProviderProtocolResponse

/-- The attempts of a dispatch, in order. -/
def attempts (events : List AppSig.Event) : List Attempt :=
  events.filterMap fun
    | ⟨.dispatchToProvider provider _, answer⟩ => some ⟨provider, answer⟩
    | _ => none

def untried (providers : List ProviderInfo) (tried : List Attempt) : List ProviderInfo :=
  providers.filter fun p => p.address ∉ tried.map (·.provider.address)

/-- No answer, or one that is not accepted. -/
def Attempt.Failed (modelHash : H256) (prompt : String) (a : Attempt) : Prop :=
  ∀ resp, a.answer = .ok resp → acceptable config modelHash prompt a.provider resp = false

def dispatchScore (p : ProviderInfo) : Nat :=
  p.reputationBps.toNat * p.capacityRemaining / 10000

/-- The second provider has a higher score, or the same and a load that is not higher. -/
def RankedUnder (p best : ProviderInfo) : Prop :=
  dispatchScore p < dispatchScore best ∨
    dispatchScore p = dispatchScore best ∧ best.currentLoad ≤ p.currentLoad

/-- The best provider with spare capacity. -/
structure BestAvailable (candidates : List ProviderInfo) (best : ProviderInfo) : Prop where
  listed : best ∈ candidates
  spare : 0 < best.capacityRemaining
  ranked : ∀ p ∈ candidates, 0 < p.capacityRemaining → RankedUnder p best

/-- The output is the answer of the last attempt, and it passed the checks. -/
structure AcceptedLast (modelHash : H256) (prompt : String) (tried : List Attempt)
    (before : List Attempt) (a : Attempt) (resp : ProviderProtocolResponse) : Prop where
  tried_eq : tried = before ++ [a]
  before_failed : ∀ b ∈ before, b.Failed config modelHash prompt
  answered : a.answer = .ok resp
  nonempty : resp.output ≠ ""
  verifies : ∀ signature, resp.signature = some signature →
    verifyResultBinding config.resultCrypto a.provider.address modelHash prompt resp.output
      signature = true
  signed : config.requireSignedResults = true → resp.signature ≠ none

/-- What must hold of the attempts of a dispatch with some attempts to spend, and of the result
once there is one. -/
structure SoundFailover (modelHash : H256) (prompt : String) (spend : Nat)
    (providers : List ProviderInfo) (tried : List Attempt)
    (result : Option (Except GatewayError DispatchOutcome)) : Prop where
  bounded : tried.length ≤ spend
  distinct : (tried.map (·.provider.address)).Nodup
  best : ∀ before a after, tried = before ++ a :: after →
    BestAvailable (untried providers before) a.provider
  ok : ∀ outcome, result = some (.ok outcome) → ∃ before a resp,
    AcceptedLast config modelHash prompt tried before a resp ∧ outcome.output = resp.output
  error : ∀ e, result = some (.error e) →
    (∀ a ∈ tried, a.Failed config modelHash prompt) ∧
      (tried.length = spend ∨ ∀ p ∈ untried providers tried, p.capacityRemaining = 0)

end Attempts

section Ranking

theorem capacityRemaining_lt (p : ProviderInfo) : p.capacityRemaining < 2 ^ 32 := by
  have := p.maxConcurrent.toNat_lt
  rw [ProviderInfo.capacityRemaining]
  omega

/-- The product of a score fits in 64 bits, and the load can be taken from the largest one. -/
theorem scoring_fits (p : ProviderInfo) :
    p.reputationBps.toNat * p.capacityRemaining < 2 ^ 64 ∧
      p.currentLoad.toNat ≤ 2 ^ 32 - 1 := by
  have hrep := p.reputationBps.toNat_lt
  have hcap := capacityRemaining_lt p
  have hload := p.currentLoad.toNat_lt
  have hmul : p.reputationBps.toNat * p.capacityRemaining ≤ (2 ^ 32 - 1) * (2 ^ 32 - 1) :=
    Nat.mul_le_mul (by omega) (by omega)
  omega

theorem rankedUnder_of_key {p best : ProviderInfo} (h : providerKey p ≤ providerKey best) :
    RankedUnder p best := by
  have hload := (scoring_fits p).2
  have hbest := (scoring_fits best).2
  rw [providerKey, providerKey, Prod.Lex.toLex_le_toLex] at h
  rcases h with hlt | ⟨heq, hle⟩
  · exact .inl hlt
  · refine .inr ⟨heq, ?_⟩
    rw [UInt32.le_iff_toNat_le]
    simp only at hle
    omega

theorem selectProvider_best {providers : List ProviderInfo} {chosen : ProviderInfo}
    (h : selectProvider providers = some chosen) : BestAvailable providers chosen := by
  obtain ⟨hmem, hmax⟩ := maxByKey_spec h
  obtain ⟨hlisted, hspare⟩ := List.mem_filter.1 hmem
  refine ⟨hlisted, of_decide_eq_true hspare, fun p hp hcap => rankedUnder_of_key (hmax p ?_)⟩
  exact List.mem_filter.2 ⟨hp, decide_eq_true hcap⟩

theorem selectProvider_none {providers : List ProviderInfo} (h : selectProvider providers = none) :
    ∀ p ∈ providers, p.capacityRemaining = 0 := by
  intro p hp
  have hnone := maxByKey_eq_none.1 h
  rw [List.filter_eq_nil_iff] at hnone
  have := hnone p hp
  rw [decide_eq_true_eq] at this
  omega

end Ranking

section Loop
variable {config} {modelHash : H256} {prompt : String}

theorem untried_cons (providers : List ProviderInfo) (a : Attempt) (tried : List Attempt) :
    untried providers (a :: tried) =
      untried (providers.filter (·.address ≠ a.provider.address)) tried := by
  rw [untried, untried, List.filter_filter]
  apply List.filter_congr
  intro p _
  simp [not_or, Bool.and_comm]

/-- Before the first attempt nothing was tried, and giving up needs a reason. -/
theorem soundFailover_nil {spend : Nat} {providers : List ProviderInfo}
    {result : Option (Except GatewayError DispatchOutcome)}
    (hok : ∀ outcome, result ≠ some (.ok outcome))
    (herror : ∀ e, result = some (.error e) →
      spend = 0 ∨ ∀ p ∈ providers, p.capacityRemaining = 0) :
    SoundFailover config modelHash prompt spend providers [] result where
  bounded := Nat.zero_le spend
  distinct := List.nodup_nil
  best := by simp
  ok := fun outcome heq => absurd heq (hok outcome)
  error := by
    intro e heq
    refine ⟨by simp, ?_⟩
    rcases herror e heq with rfl | hfull
    · exact .inl rfl
    · exact .inr fun p hp => hfull p (List.mem_filter.1 hp).1

/-- A failed attempt in front of the ones on the remaining providers. -/
theorem SoundFailover.cons {spend : Nat} {providers : List ProviderInfo} {a : Attempt}
    {tried : List Attempt} {result : Option (Except GatewayError DispatchOutcome)}
    (hbest : BestAvailable providers a.provider) (hfailed : a.Failed config modelHash prompt)
    (h : SoundFailover config modelHash prompt spend
      (providers.filter (·.address ≠ a.provider.address)) tried result) :
    SoundFailover config modelHash prompt (spend + 1) providers (a :: tried) result := by
  have hfresh : ∀ b ∈ tried, b.provider.address ≠ a.provider.address := by
    intro b hb
    obtain ⟨before, after, heq⟩ := List.append_of_mem hb
    have hlisted := (List.mem_filter.1 (h.best before b after heq).listed).1
    exact of_decide_eq_true (List.mem_filter.1 hlisted).2
  constructor
  · have := h.bounded
    rw [List.length_cons]
    omega
  · rw [List.map_cons, List.nodup_cons]
    refine ⟨?_, h.distinct⟩
    intro hmem
    obtain ⟨b, hb, heq⟩ := List.mem_map.1 hmem
    exact hfresh b hb heq
  · intro before b after heq
    cases before with
    | nil =>
      cases heq
      have hall : untried providers [] = providers := by simp [untried]
      rwa [hall]
    | cons c before =>
      obtain ⟨rfl, htail⟩ := List.cons_eq_cons.1 heq
      rw [untried_cons]
      exact h.best before b after htail
  · intro outcome heq
    obtain ⟨before, b, resp, hlast, hout⟩ := h.ok outcome heq
    refine ⟨a :: before, b, resp, { hlast with
      tried_eq := by rw [hlast.tried_eq, List.cons_append]
      before_failed := ?_ }, hout⟩
    intro c hc
    rcases List.mem_cons.1 hc with rfl | hc
    · exact hfailed
    · exact hlast.before_failed c hc
  · intro e heq
    obtain ⟨hall, hwhy⟩ := h.error e heq
    refine ⟨?_, ?_⟩
    · intro b hb
      rcases List.mem_cons.1 hb with rfl | hb
      · exact hfailed
      · exact hall b hb
    · rw [untried_cons, List.length_cons]
      rcases hwhy with hlen | hfull
      · exact .inl (by omega)
      · exact .inr hfull

theorem acceptable_iff {provider : ProviderInfo} {resp : ProviderProtocolResponse} :
    acceptable config modelHash prompt provider resp = true ↔ resp.output ≠ "" ∧
      (∀ signature, resp.signature = some signature →
        verifyResultBinding config.resultCrypto provider.address modelHash prompt resp.output
          signature = true) ∧
      (config.requireSignedResults = true → resp.signature ≠ none) := by
  rw [acceptable]
  cases resp.signature with
  | none => simp [resultAcceptable]
  | some signature => simp [resultAcceptable]

/-- An accepted attempt ends the dispatch. -/
theorem soundFailover_accepted {spend : Nat} {providers : List ProviderInfo}
    {provider : ProviderInfo} {resp : ProviderProtocolResponse} {outcome : DispatchOutcome}
    (hbest : BestAvailable providers provider)
    (haccepted : acceptable config modelHash prompt provider resp = true)
    (hout : outcome.output = resp.output) :
    SoundFailover config modelHash prompt (spend + 1) providers [⟨provider, .ok resp⟩]
      (some (.ok outcome)) where
  bounded := by simp
  distinct := by simp
  best := by
    intro before a after heq
    cases before with
    | nil =>
      cases heq
      have hall : untried providers [] = providers := by simp [untried]
      rwa [hall]
    | cons b before =>
      obtain ⟨-, htail⟩ := List.cons_eq_cons.1 heq
      simp at htail
  ok := by
    intro outcome' heq
    cases heq
    obtain ⟨hnonempty, hverifies, hsigned⟩ := acceptable_iff.1 haccepted
    exact ⟨[], _, resp, ⟨rfl, by simp, rfl, hnonempty, hverifies, hsigned⟩, hout⟩
  error := nofun

theorem failover_loop_sound {req : ChatCompletionRequest} {spend : Nat}
    {lastErr : Option GatewayError} {providers : List ProviderInfo}
    {events : List AppSig.Event} {q : M (Except GatewayError DispatchOutcome)}
    (h : (failover config req modelHash prompt spend lastErr providers).Reaches events q) :
    SoundFailover config modelHash prompt spend providers (attempts events) q.result? := by
  induction spend generalizing lastErr providers events with
  | zero =>
    obtain ⟨rfl, rfl⟩ := reaches_ret_iff.1 h
    exact soundFailover_nil nofun fun _ _ => .inl rfl
  | succ spend ih =>
    rw [failover] at h
    cases hselect : selectProvider providers with
    | none =>
      rw [hselect] at h
      obtain ⟨rfl, rfl⟩ := reaches_ret_iff.1 h
      exact soundFailover_nil nofun fun _ _ => .inr (selectProvider_none hselect)
    | some chosen =>
      have hbest := selectProvider_best hselect
      rw [hselect] at h
      rcases reaches_perform_bind_iff.1 h with ⟨rfl, rfl⟩ | ⟨answer, rest, rfl, hrest⟩
      · exact soundFailover_nil nofun nofun
      · cases answer with
        | error e => exact .cons hbest nofun (ih hrest)
        | ok resp =>
          simp only at hrest
          split at hrest
          · rename_i haccepted
            obtain ⟨rfl, rfl⟩ := reaches_ret_iff.1 hrest
            exact soundFailover_accepted hbest haccepted rfl
          · rename_i hrejected
            refine .cons hbest ?_ (ih hrest)
            intro resp' heq
            cases heq
            exact Bool.eq_false_of_not_eq_true hrejected

end Loop

section Dispatch

theorem resolveModelName_reaches {α : Type} {name : String} {k : Except GatewayError H256 → M α}
    {events : List AppSig.Event} {q : M α} (h : (resolveModelName name >>= k).Reaches events q) :
    events = [] ∨ ∃ answer before rest, events = before ++ rest ∧ (k answer).Reaches rest q ∧
      ∀ e ∈ before, e.1 = .lookupModel name := by
  rw [resolveModelName] at h
  split at h
  · exact .inr ⟨_, [], events, rfl, h, by simp⟩
  · rcases reaches_perform_bind_iff.1 h with ⟨rfl, -⟩ | ⟨answer, rest, rfl, hrest⟩
    · exact .inl rfl
    · exact .inr ⟨answer, [⟨.lookupModel name, answer⟩], rest, rfl, hrest, by simp⟩

theorem failover_loop_contacts {req : ChatCompletionRequest} {modelHash : H256} {prompt : String}
    {spend : Nat} {lastErr : Option GatewayError} {providers : List ProviderInfo}
    {events : List AppSig.Event} {q : M (Except GatewayError DispatchOutcome)}
    (h : (failover config req modelHash prompt spend lastErr providers).Reaches events q) :
    ∀ e ∈ events, ∃ provider sent, e.1 = .dispatchToProvider provider sent := by
  induction spend generalizing lastErr providers events with
  | zero =>
    obtain ⟨rfl, -⟩ := reaches_ret_iff.1 h
    simp
  | succ spend ih =>
    rw [failover] at h
    split at h
    · obtain ⟨rfl, -⟩ := reaches_ret_iff.1 h
      simp
    · rcases reaches_perform_bind_iff.1 h with ⟨rfl, -⟩ | ⟨answer, rest, rfl, hrest⟩
      · simp
      · intro e he
        rcases List.mem_cons.1 he with rfl | hmem
        · exact ⟨_, _, rfl⟩
        · split at hrest
          · exact ih hrest e hmem
          · split at hrest
            · obtain ⟨rfl, -⟩ := reaches_ret_iff.1 hrest
              exact (List.not_mem_nil hmem).elim
            · exact ih hrest e hmem

/-- The dispatch once the candidates are known. -/
def dispatchAmong (req : ChatCompletionRequest) (modelHash : H256) (providers : List ProviderInfo)
    (pools : List PoolEntry) : M (Except GatewayError DispatchOutcome) :=
  if providers.isEmpty ∧ pools.isEmpty then return .error .noProviders
  else
    match selectDispatchTarget providers pools with
    | none => unwind
    | some (some (.pool pl)) => return .error (.poolDispatchUnimplemented pl.name)
    | some _ =>
      if providers.isEmpty then return .error .noProviders
      else
        failover config req modelHash (buildPrompt req.messages) maxProviderAttempts none providers

theorem runDispatch_eq (req : ChatCompletionRequest) :
    runDispatch config req = (do
      match ← resolveModelName req.model with
      | .error _ => return .error (.unknownModel req.model)
      | .ok modelHash =>
        match ← listProviders modelHash with
        | .error e => return .error (.chainUnavailable e.display)
        | .ok providers =>
          let pools ← listPools modelHash
          dispatchAmong config req modelHash providers (pools.toOption.getD [])) := rfl

variable {config} {req : ChatCompletionRequest} {modelHash : H256} {events : List AppSig.Event}
  {q : M (Except GatewayError DispatchOutcome)} {providers : List ProviderInfo}

theorem dispatchAmong_contacts {pools : List PoolEntry}
    (h : (dispatchAmong config req modelHash providers pools).Reaches events q) :
    ∀ e ∈ events, ∃ provider sent, e.1 = .dispatchToProvider provider sent := by
  rw [dispatchAmong] at h
  split at h
  · obtain ⟨rfl, -⟩ := reaches_ret_iff.1 h
    simp
  · split at h
    · rcases reaches_op_iff.1 h with ⟨rfl, -⟩ | ⟨answer, -⟩
      · simp
      · exact answer.elim
    · obtain ⟨rfl, -⟩ := reaches_ret_iff.1 h
      simp
    · split at h
      · obtain ⟨rfl, -⟩ := reaches_ret_iff.1 h
        simp
      · exact failover_loop_contacts config h

theorem dispatchAmong_sound {pools : List PoolEntry}
    (h : (dispatchAmong config req modelHash providers pools).Reaches events q)
    (hselect : ∀ pl, selectDispatchTarget providers pools ≠ some (some (.pool pl))) :
    SoundFailover config modelHash (buildPrompt req.messages) maxProviderAttempts providers
      (attempts events) q.result? := by
  have hempty : providers = [] → ∀ p ∈ providers, p.capacityRemaining = 0 := by
    rintro rfl
    simp
  rw [dispatchAmong] at h
  split at h
  · rename_i hnone
    obtain ⟨rfl, rfl⟩ := reaches_ret_iff.1 h
    exact soundFailover_nil nofun fun _ _ => .inr (hempty (List.isEmpty_iff.1 hnone.1))
  · split at h
    · rcases reaches_op_iff.1 h with ⟨rfl, rfl⟩ | ⟨answer, -⟩
      · exact soundFailover_nil nofun nofun
      · exact answer.elim
    · rename_i pl hpool
      exact absurd hpool (hselect pl)
    · split at h
      · rename_i hnone
        obtain ⟨rfl, rfl⟩ := reaches_ret_iff.1 h
        exact soundFailover_nil nofun fun _ _ => .inr (hempty (List.isEmpty_iff.1 hnone))
      · exact failover_loop_sound h

theorem attempts_append (before after : List AppSig.Event) :
    attempts (before ++ after) = attempts before ++ attempts after :=
  List.filterMap_append

/-- A dispatch that has read the pools resolved the name, read the providers of its hash, and went
on with both lists. -/
theorem runDispatch_reaches {pools : Except GatewayError (List PoolEntry)}
    (hrun : (runDispatch config req).Reaches events q)
    (hpools : ⟨.listPools modelHash, pools⟩ ∈ events) :
    ∃ before listed rest, events = before ++ ⟨.listProviders modelHash, .ok listed⟩ ::
        ⟨.listPools modelHash, pools⟩ :: rest ∧
      (∀ e ∈ before, e.1 = .lookupModel req.model) ∧
      (dispatchAmong config req modelHash listed (pools.toOption.getD [])).Reaches rest q := by
  rw [runDispatch_eq] at hrun
  rcases resolveModelName_reaches hrun with rfl | ⟨resolved, before, rest, rfl, hrest, hbefore⟩
  · exact (List.not_mem_nil hpools).elim
  have hpoolsRest : ⟨.listPools modelHash, pools⟩ ∈ rest := by
    rcases List.mem_append.1 hpools with hmem | hmem
    · cases hbefore _ hmem
    · exact hmem
  cases resolved with
  | error e =>
    obtain ⟨rfl, -⟩ := reaches_ret_iff.1 hrest
    exact (List.not_mem_nil hpoolsRest).elim
  | ok hash =>
    rcases reaches_perform_bind_iff.1 hrest with ⟨rfl, -⟩ | ⟨answer, later, rfl, hlater⟩
    · exact (List.not_mem_nil hpoolsRest).elim
    have hpoolsLater : ⟨.listPools modelHash, pools⟩ ∈ later := by
      rcases List.mem_cons.1 hpoolsRest with heq | hmem
      · cases heq
      · exact hmem
    cases answer with
    | error e =>
      obtain ⟨rfl, -⟩ := reaches_ret_iff.1 hlater
      exact (List.not_mem_nil hpoolsLater).elim
    | ok listed =>
      rcases reaches_perform_bind_iff.1 hlater with ⟨rfl, -⟩ | ⟨answer, last, rfl, hlast⟩
      · exact (List.not_mem_nil hpoolsLater).elim
      rcases List.mem_cons.1 hpoolsLater with heq | hmem
      · cases heq
        exact ⟨before, listed, last, rfl, hbefore, hlast⟩
      · obtain ⟨_, _, heq⟩ := dispatchAmong_contacts hlast _ hmem
        cases heq

/-- Once the candidates have been read and a pool was not preferred, the dispatch tries the best
untried provider up to three times and answers as the attempts say. -/
theorem failover_sound {pools : Except GatewayError (List PoolEntry)}
    (hrun : (runDispatch config req).Reaches events q)
    (hproviders : ⟨.listProviders modelHash, .ok providers⟩ ∈ events)
    (hpools : ⟨.listPools modelHash, pools⟩ ∈ events)
    (hselect : ∀ pl, selectDispatchTarget providers (pools.toOption.getD []) ≠
      some (some (.pool pl))) :
    SoundFailover config modelHash (buildPrompt req.messages) 3 providers (attempts events)
      q.result? ∧
    ∀ p ∈ providers, p.reputationBps.toNat * p.capacityRemaining < 2 ^ 64 ∧
      p.currentLoad.toNat ≤ 2 ^ 32 - 1 := by
  refine ⟨?_, fun p _ => scoring_fits p⟩
  obtain ⟨before, listed, rest, rfl, hbefore, hrest⟩ := runDispatch_reaches hrun hpools
  obtain rfl : providers = listed := by
    rcases List.mem_append.1 hproviders with hmem | hmem
    · cases hbefore _ hmem
    · simp only [List.mem_cons] at hmem
      rcases hmem with heq | heq | hmem
      · cases heq
        rfl
      · cases heq
      · obtain ⟨_, _, heq⟩ := dispatchAmong_contacts hrest _ hmem
        cases heq
  have hnone : attempts before = [] := by
    rw [attempts, List.filterMap_eq_nil_iff]
    rintro ⟨o, answer⟩ he
    cases hbefore _ he
    rfl
  have hattempts : attempts (before ++ ⟨.listProviders modelHash, .ok providers⟩ ::
      ⟨.listPools modelHash, pools⟩ :: rest) = attempts rest := by
    rw [attempts_append, hnone]
    rfl
  rw [hattempts]
  exact dispatchAmong_sound hrest hselect

end Dispatch

section Sample

def secondProvider : ProviderInfo where
  address := 0x6666666666666666666666666666666666666666
  endpoint := "http://provider-2:9000"
  reputationBps := 8000
  currentLoad := 1
  maxConcurrent := 4

def helloResponse : ProviderProtocolResponse := ⟨"hello", some 3, some 1, none⟩

def samplePrompt : String := buildPrompt (sampleChat llama).messages

/-- What the providers of the sample dispatch are sent. -/
def sampleSent : ProviderProtocolRequest :=
  ⟨llama, samplePrompt, outputTokens sampleApp (sampleChat llama)⟩

/-- The better provider fails, and the other one answers. -/
def failoverEvents : List AppSig.Event :=
  [⟨.lookupModel llama, .ok 7⟩,
    ⟨.listProviders 7, .ok [secondProvider, sampleProvider]⟩, ⟨.listPools 7, .ok []⟩,
    ⟨.dispatchToProvider sampleProvider sampleSent, .error (.providerUnavailable "timeout")⟩,
    ⟨.dispatchToProvider secondProvider sampleSent, .ok helloResponse⟩]

def helloOutcome : DispatchOutcome :=
  let counts := boundedProviderTokenCounts sampleApp (sampleChat llama) samplePrompt helloResponse
  ⟨"hello", samplePrompt, counts.1, counts.2⟩

theorem sampleProvider_selected : selectDispatchTarget [secondProvider, sampleProvider] [] =
    some (some (.individual sampleProvider)) := by
  decide +kernel

theorem failoverEvents_reached :
    (runDispatch sampleApp (sampleChat llama)).Reaches failoverEvents (.ret (.ok helloOutcome)) := by
  have hname : pinnedHash (sampleChat llama).model = none := by decide +kernel
  have hfirst : selectProvider [secondProvider, sampleProvider] = some sampleProvider := by
    decide +kernel
  have hsecond : selectProvider ([secondProvider, sampleProvider].filter
      (·.address ≠ sampleProvider.address)) = some secondProvider := by decide +kernel
  have hlast : (failover sampleApp (sampleChat llama) 7 samplePrompt 2
      (some (.providerUnavailable "timeout")) ([secondProvider, sampleProvider].filter
        (·.address ≠ sampleProvider.address))).Reaches
      [⟨.dispatchToProvider secondProvider sampleSent, .ok helloResponse⟩]
      (.ret (.ok helloOutcome)) := by
    rw [failover, hsecond]
    apply Reaches.op
    exact reaches_ret_iff.2 ⟨rfl, rfl⟩
  have hloop : (failover sampleApp (sampleChat llama) 7 samplePrompt 3 none
      [secondProvider, sampleProvider]).Reaches (failoverEvents.drop 3)
      (.ret (.ok helloOutcome)) := by
    rw [failover, hfirst]
    apply Reaches.op
    exact hlast
  have hamong : (dispatchAmong sampleApp (sampleChat llama) 7 [secondProvider, sampleProvider]
      []).Reaches (failoverEvents.drop 3) (.ret (.ok helloOutcome)) := by
    rw [dispatchAmong, if_neg (by simp), sampleProvider_selected]
    exact hloop
  rw [runDispatch_eq, resolveModelName, hname]
  apply Reaches.op
  apply Reaches.op
  apply Reaches.op
  exact hamong

theorem failover_sound_sample :
    SoundFailover sampleApp 7 samplePrompt 3 [secondProvider, sampleProvider]
      (attempts failoverEvents) (some (.ok helloOutcome)) := by
  have hproviders : ⟨.listProviders 7, .ok [secondProvider, sampleProvider]⟩ ∈ failoverEvents := by
    simp [failoverEvents]
  have hpools : ⟨.listPools 7, .ok []⟩ ∈ failoverEvents := by
    simp [failoverEvents]
  refine (failover_sound failoverEvents_reached hproviders hpools ?_).1
  intro pl heq
  cases sampleProvider_selected.symm.trans heq

end Sample
end Gateway.App
