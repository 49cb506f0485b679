import CitrateGateway.Gateway.BudgetRefunds

/-!
# What a model budget bounds

A budget is kept under the name that it was set for, while a request is priced and dispatched
under the hash that its own name stands for. The budget bounds what its key spends on a model
as long as every request that resolves to the model spells it as the budget does.
-/

namespace Gateway.App
set_option autoImplicit false
open Words Effects X402
open ApiKeyStore (Backend budgetTaken budgetGiven)

section Spending
variable (hashKeyId : String → String) (h model : String) (hash : H256)

/-- Whether a task took the name for the hash: the name spells it, or the registry said so. -/
def resolvesTo (past : List Event) (name : String) : Bool :=
  pinnedHash name = some hash || past.any fun e => match e with
    | ⟨.lookupModel asked, .ok found⟩ => asked = name && found = hash
    | _ => false

/-- What a task took for the model behind the hash since the budget was set, and has not given
back. -/
def keptFor (log : Log) (t : Nat) : Nat :=
  match moves (since hashKeyId h model log t) with
  | [⟨.keys (.debitModelBudget keyId name amount), .ok ()⟩] =>
    if hashKeyId keyId = h ∧ resolvesTo hash (System.trace log t) name then amount.toNat else 0
  | _ => 0

/-- Every request of the key that resolves to the hash spells it as the budget does. -/
def SpelledAs (log : Log) : Prop :=
  ∀ t keyId name amount, (t, ⟨.keys (.debitModelBudget keyId name amount), .ok ()⟩) ∈ log →
    hashKeyId keyId = h → resolvesTo hash (System.trace log t) name = true → name = model

/-- What all requests together kept for the model behind the hash. -/
def keptInAll {config : AppConfig} (s : (node config).State) : Nat :=
  ∑ t ∈ Finset.range s.tasks.length, keptFor config.hashKeyId h model hash s.log t

end Spending

section Charges
variable {config : AppConfig} {α : Type}

/-- What a request charges is what it took from the budget of its model, if it took anything. -/
def Matches (charge : Option U256) (past : List Event) : Prop :=
  ∀ c, charge = some c → ∀ e ∈ moves past, ∃ keyId name a,
    e = ⟨.keys (.debitModelBudget keyId name c), a⟩

abbrev Ends (post : List Event → α → Prop) (p : M α) (past : List Event) : Prop :=
  p.Meets (fun _ => True) (fun _ _ => True) post past

theorem matches_of_untouched {charge : Option U256} {past : List Event} (h : moves past = []) :
    Matches charge past := by
  intro c _ e he
  rw [h] at he
  cases he

theorem MovesNoBudget.ends {p : M α} (hp : MovesNoBudget p) (past : List Event) :
    Ends (fun past' _ => moves past' = moves past) p past :=
  (hp.frame (fun _ _ _ => trivial) past).mono fun _ _ h => h.1

theorem ends_quiet {o : Op} {k : o.Ans → M α} {post : List Event → α → Prop}
    {past : List Event} (ho : o.isBudgetMove = false)
    (hk : ∀ a past', moves past' = moves past → Ends post (k a) past') :
    Ends post (.op o k) past :=
  Prog.meets_op.2 fun a _ => ⟨trivial, hk a _ (moves_cons_quiet (e := ⟨o, a⟩) ho past)⟩

theorem acceptCharge_matches (apiKey : Option ApiKeyContext) (paid : Option X402Paid)
    (req : ChatCompletionRequest) {past : List Event} (hpast : moves past = []) :
    Ends (fun past' r => ∀ charge, r = .ok charge → Matches charge.accepted past')
      (acceptCharge config apiKey paid req) past := by
  cases paid with
  | none => exact fun charge _ => matches_of_untouched hpast
  | some pay =>
    have hquote : MovesNoBudget (quoteChatRequestCost config req) :=
      (outward_quoteChatRequestCost req).keyless.movesNoBudget
    refine (hquote.ends past).bind fun past' quoted hquoted => ?_
    have hnone : moves past' = [] := hquoted.trans hpast
    cases quoted with
    | error e => exact fun charge _ => matches_of_untouched hnone
    | ok quoted =>
      obtain ⟨cost, tokens⟩ := quoted
      simp only
      split
      · exact fun charge _ => matches_of_untouched hnone
      · cases apiKey with
        | none => exact fun charge _ => matches_of_untouched hnone
        | some ctx =>
          refine Prog.meets_op.2 fun answer _ => ⟨trivial, ?_⟩
          have hdebit : moves (⟨.keys (.debitModelBudget ctx.keyId req.model cost), answer⟩ ::
              past') = [⟨.keys (.debitModelBudget ctx.keyId req.model cost), answer⟩] := by
            rw [moves_cons_move rfl, hnone]
          have hmatches : Matches (some cost)
              (⟨.keys (.debitModelBudget ctx.keyId req.model cost), answer⟩ :: past') := by
            intro c hc e he
            rw [hdebit] at he
            cases hc
            exact ⟨ctx.keyId, req.model, answer, List.mem_singleton.1 he⟩
          match answer, hmatches with
          | .ok (), hmatches =>
            intro charge hcharge
            cases hcharge
            exact hmatches
          | .error (.exceeded remaining), _ => exact fun charge hcharge => by cases hcharge
          | .error (.store msg), hmatches =>
            intro charge hcharge
            cases hcharge
            exact hmatches
          | .error (.crypt e), hmatches =>
            intro charge hcharge
            cases hcharge
            exact hmatches

theorem Matches.of_same {charge : Option U256} {past past' : List Event}
    (h : Matches charge past) (hsame : moves past' = moves past) : Matches charge past' := by
  unfold Matches
  rwa [hsame]

theorem chatCompletionsHandler_matches (apiKey : Option ApiKeyContext) (paid : Option X402Paid)
    (req : ChatCompletionRequest) {past : List Event} (hpast : moves past = []) :
    Ends (fun past' r => ∀ reply, r = .ok reply → Matches reply.2 past')
      (chatCompletionsHandler config apiKey paid req) past := by
  unfold chatCompletionsHandler
  split
  · exact fun reply hreply => by cases hreply
  refine (acceptCharge_matches apiKey paid _ hpast).bind fun past₁ charged hcharged => ?_
  cases charged with
  | error e => exact fun reply hreply => by cases hreply
  | ok charge =>
    refine ((outward_runDispatch _).keyless.movesNoBudget.ends past₁).bind fun past₂ result h₂ => ?_
    cases result with
    | error e =>
      refine (Prog.meets_true (refundModel apiKey (clamped config req) charge) past₂).bind ?_
      exact fun _ _ _ reply hreply => by cases hreply
    | ok d =>
      have husage : MovesNoBudget (emitUsage apiKey charge d) :=
        (keyless_emitUsage _ _ _).movesNoBudget
      have hreply : MovesNoBudget (chatReply (clamped config req) d) :=
        (outward_chatReply _ _).keyless.movesNoBudget
      refine (husage.ends past₂).bind fun past₃ _ h₃ => ?_
      refine (hreply.ends past₃).bind fun past₄ _ h₄ => ?_
      intro reply hreply
      cases hreply
      have hmatches : Matches charge.accepted past₄ :=
        (hcharged charge rfl).of_same (h₄.trans (h₃.trans h₂))
      cases apiKey with
      | none => exact fun c hc => by cases hc
      | some ctx => exact hmatches

theorem respond_matches (r : Response) {past : List Event} (h : Matches r.charge past) :
    Ends (fun past' r => Matches r.charge past') (respond r) past :=
  ends_quiet rfl fun _ _ hsame => h.of_same hsame

theorem routeService_matches (fwd : Forwarded) {past : List Event} (hpast : moves past = []) :
    Ends (fun past' r => Matches r.charge past') (routeService config fwd) past := by
  have hidle : ∀ (r : Response) {past' : List Event}, moves past' = moves past →
      Ends (fun past'' r => Matches r.charge past'') (respond r) past' := by
    intro r past' h
    exact respond_matches r (matches_of_untouched (h.trans hpast))
  refine ((outward_readBody fwd).keyless.movesNoBudget.ends past).bind fun past₁ read h₁ => ?_
  cases read with
  | error e => exact hidle _ h₁
  | ok bytes =>
    simp only
    split
    · split
      · exact hidle _ h₁
      · refine ends_quiet rfl fun _ past₂ h₂ => ?_
        have hnone : moves past₂ = [] := h₂.trans (h₁.trans hpast)
        refine (chatCompletionsHandler_matches _ _ _ hnone).bind fun past₃ handled hhandled => ?_
        cases handled with
        | error e => exact respond_matches _ fun c hc => by cases hc
        | ok reply => exact respond_matches _ (hhandled reply rfl)
    · split
      · exact hidle _ h₁
      · split
        · exact hidle _ h₁
        · refine ends_quiet rfl fun _ past₂ h₂ => ?_
          refine ((keyless_submitBatchHandler _ _ _).movesNoBudget.ends past₂).bind ?_
          exact fun past₃ handled h₃ => hidle _ (h₃.trans (h₂.trans h₁))

theorem settleApiKeyResponse_ends (keyId : String) (debited : U256) (r : Response)
    (past : List Event) :
    Ends (fun past' r' => moves past' = moves past ∧ r' = r)
      (settleApiKeyResponse keyId debited r) past :=
  (settleApiKeyResponse_dutiful keyId debited r past).mono_guar fun _ _ _ _ => trivial

theorem handleRequest_matches (req : Request) :
    Ends (fun past r => ∀ resp, r = .ok resp → Matches resp.charge past)
      (handleRequest config req) [] := by
  have hidle : ∀ {p : M (Except String Response)} {past : List Event}, MovesNoBudget p →
      moves past = [] → Ends (fun past' r => ∀ resp, r = .ok resp → Matches resp.charge past')
        p past := by
    intro p past hp hpast
    refine (hp.ends past).mono fun past' _ hsame resp _ => ?_
    exact matches_of_untouched (hsame.trans hpast)
  have hinner : ∀ {fwd : Forwarded}, fwd.key = none → MovesNoBudget (x402Service config fwd) :=
    fun hkey => (keyless_x402Service hkey).movesNoBudget
  have hexhausted : ∀ {fwd : Forwarded} (deposit : H160), fwd.key = none →
      MovesNoBudget (exhausted (x402Service config) fwd deposit) := by
    intro fwd deposit hkey
    refine (hinner hkey).bind fun r => ?_
    cases r <;> exact .ret _
  unfold handleRequest apiKeyService
  split
  · exact hidle (hinner rfl) rfl
  refine ends_quiet rfl fun found past₁ h₁ => ?_
  cases found with
  | none => exact hidle (.ret _) h₁
  | some record =>
    simp only [Prog.bind]
    split
    · exact hidle (.ret _) h₁
    refine ends_quiet rfl fun read past₂ h₂ => ?_
    cases read with
    | error e => exact hidle (.ret _) (h₂.trans h₁)
    | ok body =>
      refine ((outward_priceFor body).keyless.movesNoBudget.ends past₂).bind
        fun past₃ priced h₃ => ?_
      have hnone : moves past₃ = [] := h₃.trans (h₂.trans h₁)
      cases priced with
      | error e => exact hidle (.ret _) hnone
      | ok price =>
        simp only
        split
        · exact hidle (hexhausted _ rfl) hnone
        · refine ends_quiet rfl fun debited past₄ h₄ => ?_
          cases debited with
          | error e => exact hidle (hexhausted _ rfl) (h₄.trans hnone)
          | ok b =>
            simp only [funded, x402Service_of_paid, Option.isSome_some]
            rw [Prog.bind_assoc]
            refine (routeService_matches _ (h₄.trans hnone)).bind fun past₅ r hr => ?_
            refine (settleApiKeyResponse_ends _ price r past₅).bind fun past₆ r' h₆ => ?_
            obtain ⟨hsame, rfl⟩ := h₆
            intro resp hresp
            cases hresp
            exact hr.of_same hsame

theorem Job.prog_matches (j : Job) :
    Ends (fun past outcome => ∀ r, outcome = .answered (.ok r) → Matches r.charge past)
      (j.prog config) [] := by
  cases j with
  | request req =>
    refine (handleRequest_matches req).bind fun past r hr => ?_
    intro resp hresp
    cases hresp
    exact hr resp rfl
  | processBatch id =>
    refine (Prog.meets_true (App.processBatch config id) []).bind ?_
    exact fun _ _ _ r hr => by cases hr
  | recover =>
    refine (Prog.meets_true (App.recover config) []).bind ?_
    exact fun _ _ _ r hr => by cases hr
  | _ => exact fun _ _ => ⟨trivial, fun r hr => by cases hr⟩

def chargeContract (config : AppConfig) : System.Contract (node config) where
  rely _ := True
  guar _ _ _ := True
  post _ past outcome := ∀ r, outcome = .answered (.ok r) → Matches r.charge past
  meets := Job.prog_matches

theorem chargeContract_served (ok : (node config).State → (node config).Action → Prop) :
    (chargeContract config).Served ok := fun _ _ _ _ _ _ _ _ => trivial

end Charges

section Bound
variable {config : AppConfig} {h model : String} {hash : H256}
variable {ok : (node config).State → (node config).Action → Prop} {sh₀ : Shared}
variable {s : (node config).State}

theorem mem_of_since {log : Log} {t : Nat} {e : Event}
    (he : e ∈ since config.hashKeyId h model log t) : (t, e) ∈ log :=
  (List.takeWhile_sublist _).subset (System.mem_trace.1 he)

/-- What counts as kept was taken from this budget and not given back to it. -/
theorem keptFor_add_given_le (hspelled : SpelledAs config.hashKeyId h model hash s.log) {t : Nat}
    (hle : given config.hashKeyId h model (since config.hashKeyId h model s.log t) ≤
      taken config.hashKeyId h model (since config.hashKeyId h model s.log t)) :
    keptFor config.hashKeyId h model hash s.log t +
        given config.hashKeyId h model (since config.hashKeyId h model s.log t) ≤
      taken config.hashKeyId h model (since config.hashKeyId h model s.log t) := by
  unfold keptFor
  split
  · rename_i keyId name amount hmoves
    split
    · rename_i hrow
      have hmem : (⟨.keys (.debitModelBudget keyId name amount), .ok ()⟩ : Event) ∈
          since config.hashKeyId h model s.log t := by
        apply List.mem_of_mem_filter (p := (·.1.isBudgetMove))
        rw [show List.filter _ _ = _ from hmoves]
        exact List.mem_singleton_self _
      have hname := hspelled t keyId name amount (mem_of_since hmem) hrow.1 hrow.2
      subst hname
      rw [given_eq_moves, taken_eq_moves, hmoves]
      simp [given, taken, givenIn, takenIn, budgetGiven, budgetTaken, hrow.1]
    · omega
  · omega

theorem total_since (hr : System.Reach (node config) ok ((node config).init sh₀) s)
    (f : Event → Nat) :
    ((sinceSet config.hashKeyId h model s.log).map fun x => f x.2).sum =
      ∑ t ∈ Finset.range s.tasks.length,
        ((since config.hashKeyId h model s.log t).map f).sum := by
  refine System.sum_eq_sum_traces (fun _ => f) fun x hx => ?_
  by_contra hge
  have hmem := System.mem_trace.2 ((List.takeWhile_sublist _).subset hx : (x.1, x.2) ∈ s.log)
  rw [hr.trace_eq_nil (Nat.not_lt.1 hge)] at hmem
  cases hmem

theorem keptInAll_le (hr : System.Reach (node config) ok ((node config).init sh₀) s)
    (hwhole : ∀ t, Whole config.hashKeyId h model s.log t)
    (hspelled : SpelledAs config.hashKeyId h model hash s.log) :
    keptInAll h model hash s + givenSince config.hashKeyId h model s.log ≤
      takenSince config.hashKeyId h model s.log := by
  rw [givenSince, takenSince, total_since hr, total_since hr, keptInAll, ← Finset.sum_add_distrib]
  apply Finset.sum_le_sum
  intro t _
  exact keptFor_add_given_le hspelled (since_given_le_taken hr (hwhole t))

/-- A finished request kept exactly the charge that its response carries. -/
theorem charge_eq_kept (hr : System.Reach (node config) ok ((node config).init sh₀) s) {t : Nat}
    {j : Job} {r : Response} {c : U256}
    (htask : s.tasks[t]? = some ⟨j, some (.ret (.answered (.ok r)))⟩) (hcharge : r.charge = some c)
    {keyId name : String} {amount : U256}
    (hdebit : ⟨.keys (.debitModelBudget keyId name amount), .ok ()⟩ ∈
      since config.hashKeyId h model s.log t)
    (hkey : config.hashKeyId keyId = h)
    (hname : resolvesTo hash (System.trace s.log t) name = true) :
    keptFor config.hashKeyId h model hash s.log t = c.toNat := by
  have hmatches := hr.meets (chargeContract config) (chargeContract_served _) htask r rfl c hcharge
  have hkept := hr.kept (budgetContract config) (budgetContract_served _)
    (System.job_of_task htask)
  have hsub : (moves (since config.hashKeyId h model s.log t)).Sublist
      (moves (System.trace s.log t)) :=
    ((List.takeWhile_sublist _).filterMap _).filter _
  have hmem : ⟨.keys (.debitModelBudget keyId name amount), .ok ()⟩ ∈
      moves (since config.hashKeyId h model s.log t) := List.mem_filter.2 ⟨hdebit, rfl⟩
  -- the debit is the only move of the task: a refund would not match the charge
  have hmoves : ∃ e, moves (System.trace s.log t) = [e] := by
    rcases moves_of_kept hkept with hnone | ⟨_, _, _, _, hone⟩ | hundone
    · rw [hnone] at hsub
      cases List.sublist_nil.1 hsub ▸ hmem
    · exact ⟨_, hone⟩
    · generalize hl : moves (System.trace s.log t) = l at hundone
      cases hundone with
      | untouched =>
        rw [hl] at hsub
        cases List.sublist_nil.1 hsub ▸ hmem
      | refused => exact ⟨_, rfl⟩
      | refunded k m b =>
        obtain ⟨_, _, _, hne⟩ := hmatches _ (hl ▸ List.mem_cons_self)
        cases hne
  obtain ⟨e, he⟩ := hmoves
  rw [he] at hsub hmatches
  have heq : e = ⟨.keys (.debitModelBudget keyId name amount), .ok ()⟩ :=
    (List.mem_singleton.1 (hsub.subset hmem)).symm
  subst heq
  have hsince : moves (since config.hashKeyId h model s.log t) =
      [⟨.keys (.debitModelBudget keyId name amount), .ok ()⟩] :=
    hsub.eq_of_length_le (List.length_pos_of_mem hmem)
  obtain ⟨keyId', name', a', hc⟩ := hmatches _ List.mem_cons_self
  cases hc
  unfold keptFor
  rw [hsince]
  exact if_pos ⟨hkey, hname⟩

/-- A model budget bounds what its key spends on the model, while every request that resolves to
the model spells it as the budget does and none took from the budget before it was set and gives
back afterwards. -/
theorem budget_bounds_spend (config : AppConfig) (keys : Backend) (chain : Chain)
    (hdurable : keys.Durable) (h model : String) (hash : H256) :
    ∀ s, System.Reach (node config) (Undisturbed config h model)
        ((node config).init (Shared.booted keys chain)) s →
      SpelledAs config.hashKeyId h model hash s.log →
      ∀ B, lastSet config.hashKeyId h model s.log = some B →
        keptInAll h model hash s ≤ B.toNat ∧
        ∀ t j r c, s.tasks[t]? = some ⟨j, some (.ret (.answered (.ok r)))⟩ → r.charge = some c →
          ∀ keyId name amount, ⟨.keys (.debitModelBudget keyId name amount), .ok ()⟩ ∈
              since config.hashKeyId h model s.log t →
            config.hashKeyId keyId = h → resolvesTo hash (System.trace s.log t) name = true →
              keptFor config.hashKeyId h model hash s.log t = c.toNat := by
  intro s hr hspelled B hB
  have hledger : BudgetLedger config h model False s :=
    ledger_of_reach hdurable hr (fun _ _ hok => hok) fun h => h.elim
  obtain ⟨left, _, hbalance, _⟩ := hledger.balance B hB
  have hkept := keptInAll_le hr hledger.whole hspelled
  refine ⟨by omega, ?_⟩
  intro t j r c htask hcharge keyId name amount hdebit hkey hname
  exact charge_eq_kept hr htask hcharge hdebit hkey hname

end Bound

section Sample

/-- The one provider answers, and the key keeps the charge. -/
def answeredBy (resp : ProviderProtocolResponse) : List Input :=
  [.providers (.ok [sampleProvider]), .pools (.ok []), .provider (.ok resp), .ok,
    .uuid "9b2f6c1e-3c54-4a0e-8f2b-6d1f5a7c9e10", .secs 8, .ok]

def hello : ProviderProtocolResponse where
  output := "hello"
  inputTokens := none
  outputTokens := none
  signature := none

/-- A request that spells the model by its hash: nothing has to be looked up. -/
def chargedByHash : List Input :=
  [served, .layer ⟨.bufferRequestBody, .ok (chatJson llamaHash)⟩, .ok, served, .ok, .ok, served]

def tightJobs : List Job :=
  [.createKey "acme" 1000 0 .credits, .request sampleRequest,
    .setModelBudget KeyStore.sampleKeyId llama 5]

def sampleModel : H256 := 0x9f2c4e0d7a1b8365c4d2e1f0a9b8c7d6e5f4031221304f5e6d7c8b9aa1b2c3d4

def tightOutcome (events : List Input) : Option (node sampleApp).State :=
  (node sampleApp).run (refundCheck sampleHash llama) sampleStart
    (System.script tightJobs ((0, keyCreated) :: (2, served) :: events.map (1, ·)))

/-- The budget of 5 grains is set for the registered name, and a request that spells the hash of
the same model is served for 7. -/
theorem spent_under_another_name :
    ∃ s, tightOutcome (chargedByHash ++ answeredBy hello) = some s ∧
      sampleChain.registry llama = some sampleModel ∧
      lastSet sampleApp.hashKeyId sampleHash llama s.log = some 5 ∧
      keptInAll sampleHash llama sampleModel s = 7 :=
  ⟨_, rfl, by decide +kernel, rfl, by decide +kernel⟩

def spells (model : String) : Event → Bool
  | ⟨.keys (.debitModelBudget _ name _), .ok ()⟩ => name = model
  | _ => true

theorem spelledAs_of_all {model : String} {hash : H256} {h : String} {log : Log}
    (hall : log.all (spells model ·.2) = true) :
    SpelledAs sampleApp.hashKeyId h model hash log := by
  intro t keyId name amount hmem _ _
  simpa [spells] using List.all_eq_true.1 hall _ hmem

theorem budget_bounds_spend_sample :
    ∃ s, outcome (refundCheck sampleHash llama)
        ((0, keyCreated) :: (2, served) ::
          (charged llama ++ .ok :: answeredBy hello).map (1, ·)) = some s ∧
      lastSet sampleApp.hashKeyId sampleHash llama s.log = some 50 ∧
      keptInAll sampleHash llama sampleModel s ≤ 50 := by
  obtain ⟨s, hs, hset, hall⟩ : ∃ s, outcome (refundCheck sampleHash llama)
      ((0, keyCreated) :: (2, served) ::
        (charged llama ++ .ok :: answeredBy hello).map (1, ·)) = some s ∧
        lastSet sampleApp.hashKeyId sampleHash llama s.log = some 50 ∧
        s.log.all (spells llama ·.2) = true := ⟨_, rfl, rfl, by decide +kernel⟩
  have hdurable : (Backend.persistent ⟨.empty, []⟩).Durable := fun _ _ => List.not_mem_nil
  have hr : System.Reach (node sampleApp) (Undisturbed sampleApp sampleHash llama) sampleStart s :=
    .of_run (fun _ _ hcheck => (kept_of_refundCheck hcheck).1) hs
  exact ⟨s, hs, hset, (budget_bounds_spend sampleApp _ sampleChain hdurable sampleHash llama
    sampleModel s hr (spelledAs_of_all hall) 50 hset).1⟩

end Sample
end Gateway.App
