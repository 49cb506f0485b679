import CitrateGateway.Gateway.BudgetRefunds

/-!
# The price of a layer and the quote of a handler

A layer prices the bytes of a body without its route: as a chat request if they read as one,
else as a batch. The handler reads the same bytes with the reader of its route. The two agree on
every body that the layer reads as its handler does.
-/

namespace Gateway.App
set_option autoImplicit false
open Words Effects X402

section Tariffs

/-- What the registry and the oracle answer, as long as neither changes. -/
structure Tariff where
  registry : String → Except GatewayError H256
  oracle : H256 → UInt32 → UInt32 → UInt8 → Except GatewayError U256

variable (tariff : Tariff)

def Tariff.answer : (o : Op) → Option o.Ans
  | .lookupModel name => some (tariff.registry name)
  | .estimateCost modelHash inputTokens outputTokens tier =>
    some (tariff.oracle modelHash inputTokens outputTokens tier)
  | _ => none

/-- The value of a program that asks for nothing but names and costs. -/
def Tariff.eval {α : Type} : M α → Option α
  | .ret a => some a
  | .op o k => (tariff.answer o).bind fun a => Tariff.eval (k a)

def Tariff.hashOf (name : String) : Except GatewayError H256 :=
  match pinnedHash name with
  | some hash => .ok hash
  | none => tariff.registry name

variable (config : AppConfig)

/-- What the oracle asks for a request. -/
def Tariff.cost (req : ChatCompletionRequest) : Option U256 :=
  (tariff.hashOf req.model).toOption.bind fun modelHash =>
    (tariff.oracle modelHash (estimateInputTokens req.messages) (outputTokens config req)
      defaultVerificationTier).toOption

/-- The costs of the requests on top of `acc`, unless one is missing or the sum does not fit. -/
def Tariff.total (acc : U256) : List ChatCompletionRequest → Option U256
  | [] => some acc
  | r :: rs => (tariff.cost config r).bind fun cost =>
    if (overflowingAdd acc cost).2 then none
    else Tariff.total (overflowingAdd acc cost).1 rs

end Tariffs

section Evaluation
variable (tariff : Tariff) (config : AppConfig) {α β : Type}

@[simp] theorem eval_ret (a : α) : tariff.eval (.ret a : M α) = some a := rfl

theorem eval_bind (p : M α) (f : α → M β) :
    tariff.eval (p >>= f) = (tariff.eval p).bind fun a => tariff.eval (f a) := by
  induction p with
  | ret a => rfl
  | op o k ih =>
    change (tariff.answer o).bind (fun a => tariff.eval (k a >>= f)) =
      ((tariff.answer o).bind fun a => tariff.eval (k a)).bind fun a => tariff.eval (f a)
    rw [Option.bind_assoc]
    exact congrArg _ (funext ih)

@[simp] theorem eval_resolveModelName (name : String) :
    tariff.eval (resolveModelName name) = some (tariff.hashOf name) := by
  unfold resolveModelName Tariff.hashOf
  cases pinnedHash name with
  | some hash => rfl
  | none => rfl

@[simp] theorem eval_estimateCost (modelHash : H256) (inputTokens outputTokens : UInt32)
    (tier : UInt8) : tariff.eval (estimateCost modelHash inputTokens outputTokens tier) =
      some (tariff.oracle modelHash inputTokens outputTokens tier) := rfl

theorem eval_quoteChat (req : ChatCompletionRequest) :
    ∃ r, tariff.eval (quoteChat config req) = some r ∧ r.toOption = tariff.cost config req := by
  unfold quoteChat Tariff.cost
  rw [eval_bind, eval_resolveModelName, Option.bind_some]
  cases tariff.hashOf req.model with
  | error e => exact ⟨_, rfl, rfl⟩
  | ok modelHash =>
    simp only [eval_bind, eval_estimateCost, Option.bind_some]
    change ∃ r : Except PricingError U256, _ ∧ _ = (tariff.oracle modelHash _ _ _).toOption
    cases tariff.oracle modelHash (estimateInputTokens req.messages) (outputTokens config req)
      defaultVerificationTier with
    | error e => exact ⟨_, rfl, rfl⟩
    | ok cost => exact ⟨_, rfl, rfl⟩

theorem eval_quoteChatRequestCost (req : ChatCompletionRequest) :
    ∃ r, tariff.eval (quoteChatRequestCost config req) = some r ∧
      r.toOption.map Prod.fst = tariff.cost config req := by
  unfold quoteChatRequestCost Tariff.cost
  rw [eval_bind, eval_resolveModelName, Option.bind_some]
  cases tariff.hashOf req.model with
  | error e => exact ⟨_, rfl, rfl⟩
  | ok modelHash =>
    simp only [eval_bind, eval_estimateCost, Option.bind_some]
    change ∃ r : Except GatewayError (U256 × UInt32), _ ∧
      _ = (tariff.oracle modelHash _ _ _).toOption
    cases tariff.oracle modelHash (estimateInputTokens req.messages) (outputTokens config req)
      defaultVerificationTier with
    | error e => exact ⟨_, rfl, rfl⟩
    | ok cost => exact ⟨_, rfl, rfl⟩

theorem outputTokens_clamped (req : ChatCompletionRequest) :
    outputTokens config (clamped config req) = outputTokens config req := by
  unfold outputTokens clamped clampMaxTokens
  cases req.maxTokens with
  | none => rfl
  | some mt =>
    change (if (if mt ≤ config.maxTokensCeiling then mt else config.maxTokensCeiling) ≤
      config.maxTokensCeiling then _ else _) = _
    by_cases h : mt ≤ config.maxTokensCeiling
    · rw [if_pos h, if_pos h]
      rfl
    · rw [if_neg h, if_pos (UInt32.le_refl _)]
      rfl

/-- A request costs what it costs with its output budget clamped. -/
theorem cost_clamped (req : ChatCompletionRequest) :
    tariff.cost config (clamped config req) = tariff.cost config req := by
  unfold Tariff.cost
  rw [outputTokens_clamped]
  rfl

theorem eval_quoteSlots (rs : List ChatCompletionRequest) (acc : BatchQuote) :
    ∃ r, tariff.eval (quoteSlots config acc rs) = some r ∧
      r.toOption.map (·.totalRequired) = tariff.total config acc.totalRequired rs := by
  induction rs generalizing acc with
  | nil => exact ⟨_, rfl, rfl⟩
  | cons req rs ih =>
    unfold quoteSlots Tariff.total
    obtain ⟨r, hr, hcost⟩ := eval_quoteChatRequestCost tariff config (clamped config req)
    rw [cost_clamped] at hcost
    simp only [eval_bind, hr, Option.bind_some, ← hcost]
    match r with
    | .error e => exact ⟨_, rfl, rfl⟩
    | .ok (cost, requestedTokens) =>
      simp only [Except.toOption, Option.map_some, Option.bind_some]
      cases hover : (overflowingAdd acc.totalRequired cost).2 with
      | true => exact ⟨_, rfl, rfl⟩
      | false => exact ih _

/-- A batch that the handler would not refuse is quoted request by request. -/
theorem eval_quoteBatch (rs : List ChatCompletionRequest) (acc : U256)
    (hshape : ∀ req ∈ rs, unquotable config req = false) :
    ∃ r, tariff.eval (quoteBatch config acc rs) = some r ∧
      r.toOption = tariff.total config acc rs := by
  induction rs generalizing acc with
  | nil => exact ⟨_, rfl, rfl⟩
  | cons req rs ih =>
    unfold quoteBatch Tariff.total
    obtain ⟨r, hr, hcost⟩ := eval_quoteChat tariff config req
    rw [hshape req List.mem_cons_self]
    simp only [Bool.false_eq_true, if_false, eval_bind, hr, Option.bind_some, ← hcost]
    match r with
    | .error e => exact ⟨_, rfl, rfl⟩
    | .ok cost =>
      simp only [Except.toOption, Option.bind_some]
      cases hover : (overflowingAdd acc cost).2 with
      | true => exact ⟨_, rfl, rfl⟩
      | false => exact ih _ fun req hreq => hshape req (List.mem_cons_of_mem _ hreq)

variable {config}

theorem unquotable_of_findInvalid {rs : List ChatCompletionRequest} {i : Nat}
    (h : findInvalid config.maxTokensCeiling i rs = none) :
    ∀ req ∈ rs, unquotable config req = false := by
  induction rs generalizing i with
  | nil =>
    intro req hreq
    exact (List.not_mem_nil hreq).elim
  | cons r rs ih =>
    unfold findInvalid at h
    split at h
    · cases h
    · rename_i hmessages
      split at h
      · cases h
      · rename_i htokens
        intro req hreq
        rcases List.mem_cons.1 hreq with rfl | hreq
        · simp only [unquotable, Bool.or_eq_false_iff]
          exact ⟨Bool.eq_false_iff.2 hmessages, Bool.eq_false_iff.2 htokens⟩
        · exact ih h req hreq

/-- What the checks of the batch handler leave. -/
theorem batchRefusal_eq_none {rs : List ChatCompletionRequest}
    (h : batchRefusal config rs = none) :
    rs.isEmpty = false ∧ ¬ maxBatchSize < rs.length ∧
      ¬ maxDistinctBatchModels < distinctModels rs ∧
      ∀ req ∈ rs, unquotable config req = false := by
  unfold batchRefusal at h
  split at h
  · cases h
  · rename_i hempty
    split at h
    · cases h
    · rename_i hsize
      split at h
      · cases h
      · rename_i hmodels
        exact ⟨Bool.eq_false_iff.2 hempty, hsize, hmodels, unquotable_of_findInvalid h⟩

end Evaluation

section Agreement
variable {tariff : Tariff} {config : AppConfig}

/-- The readers of a route and the reader of a value read one request from one body. -/
structure Coherent (format : BodyFormat) : Prop where
  chat : ∀ contentType body req value, format.extractChat contentType body = .ok req →
    format.fromSlice body = .ok value → format.chatFromValue value = .ok req
  batch : ∀ contentType body requests value,
    format.extractBatch contentType body = .ok requests →
    format.fromSlice body = .ok value → format.batchFromValue value = .ok requests

/-- The handler of the route accepts the body and computes this amount for it. -/
inductive HandlerQuotes (tariff : Tariff) (config : AppConfig) (contentType : Option String)
    (body : Bytes) : Route → U256 → Prop
  | chat (req : ChatCompletionRequest) (amount : U256) (requestedTokens : UInt32)
      (hread : config.format.extractChat contentType body = .ok req)
      (hshape : req.messages.isEmpty = false)
      (hquote : tariff.eval (quoteChatRequestCost config (clamped config req)) =
        some (.ok (amount, requestedTokens))) :
      HandlerQuotes tariff config contentType body .chat amount
  | batch (requests : List ChatCompletionRequest) (quote : BatchQuote)
      (hread : config.format.extractBatch contentType body = .ok requests)
      (hshape : batchRefusal config requests = none)
      (hquote : tariff.eval (quoteSlots config ⟨0, defaultMaxTokens, []⟩ requests) =
        some (.ok quote)) :
      HandlerQuotes tariff config contentType body .batch quote.totalRequired

/-- The body is a JSON value, and if it is read as a batch but could be read as a chat request
too, then this request costs what the batch does. -/
def Unambiguous (tariff : Tariff) (config : AppConfig) (contentType : Option String)
    (body : Bytes) (route : Route) : Prop :=
  ∃ value, config.format.fromSlice body = .ok value ∧ (route = .batch →
    ∀ chat requests, config.format.chatFromValue value = .ok chat →
      config.format.extractBatch contentType body = .ok requests →
      tariff.cost config chat = tariff.total config 0 requests)

/-- A price that is computed is the one that the costs add up to. -/
theorem eval_eq_ok_iff {ε : Type} {p : M (Except ε U256)} {amount : U256} {c : Option U256}
    (h : ∃ r, tariff.eval p = some r ∧ r.toOption = c) :
    tariff.eval p = some (.ok amount) ↔ c = some amount := by
  obtain ⟨r, hr, rfl⟩ := h
  rw [hr, Option.some.injEq]
  constructor
  · rintro rfl
    rfl
  · exact ok_of_toOption

theorem priceFor_of_batch {body : Bytes} {value : config.format.Value}
    {requests : List ChatCompletionRequest} {e : String}
    (hvalue : config.format.fromSlice body = .ok value)
    (hchat : config.format.chatFromValue value = .error e)
    (hbatch : config.format.batchFromValue value = .ok requests)
    (hshape : batchRefusal config requests = none) :
    priceFor config body = quoteBatch config 0 requests := by
  obtain ⟨hempty, hsize, hmodels, -⟩ := batchRefusal_eq_none hshape
  simp only [priceFor, hvalue, hchat, hbatch, hempty, hsize, hmodels, if_false,
    Bool.false_eq_true]

/-- The layer prices a body that its handler accepts at what the handler computes, exactly when
the body reads as one request. -/
theorem price_eq_quote_iff (hformat : Coherent config.format) {contentType : Option String}
    {body : Bytes} {route : Route} {amount : U256}
    (hquotes : HandlerQuotes tariff config contentType body route amount) :
    tariff.eval (priceFor config body) = some (.ok amount) ↔
      Unambiguous tariff config contentType body route := by
  cases hvalue : config.format.fromSlice body with
  | error e =>
    have hprice : tariff.eval (priceFor config body) =
        some (.error (.notPriceable ("request body is not valid JSON: " ++ e))) := by
      simp only [priceFor, hvalue]
      rfl
    rw [hprice]
    constructor
    · intro h
      cases h
    · rintro ⟨value, hread, -⟩
      rw [hvalue] at hread
      cases hread
  | ok value =>
    cases hquotes with
    | chat req amount requestedTokens hread hshape hquote =>
      have hchat := hformat.chat contentType body req value hread hvalue
      have hprice : priceFor config body = quoteChat config req := by
        simp only [priceFor, hvalue, hchat]
      obtain ⟨r, hr, hcost⟩ := eval_quoteChatRequestCost tariff config (clamped config req)
      rw [hr, Option.some.injEq] at hquote
      subst hquote
      rw [cost_clamped] at hcost
      rw [hprice, eval_eq_ok_iff (eval_quoteChat tariff config req)]
      exact ⟨fun _ => ⟨value, hvalue, fun h => by cases h⟩, fun _ => hcost.symm⟩
    | batch requests quote hread hshape hquote =>
      have hbatch := hformat.batch contentType body requests value hread hvalue
      obtain ⟨r, hr, htotal⟩ := eval_quoteSlots tariff config requests ⟨0, defaultMaxTokens, []⟩
      rw [hr, Option.some.injEq] at hquote
      subst hquote
      change some quote.totalRequired = tariff.total config 0 requests at htotal
      cases hchat : config.format.chatFromValue value with
      | error e =>
        obtain ⟨-, -, -, hquotable⟩ := batchRefusal_eq_none hshape
        rw [priceFor_of_batch hvalue hchat hbatch hshape,
          eval_eq_ok_iff (eval_quoteBatch tariff config requests 0 hquotable)]
        refine ⟨fun _ => ⟨value, hvalue, fun _ chat _ hread' => ?_⟩, fun _ => htotal.symm⟩
        rw [hchat] at hread'
        cases hread'
      | ok chat =>
        have hprice : priceFor config body = quoteChat config chat := by
          simp only [priceFor, hvalue, hchat]
        rw [hprice, eval_eq_ok_iff (eval_quoteChat tariff config chat), htotal]
        constructor
        · intro hcost
          refine ⟨value, hvalue, fun _ chat' requests' hchat' hread' => ?_⟩
          rw [hchat] at hchat'
          rw [hread] at hread'
          cases hchat'
          cases hread'
          exact hcost
        · rintro ⟨value', hvalue', hsame⟩
          rw [hvalue] at hvalue'
          cases hvalue'
          exact hsame rfl chat requests hchat hread

/-- A body that reads as a chat request and as a batch of two. -/
def bothJson : Bytes :=
  utf8 ("\x7b\"model\":\"llama-3-8b\",\"messages\":[\x7b\"role\":\"user\",\"content\":\"hi\"\x7d]," ++
    "\"requests\":[\x7b\"model\":\"llama-3-8b\"," ++
    "\"messages\":[\x7b\"role\":\"user\",\"content\":\"hi\"\x7d]\x7d," ++
    "\x7b\"model\":\"llama-3-8b\"," ++
    "\"messages\":[\x7b\"role\":\"user\",\"content\":\"hi\"\x7d]\x7d]\x7d")

def bothFormat : BodyFormat where
  Value := Unit
  extractChat contentType body :=
    if contentType ≠ some "application/json" then .error .missingContentType
    else if body = bothJson then .ok (sampleChat llama)
    else .error (.syntaxError "expected value")
  extractBatch contentType body :=
    if contentType ≠ some "application/json" then .error .missingContentType
    else if body = bothJson then .ok [sampleChat llama, sampleChat llama]
    else .error (.syntaxError "expected value")
  fromSlice body := if body = bothJson then .ok () else .error "expected value"
  chatFromValue _ := .ok (sampleChat llama)
  batchFromValue _ := .ok [sampleChat llama, sampleChat llama]

def bothApp : AppConfig := { sampleApp with format := bothFormat }

def sampleTariff : Tariff where
  registry name :=
    if name = llama then (pinnedHash llamaHash).elim (.error (.unknownModel name)) .ok
    else .error (.unknownModel name)
  oracle _ _ _ _ := .ok 7

theorem coherent_bothFormat : Coherent bothFormat := by
  constructor
  · intro contentType body req value hread hvalue
    simp only [bothFormat] at hread ⊢
    split at hread
    · cases hread
    · split at hread
      · cases hread
        rfl
      · cases hread
  · intro contentType body requests value hread hvalue
    simp only [bothFormat] at hread ⊢
    split at hread
    · cases hread
    · split at hread
      · cases hread
        rfl
      · cases hread

theorem coherent_sampleFormat : Coherent sampleFormat := by
  constructor
  · intro contentType body req value hread hvalue
    simp only [sampleFormat] at hread hvalue ⊢
    split at hread
    · cases hmodel : modelOf body with
      | none =>
        rw [hmodel] at hread
        cases hread
      | some model =>
        rw [hmodel] at hread hvalue
        cases hvalue
        cases hread
        rfl
    · cases hread
  · intro contentType body requests value hread hvalue
    cases hread

/-- The handler asks for two requests what the layer takes for one. -/
theorem batch_priced_as_chat : Coherent bothApp.format ∧
    HandlerQuotes sampleTariff bothApp (some "application/json") bothJson .batch 14 ∧
    sampleTariff.eval (priceFor bothApp bothJson) = some (.ok 7) := by
  refine ⟨coherent_bothFormat, ?_, by decide +kernel⟩
  obtain ⟨r, hr, htotal⟩ := eval_quoteSlots sampleTariff bothApp
    [sampleChat llama, sampleChat llama] ⟨0, defaultMaxTokens, []⟩
  have hsum : sampleTariff.total bothApp 0 [sampleChat llama, sampleChat llama] = some 14 := by
    decide +kernel
  obtain ⟨quote, hquote, hrequired⟩ := Option.map_eq_some_iff.1 (htotal.trans hsum)
  rw [← hrequired]
  exact .batch [sampleChat llama, sampleChat llama] quote (by decide +kernel) (by decide +kernel)
    (hr.trans (congrArg some (ok_of_toOption hquote)))

theorem price_eq_quote_iff_sample :
    sampleTariff.eval (priceFor sampleApp (chatJson llama)) = some (.ok 7) ↔
      Unambiguous sampleTariff sampleApp (some "application/json") (chatJson llama) .chat := by
  have hquotes : HandlerQuotes sampleTariff sampleApp (some "application/json") (chatJson llama)
      .chat 7 := .chat (sampleChat llama) 7 512 (by decide +kernel) rfl (by decide +kernel)
  exact price_eq_quote_iff coherent_sampleFormat hquotes

end Agreement
end Gateway.App
