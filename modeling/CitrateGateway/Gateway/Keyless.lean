import CitrateGateway.Gateway.Layers

/-!
# What the parts of a request leave alone

Pricing, dispatching and answering only ask the outside world. The batch handler and the x402
layer leave the key store alone, and the batch tasks leave the model budgets alone. What is left
are the few calls around a funded request.
-/

namespace Gateway.App
set_option autoImplicit false
open Words Effects X402

def Op.isKeys : Op → Bool
  | .keys _ => true
  | _ => false

/-- The operations on what the gateway itself keeps. -/
def Op.isInward : Op → Bool
  | .keys _ | .store _ | .recordUsage _ _ _ _ | .live _ | .spawnProcessBatch _ => true
  | _ => false

/-- A program every operation of which, with its answer, is of a kind. -/
def Only {α : Type} (kind : Event → Prop) (p : M α) : Prop :=
  ∀ h, p.Meets (fun _ => True) (fun _ e => kind e) (fun _ _ => True) h

/-- A program that never performs an operation of a kind. -/
abbrev Avoids {α : Type} (kind : Op → Bool) (p : M α) : Prop := Only (fun e => kind e.1 = false) p

/-- A program that never calls the key store. -/
abbrev Keyless {α : Type} (p : M α) : Prop := Avoids Op.isKeys p

/-- A program that only asks the outside world. -/
abbrev Outward {α : Type} (p : M α) : Prop := Avoids Op.isInward p

namespace Only
variable {kind kind' : Event → Prop} {α β σ : Type}

theorem ret (a : α) : Only kind (pure a : M α) := fun _ => trivial

theorem op {o : Op} {k : o.Ans → M α} (ho : ∀ a, kind ⟨o, a⟩) (hk : ∀ a, Only kind (k a)) :
    Only kind (.op o k) :=
  fun _ => Prog.meets_op.2 fun a _ => ⟨ho a, hk a _⟩

theorem bind {p : M β} {f : β → M α} (hp : Only kind p) (hf : ∀ b, Only kind (f b)) :
    Only kind (p >>= f) :=
  fun h => (hp h).bind fun h' b _ => hf b h'

theorem mono {p : M α} (hp : Only kind p) (hkind : ∀ e, kind e → kind' e) : Only kind' p :=
  fun h => (hp h).mono_guar fun _ _ _ hg => hkind _ hg

theorem interp {E : Sig} {f : σ → (o : E.Op) → M (E.Ans o × σ)} (hf : ∀ s o, Only kind (f s o))
    (p : Prog E α) (s : σ) : Only kind (p.interp f s) := by
  induction p generalizing s with
  | ret a => exact ret _
  | op o k ih => exact (hf s o).bind fun r => ih r.1 r.2

end Only

namespace Avoids
variable {kind : Op → Bool} {α : Type}

theorem keyless {p : M α} (hp : Outward p) : Keyless p := by
  refine hp.mono fun e he => ?_
  obtain ⟨o, a⟩ := e
  cases o with
  | keys c => cases he
  | _ => rfl

/-- What a program does not do stays as it was in its history. -/
theorem frame {guar : List Event → Event → Prop} {p : M α} (hp : Avoids kind p)
    (hfree : ∀ past e, kind e.1 = false → guar past e) (past : List Event) :
    p.Meets (fun _ => True) guar
      (fun past' _ => past'.filter (kind ·.1) = past.filter (kind ·.1) ∧ past ⊆ past') past := by
  have hadds := (hp past).adds (Q := fun (e : Event) => kind e.1 = false) fun _ _ hg => hg
  refine (hadds.mono_guar fun past' e _ hg => hfree past' e hg).mono ?_
  rintro past' a ⟨_, new, rfl, hnew⟩
  have hnone : new.filter (kind ·.1) = [] := by
    rw [List.filter_eq_nil_iff]
    intro e he
    simp [hnew e he]
  exact ⟨by simp [hnone], List.subset_append_right _ _⟩

end Avoids

section Parts
variable {config : AppConfig} {α β : Type}

theorem outward_resolveModelName (name : String) : Outward (resolveModelName name) := by
  unfold resolveModelName
  split
  · exact .ret _
  · exact .op (fun _ => rfl) fun _ => .ret _

theorem outward_quoteChatRequestCost (req : ChatCompletionRequest) :
    Outward (quoteChatRequestCost config req) := by
  refine (outward_resolveModelName _).bind fun found => ?_
  cases found with
  | error e => exact .ret _
  | ok hash =>
    refine .op (fun _ => rfl) fun cost => ?_
    cases cost <;> exact .ret _

theorem outward_failover (req : ChatCompletionRequest) (hash : H256) (prompt : String)
    (attempts : Nat) (lastErr : Option GatewayError) (providers : List ProviderInfo) :
    Outward (failover config req hash prompt attempts lastErr providers) := by
  induction attempts generalizing lastErr providers with
  | zero => exact .ret _
  | succ attempts ih =>
    unfold failover
    split
    · exact .ret _
    · refine .op (fun _ => rfl) fun answer => ?_
      cases answer with
      | error e => exact ih _ _
      | ok resp =>
        simp only [Prog.bind]
        split
        · exact .ret _
        · exact ih _ _

theorem outward_runDispatch (req : ChatCompletionRequest) : Outward (runDispatch config req) := by
  refine (outward_resolveModelName _).bind fun found => ?_
  cases found with
  | error e => exact .ret _
  | ok hash =>
    refine .op (fun _ => rfl) fun listed => ?_
    cases listed with
    | error e => exact .ret _
    | ok providers =>
      refine .op (fun _ => rfl) fun pools => ?_
      simp only [Prog.bind]
      split
      · exact .ret _
      · split
        · exact .op (o := .unwind) (fun _ => rfl) fun a => nomatch a
        · exact .ret _
        · split
          · exact .ret _
          · exact outward_failover _ _ _ _ _ _

theorem outward_jsonResponse (req : ChatCompletionRequest) (d : DispatchOutcome) :
    Outward (jsonResponse req d) :=
  .op (fun _ => rfl) fun _ => .op (fun _ => rfl) fun _ => .ret _

theorem outward_chatReply (req : ChatCompletionRequest) (d : DispatchOutcome) :
    Outward (chatReply req d) := by
  unfold chatReply
  split
  · exact .op (fun _ => rfl) fun _ => .op (fun _ => rfl) fun _ => .ret _
  · exact (outward_jsonResponse req d).bind fun _ => .ret _

theorem keyless_emitUsage (apiKey : Option ApiKeyContext) (charge : ChatCharge)
    (d : DispatchOutcome) : Keyless (emitUsage apiKey charge d) := by
  unfold emitUsage
  split
  · exact .op (fun _ => rfl) fun _ => .ret _
  · exact .ret _

theorem outward_quoteSlots (acc : BatchQuote) (requests : List ChatCompletionRequest) :
    Outward (quoteSlots config acc requests) := by
  induction requests generalizing acc with
  | nil => exact .ret _
  | cons r rs ih =>
    refine (outward_quoteChatRequestCost _).bind fun quoted => ?_
    cases quoted with
    | error e => exact .ret _
    | ok quoted =>
      simp only
      split
      · exact .ret _
      · exact ih _

theorem keyless_submitBatchHandler (paid : X402Paid) (apiKey : Option ApiKeyContext)
    (requests : List ChatCompletionRequest) :
    Keyless (submitBatchHandler config paid apiKey requests) := by
  unfold submitBatchHandler
  split
  · exact .ret _
  · refine (outward_quoteSlots _ _).keyless.bind fun quoted => ?_
    cases quoted with
    | error e => exact .ret _
    | ok quote =>
      simp only
      split
      · exact .ret _
      · refine .op (fun _ => rfl) fun uuid => ?_
        have htoken : Keyless (mintReadToken apiKey) := by
          cases apiKey
          · exact .op (fun _ => rfl) fun _ => .ret _
          · exact .ret _
        have hinsert : ∀ record, Keyless (insertBatch config record) := by
          intro record
          unfold insertBatch
          split
          · exact .op (fun _ => rfl) fun _ => .op (fun _ => rfl) fun _ => .ret _
          · exact .op (fun _ => rfl) fun _ => .ret _
        refine htoken.bind fun token => .op (fun _ => rfl) fun created => ?_
        exact (hinsert _).bind fun _ => .op (fun _ => rfl) fun _ => .op (fun _ => rfl) fun _ => .ret _

theorem outward_quoteChat (req : ChatCompletionRequest) : Outward (quoteChat config req) := by
  refine (outward_resolveModelName _).bind fun found => ?_
  cases found with
  | error e => exact .ret _
  | ok hash =>
    refine .op (fun _ => rfl) fun cost => ?_
    cases cost <;> exact .ret _

theorem outward_fallbackQuote : Outward (fallbackQuote config) := by
  refine (outward_resolveModelName _).bind fun found => ?_
  cases found with
  | error e => exact .ret _
  | ok hash =>
    refine .op (fun _ => rfl) fun cost => ?_
    cases cost <;> exact .ret _

theorem outward_quoteBatch (total : U256) (requests : List ChatCompletionRequest) :
    Outward (quoteBatch config total requests) := by
  induction requests generalizing total with
  | nil => exact .ret _
  | cons r rs ih =>
    unfold quoteBatch
    split
    · exact outward_fallbackQuote
    · refine (outward_quoteChat r).bind fun quoted => ?_
      cases quoted with
      | error e => exact .ret _
      | ok cost =>
        simp only
        split
        · exact .ret _
        · exact ih _

theorem outward_priceFor (body : Bytes) : Outward (priceFor config body) := by
  unfold priceFor
  split
  · exact .ret _
  · split
    · exact outward_quoteChat _
    · split
      · exact .ret _
      · split
        · exact outward_fallbackQuote
        · split
          · exact outward_fallbackQuote
          · split
            · exact .ret _
            · exact outward_quoteBatch _ _

end Parts

section Routes
variable {config : AppConfig}

/-- Without a key context a request moves no budget and no balance of a key. -/
theorem outward_chatCompletionsHandler (paid : Option X402Paid) (req : ChatCompletionRequest) :
    Outward (chatCompletionsHandler config none paid req) := by
  have hcharge : Outward (acceptCharge config none paid (clamped config req)) := by
    cases paid with
    | none => exact .ret _
    | some pay =>
      refine (outward_quoteChatRequestCost _).bind fun quoted => ?_
      cases quoted with
      | error e => exact .ret _
      | ok quoted =>
        simp only
        split <;> exact .ret _
  unfold chatCompletionsHandler
  split
  · exact .ret _
  · refine hcharge.bind fun charged => ?_
    cases charged with
    | error e => exact .ret _
    | ok charge =>
      refine (outward_runDispatch _).bind fun result => ?_
      cases result with
      | error e =>
        have hrefund : refundModel none (clamped config req) charge = pure () := by
          unfold refundModel
          cases charge.modelDebited <;> rfl
        show Outward (refundModel none (clamped config req) charge >>= _)
        rw [hrefund]
        exact .ret _
      | ok d =>
        exact (outward_chatReply _ _).bind fun _ => .ret _

theorem outward_respond (r : Response) : Outward (respond r) := .op (fun _ => rfl) fun _ => .ret _

theorem outward_readBody (fwd : Forwarded) : Outward (readBody fwd) := by
  unfold readBody
  split
  · exact .ret _
  · exact .op (fun _ => rfl) fun _ => .ret _

theorem keyless_routeService {fwd : Forwarded} (hkey : fwd.key = none) :
    Keyless (routeService config fwd) := by
  refine (outward_readBody fwd).keyless.bind fun read => ?_
  cases read with
  | error e => exact (outward_respond _).keyless
  | ok bytes =>
    simp only
    split
    · split
      · exact (outward_respond _).keyless
      · rw [hkey]
        exact .op (fun _ => rfl) fun _ =>
          (outward_chatCompletionsHandler _ _).keyless.bind fun _ => (outward_respond _).keyless
    · split
      · exact (outward_respond _).keyless
      · split
        · exact (outward_respond _).keyless
        · exact .op (fun _ => rfl) fun _ =>
            (keyless_submitBatchHandler _ _ _).bind fun _ => (outward_respond _).keyless

theorem keyless_runLayerOp {fwd : Forwarded} (hkey : fwd.key = none) (s : Passing)
    (o : X402.Op) : Keyless (runLayerOp config fwd s o) := by
  cases o with
  | bufferRequestBody =>
    simp only [runLayerOp]
    split
    · exact .ret _
    · refine .op (fun _ => rfl) fun read => ?_
      cases read <;> exact .ret _
  | priceFor line body => exact (outward_priceFor body).keyless.bind fun _ => .ret _
  | innerCall inserted => exact .ret _
  | innerResponse =>
    have hroute : Keyless (routeService config { fwd with body := s.body, paid := s.paid }) :=
      keyless_routeService hkey
    exact hroute.bind fun _ => .ret _
  | _ => exact .op (fun _ => rfl) fun _ => .ret _

theorem keyless_x402Service {fwd : Forwarded} (hkey : fwd.key = none) :
    Keyless (x402Service config fwd) := by
  refine Only.bind ?_ fun r => ?_
  · exact Only.interp (keyless_runLayerOp hkey) _ _
  · obtain ⟨result, s⟩ := r
    simp only
    split <;> exact .ret _

/-- A request that carries the marker is served as it is. -/
theorem x402Service_of_paid {fwd : Forwarded} (hpaid : fwd.paid.isSome = true) :
    x402Service config fwd = (routeService config fwd >>= fun r => pure (.ok r)) := by
  have hinner : (X402.innerCall none).interp (runLayerOp config fwd) ⟨fwd.body, fwd.paid, none⟩ =
      (routeService config fwd >>= fun r =>
        pure (.ok ⟨r.status, .served ""⟩, ⟨fwd.body, fwd.paid, some r⟩)) := by
    show (routeService config fwd >>= fun r => _) >>= _ = _
    rw [Prog.bind_assoc]
    rfl
  simp only [x402Service, X402.call, if_pos hpaid]
  rw [hinner, Prog.bind_assoc]
  rfl

end Routes

section Processing
variable {config : AppConfig}

/-- The calls that move what is left of a model budget. -/
def Op.isBudgetMove : Op → Bool
  | .keys (.debitModelBudget _ _ _) | .keys (.refundModelBudget _ _ _) => true
  | _ => false

abbrev MovesNoBudget {α : Type} (p : M α) : Prop := Avoids Op.isBudgetMove p

theorem Avoids.movesNoBudget {α : Type} {p : M α} (hp : Keyless p) : MovesNoBudget p := by
  refine hp.mono fun e he => ?_
  obtain ⟨o, a⟩ := e
  cases o with
  | keys c => cases he
  | _ => rfl

theorem movesNoBudget_settlePersisted (id : String) (payer : Option String)
    (x402Payer : Option H160) (refund : U256) (terminal : PersistedBatch) :
    MovesNoBudget (settlePersisted id payer x402Payer refund terminal) := by
  unfold settlePersisted
  split
  · cases payer
    · exact .op (fun _ => rfl) fun _ => .ret _
    · exact .op (fun _ => rfl) fun _ => .ret _
  · exact .op (fun _ => rfl) fun _ => .ret _

theorem movesNoBudget_settleBatch (record : BatchRecord) :
    MovesNoBudget (settleBatch config record) := by
  unfold settleBatch
  split
  · exact movesNoBudget_settlePersisted _ _ _ _ _
  · split
    · split
      · exact .op (fun _ => rfl) fun _ => .ret _
      · exact .ret _
    · exact .ret _

theorem movesNoBudget_checkpoint (record : BatchRecord) :
    MovesNoBudget (checkpoint config record) := by
  unfold checkpoint
  split
  · exact .op (fun _ => rfl) fun _ => .op (fun _ => rfl) fun _ => .ret _
  · exact .ret _

theorem movesNoBudget_processSlot (id : String) (i : Nat) :
    MovesNoBudget (processSlot config id i) := by
  refine .op (fun _ => rfl) fun terminal => ?_
  cases terminal with
  | true => exact .ret _
  | false =>
    refine .op (fun _ => rfl) fun _ => .op (fun _ => rfl) fun request => ?_
    refine (outward_runDispatch _).keyless.movesNoBudget.bind fun result => ?_
    cases result with
    | error e => exact .op (fun _ => rfl) fun _ => .op (fun _ => rfl) fun _ => movesNoBudget_checkpoint _
    | ok d =>
      refine (outward_jsonResponse _ _).keyless.movesNoBudget.bind fun response => ?_
      exact .op (fun _ => rfl) fun _ => .op (fun _ => rfl) fun _ => movesNoBudget_checkpoint _

theorem movesNoBudget_processSlots (id : String) (slots : List Nat) :
    MovesNoBudget (processSlots config id slots) := by
  induction slots with
  | nil => exact .ret _
  | cons i rest ih => exact (movesNoBudget_processSlot id i).bind fun _ => ih

theorem movesNoBudget_processBatch (id : String) : MovesNoBudget (processBatch config id) :=
  .op (fun _ => rfl) fun _ => .op (fun _ => rfl) fun _ => (movesNoBudget_processSlots _ _).bind fun _ =>
    .op (fun _ => rfl) fun _ => movesNoBudget_settleBatch _

theorem movesNoBudget_recoverBatches (found : List (String × PersistedBatch)) :
    MovesNoBudget (recoverBatches found) := by
  induction found with
  | nil => exact .ret _
  | cons x rest ih =>
    refine Only.bind ?_ fun _ => ih
    refine .op (fun _ => rfl) fun settled => ?_
    simp only [Prog.bind]
    split
    · exact .op (fun _ => rfl) fun _ => .ret _
    · exact (movesNoBudget_settlePersisted _ _ _ _ _).bind fun _ => .op (fun _ => rfl) fun _ => .ret _

theorem movesNoBudget_recover : MovesNoBudget (recover config) := by
  unfold recover
  split
  · refine .op (fun _ => rfl) fun found => ?_
    cases found with
    | error e => exact .ret _
    | ok found => exact movesNoBudget_recoverBatches found
  · exact .ret _

end Processing
end Gateway.App
