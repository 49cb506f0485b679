import CitrateGateway.Gateway.Keyless
import CitrateGateway.Gateway.Node
import CitrateGateway.Gateway.Reconcile
import CitrateGateway.X402.Requests

/-!
# What each task does with batches

A request submits at most one batch, under an id of its own. The processor of a batch goes
through its slots once, checkpoints what it has just read and settles what it has finished.
Recovery settles what it finds unsettled.
-/

namespace Gateway.App
set_option autoImplicit false
open Words Effects X402

section Ops

/-- The operations on live batches and on their rows. -/
def Op.isBatch : Op → Bool
  | .store _ | .live _ | .spawnProcessBatch _ => true
  | _ => false

/-- What a task has done to batches, newest first. -/
def batchOps (past : List Event) : List Event := past.filter (·.1.isBatch)

/-- What a task has done to the gateway itself, newest first. -/
def inward (past : List Event) : List Event := past.filter (·.1.isInward)

def BatchCall.isSettle : BatchCall → Bool
  | .markBatchSettled _ _ | .settleBatchRefund _ _ _ _ | .recordRefundOwed _ _ _ _ => true
  | .persistBatch _ _ | .loadBatches | .batchWasSettled _ => false

/-- The one call that a terminal batch is settled with. -/
def settleCall (batchId : String) (payer : Option String) (x402Payer : Option H160)
    (refund : U256) (terminal : PersistedBatch) : BatchCall :=
  if 0 < refund.toNat then
    match payer with
    | some keyId => .settleBatchRefund keyId refund batchId terminal
    | none => .recordRefundOwed batchId x402Payer refund terminal
  else .markBatchSettled batchId terminal

theorem settlePersisted_eq (batchId : String) (payer : Option String) (x402Payer : Option H160)
    (refund : U256) (terminal : PersistedBatch) :
    settlePersisted batchId payer x402Payer refund terminal =
      .op (.store (settleCall batchId payer x402Payer refund terminal)) fun _ => pure () := by
  by_cases h : 0 < refund.toNat
  · cases payer with
    | some keyId =>
      have hcall : settleCall batchId (some keyId) x402Payer refund terminal =
          .settleBatchRefund keyId refund batchId terminal := if_pos h
      rw [hcall, settlePersisted, if_pos h]
      rfl
    | none =>
      have hcall : settleCall batchId none x402Payer refund terminal =
          .recordRefundOwed batchId x402Payer refund terminal := if_pos h
      rw [hcall, settlePersisted, if_pos h]
      rfl
  · have hcall : settleCall batchId payer x402Payer refund terminal =
        .markBatchSettled batchId terminal := if_neg h
    rw [hcall]
    unfold settlePersisted
    rw [if_neg h]
    rfl

theorem settleCall_isSettle (batchId : String) (payer : Option String)
    (x402Payer : Option H160) (refund : U256) (terminal : PersistedBatch) :
    (settleCall batchId payer x402Payer refund terminal).isSettle = true := by
  unfold settleCall
  split
  · cases payer <;> rfl
  · rfl

theorem batchOps_cons {e : Event} (he : e.1.isBatch = true) (past : List Event) :
    batchOps (e :: past) = e :: batchOps past := by
  simp [batchOps, he]

theorem batchOps_cons_quiet {e : Event} (he : e.1.isBatch = false) (past : List Event) :
    batchOps (e :: past) = batchOps past := by
  simp [batchOps, he]

theorem inward_cons {e : Event} (he : e.1.isInward = true) (past : List Event) :
    inward (e :: past) = e :: inward past := by
  simp [inward, he]

theorem inward_cons_outward {e : Event} (he : e.1.isInward = false) (past : List Event) :
    inward (e :: past) = inward past := by
  simp [inward, he]

theorem Op.isInward_of_isBatch {o : Op} (h : o.isBatch = true) : o.isInward = true := by
  cases o <;> first | rfl | cases h

end Ops

section Duties
variable (config : AppConfig)

/-- A record as its batch is submitted with it, under an id the task has made up. -/
structure Fresh (past : List Event) (r : BatchRecord) : Prop where
  named : ∃ u, ⟨.newUuid, u⟩ ∈ past ∧ r.id = "batch_" ++ u
  status : r.status = .submitted
  released : r.releasedGrains = 0
  refunded : r.refundedGrains = 0
  paid : r.paidEscrowGrains.toNat = escrowSum r.slots
  idle : ∀ slot ∈ r.slots, slot.state = .pending ∧ slot.error = none

/-- A request persists a fresh record, opens it to readers and hands it to a processor. -/
def SubmitDuty (past : List Event) : Event → Prop
  | ⟨.store (.persistBatch id b), _⟩ => config.persist = true ∧ batchOps past = [] ∧
      ∃ r, Fresh past r ∧ id = r.id ∧ b = .fromRecord r false
  | ⟨.live (.insert id r), _⟩ => Fresh past r ∧ id = r.id ∧
      if config.persist then
        ∃ a, batchOps past = [⟨.store (.persistBatch id (.fromRecord r false)), a⟩]
      else batchOps past = []
  | ⟨.live (.read id), _⟩ => ∃ r rest, batchOps past = ⟨.live (.insert id r), ()⟩ :: rest
  | ⟨.spawnProcessBatch id, _⟩ => ∃ r current rest,
      batchOps past = ⟨.live (.read id), current⟩ :: ⟨.live (.insert id r), ()⟩ :: rest
  | ⟨o, _⟩ => o.isBatch = false

/-- The batch that a critical section is about. -/
def Live.batch : Live → String
  | .insert id _ | .setRunning id | .slotCount id | .isTerminal id _ | .setDispatched id _
  | .request id _ | .done id _ _ | .errored id _ _ | .read id | .finish id => id

/-- The end of slot `i`. -/
def ends (i : Nat) : Event → Bool
  | ⟨.live (.done _ j _), _⟩ | ⟨.live (.errored _ j _), _⟩ => i = j
  | _ => false

def dispatches (i : Nat) : Event → Bool
  | ⟨.live (.setDispatched _ j), _⟩ => i = j
  | _ => false

def finishes : Event → Bool
  | ⟨.live (.finish _), _⟩ => true
  | _ => false

/-- Slot `i` has been worked on and is over, or was found to be. -/
def Visited (id : String) (ops : List Event) (i : Nat) : Prop :=
  ⟨.live (.isTerminal id i), true⟩ ∈ ops ∨ ∃ e ∈ ops, ends i e = true

/-- The processor of a batch keeps to its batch and to the order of its work. -/
def ProcessDuty (id : String) (ops : List Event) : Event → Prop
  | ⟨.live (.insert _ _), _⟩ => False
  | ⟨.live (.setRunning x), _⟩ => x = id ∧ ops = []
  | ⟨.live (.setDispatched x i), _⟩ => x = id ∧
      (∃ rest, ops = ⟨.live (.isTerminal id i), false⟩ :: rest) ∧
      (∀ e ∈ ops, dispatches i e = false) ∧ (∀ e ∈ ops, ends i e = false) ∧
      ∀ e ∈ ops, finishes e = false
  | ⟨.live (.done x i _), _⟩ | ⟨.live (.errored x i _), _⟩ => x = id ∧
      ⟨.live (.setDispatched id i), ()⟩ ∈ ops ∧ (∀ e ∈ ops, ends i e = false) ∧
      ∀ e ∈ ops, finishes e = false
  | ⟨.live (.finish x), _⟩ => x = id ∧ (∀ e ∈ ops, finishes e = false) ∧
      ∃ n, ⟨.live (.slotCount id), n⟩ ∈ ops ∧ ∀ i < n, Visited id ops i
  | ⟨.live a, _⟩ => a.batch = id
  | ⟨.store (.persistBatch x b), _⟩ => ∃ record a rest,
      ops = ⟨.store (.batchWasSettled x), a⟩ :: ⟨.live (.read id), record⟩ :: rest ∧
        x = record.id ∧ b = .fromRecord record (a.toOption.getD false)
  | ⟨.store (.batchWasSettled x), _⟩ => ∃ record rest,
      ops = ⟨.live (.read id), record⟩ :: rest ∧ x = record.id
  | ⟨.store c, _⟩ => config.persist = true ∧ ∃ record rest,
      ops = ⟨.live (.finish id), record⟩ :: rest ∧
        c = settleCall record.id record.payerApiKeyId record.x402Payer record.refundedGrains
          (.fromRecord record true)
  | ⟨.keys c, _⟩ => config.persist = false ∧ ∃ record rest keyId,
      ops = ⟨.live (.finish id), record⟩ :: rest ∧ record.payerApiKeyId = some keyId ∧
        0 < record.refundedGrains.toNat ∧ c = .refund keyId record.refundedGrains
  | ⟨o, _⟩ => o.isInward = false

/-- Recovery settles the snapshot that it has just found unsettled. -/
def SettlesSnapshot (ops : List Event) (c : BatchCall) : Prop :=
  ∃ found id snapshot a rest, ⟨.store .loadBatches, .ok found⟩ ∈ ops ∧
    (id, snapshot) ∈ found ∧ ops = ⟨.store (.batchWasSettled id), a⟩ :: rest ∧
    a.toOption.getD false = false ∧
    c = settleCall id snapshot.intoRecord.reconcile.payerApiKeyId
      snapshot.intoRecord.reconcile.x402Payer snapshot.intoRecord.reconcile.refundedGrains
      (.fromRecord snapshot.intoRecord.reconcile true)

/-- Recovery asks of each snapshot whether it was settled, settles it if it was not, and then
opens the record to readers. -/
def RecoverDuty (ops : List Event) : Event → Prop
  | ⟨.store .loadBatches, _⟩ => ops = []
  | ⟨.store (.batchWasSettled id), _⟩ => ∃ found, ⟨.store .loadBatches, .ok found⟩ ∈ ops ∧
      id ∈ found.map Prod.fst
  | ⟨.live (.insert id r), _⟩ => ∃ found snapshot, ⟨.store .loadBatches, .ok found⟩ ∈ ops ∧
      (id, snapshot) ∈ found ∧
      ((∃ rest, ops = ⟨.store (.batchWasSettled id), .ok true⟩ :: rest ∧
          r = snapshot.intoRecord) ∨
        r = snapshot.intoRecord.reconcile ∧ ∃ answer rest,
          ops = ⟨.store (settleCall id r.payerApiKeyId r.x402Payer r.refundedGrains
            (.fromRecord r true)), answer⟩ :: rest)
  | ⟨.store c, _⟩ => SettlesSnapshot ops c
  | ⟨o, _⟩ => o.isInward = false

/-- What a task does to batches, by its job. -/
def BatchDuty : Job → List Event → Event → Prop
  | .request _ => SubmitDuty config
  | .processBatch id => fun past => ProcessDuty config id (inward past)
  | .recover => fun past => RecoverDuty (inward past)
  | .createKey _ _ _ _ | .revoke _ | .setModelBudget _ _ _ => fun _ e => e.1.isBatch = false

end Duties

section Submission
variable {config : AppConfig} {α : Type}

abbrev Submits (config : AppConfig) (post : List Event → α → Prop) (p : M α)
    (past : List Event) : Prop :=
  p.Meets (fun _ => True) (SubmitDuty config) post past

/-- A program that leaves batches alone. -/
abbrev Unbatched (p : M α) : Prop := Avoids Op.isBatch p

theorem Avoids.unbatched {p : M α} (hp : Outward p) : Unbatched p := by
  refine hp.mono fun e he => ?_
  by_contra hbatch
  rw [Op.isInward_of_isBatch (Bool.eq_true_of_not_eq_false hbatch)] at he
  cases he

theorem submitDuty_of_quiet {past : List Event} {e : Event} (he : e.1.isBatch = false) :
    SubmitDuty config past e := by
  obtain ⟨o, a⟩ := e
  cases o with
  | store c => cases he
  | live c => cases he
  | spawnProcessBatch id => cases he
  | _ => rfl

theorem Unbatched.submits {p : M α} (hp : Unbatched p) (past : List Event) :
    Submits config (fun past' _ => batchOps past' = batchOps past ∧ past ⊆ past') p past :=
  hp.frame (fun _ _ => submitDuty_of_quiet) past

theorem unbatched_chatCompletionsHandler (apiKey : Option ApiKeyContext)
    (paid : Option X402Paid) (req : ChatCompletionRequest) :
    Unbatched (chatCompletionsHandler config apiKey paid req) := by
  have hcharge : Unbatched (acceptCharge config apiKey paid (clamped config req)) := by
    cases paid with
    | none => exact .ret _
    | some pay =>
      refine (outward_quoteChatRequestCost _).unbatched.bind fun quoted => ?_
      cases quoted with
      | error e => exact .ret _
      | ok quoted =>
        simp only
        split
        · exact .ret _
        · cases apiKey with
          | none => exact .ret _
          | some ctx =>
            refine .op (fun _ => rfl) fun answer => ?_
            match answer with
            | .ok () => exact .ret _
            | .error (.exceeded remaining) => exact .ret _
            | .error (.store msg) => exact .ret _
            | .error (.crypt e) => exact .ret _
  have hrefund : ∀ charge, Unbatched (refundModel apiKey (clamped config req) charge) := by
    intro charge
    unfold refundModel
    split
    · exact .op (fun _ => rfl) fun _ => .ret _
    · exact .ret _
  have husage : ∀ charge d, Unbatched (emitUsage apiKey charge d) := by
    intro charge d
    unfold emitUsage
    split
    · exact .op (fun _ => rfl) fun _ => .ret _
    · exact .ret _
  unfold chatCompletionsHandler
  split
  · exact .ret _
  · refine hcharge.bind fun charged => ?_
    cases charged with
    | error e => exact .ret _
    | ok charge =>
      refine (outward_runDispatch _).unbatched.bind fun result => ?_
      cases result with
      | error e => exact (hrefund charge).bind fun _ => .ret _
      | ok d =>
        refine (husage charge d).bind fun _ => ?_
        exact (outward_chatReply _ _).unbatched.bind fun _ => .ret _

/-- The quotes add up to the total, and no slot has begun. -/
def Quoted (quote : BatchQuote) : Prop :=
  quote.totalRequired.toNat = escrowSum quote.slots ∧
    ∀ slot ∈ quote.slots, slot.state = .pending ∧ slot.error = none

theorem quoteSlots_quoted {acc : BatchQuote} (hacc : Quoted acc)
    (requests : List ChatCompletionRequest) (past : List Event) :
    (quoteSlots config acc requests).Meets (fun _ => True) (fun _ _ => True)
      (fun _ r => ∀ quote, r = .ok quote → Quoted quote) past := by
  induction requests generalizing acc past with
  | nil =>
    intro quote heq
    cases heq
    exact hacc
  | cons r rs ih =>
    refine (Prog.meets_true _ past).bind fun past' quoted _ => ?_
    cases quoted with
    | error e => exact nofun
    | ok quoted =>
      obtain ⟨cost, requestedTokens⟩ := quoted
      simp only
      split
      · exact nofun
      · rename_i hoverflow
        apply ih
        have hsum := overflowingAdd_toNat (Prod.ext rfl (Bool.eq_false_of_not_eq_true hoverflow))
        refine ⟨?_, ?_⟩
        · simp only [escrowSum, List.map_append, List.sum_append] at hacc ⊢
          rw [hsum, hacc.1]
          simp [escrowSum]
        · intro slot hslot
          rcases List.mem_append.1 hslot with hslot | hslot
          · exact hacc.2 slot hslot
          · rw [List.mem_singleton.1 hslot]
            exact ⟨rfl, rfl⟩

theorem Fresh.mono {past past' : List Event} {r : BatchRecord} (h : Fresh past r)
    (hsub : past ⊆ past') : Fresh past' r := by
  obtain ⟨u, hu, hid⟩ := h.named
  exact { h with named := ⟨u, hsub hu, hid⟩ }

/-- Persist a record, open it to readers and start its processor. -/
theorem launch_submits {record : BatchRecord} {past : List Event} (hfresh : Fresh past record)
    (hpast : batchOps past = []) (f : BatchRecord → α) :
    Submits config (fun _ _ => True) (insertBatch config record >>= fun _ =>
      live (.read record.id) >>= fun current => spawnProcessBatch record.id >>= fun _ =>
        pure (f current)) past := by
  have hrest : ∀ {past' : List Event} {rest : List Event},
      batchOps past' = ⟨.live (.insert record.id record), ()⟩ :: rest →
      Submits config (fun _ _ => True) (live (.read record.id) >>= fun current =>
        spawnProcessBatch record.id >>= fun _ => pure (f current)) past' := by
    intro past' rest hops
    refine Prog.meets_perform_bind.2 fun current _ => ⟨⟨record, rest, hops⟩, ?_⟩
    refine Prog.meets_perform_bind.2 fun _ _ => ⟨⟨record, current, rest, ?_⟩, trivial⟩
    rw [batchOps_cons rfl, hops]
  unfold insertBatch
  by_cases hpersist : config.persist = true
  · rw [if_pos hpersist]
    refine Prog.meets_perform_bind.2 fun answer _ => ⟨⟨hpersist, hpast, record, hfresh, rfl, rfl⟩, ?_⟩
    have hops : batchOps (⟨.store (.persistBatch record.id (.fromRecord record false)),
        answer⟩ :: past) = [⟨.store (.persistBatch record.id (.fromRecord record false)),
          answer⟩] := by
      rw [batchOps_cons rfl, hpast]
    refine Prog.meets_perform_bind.2 fun _ _ =>
      ⟨⟨hfresh.mono (List.subset_cons_self _ _), rfl, ?_⟩, ?_⟩
    · rw [if_pos hpersist]
      exact ⟨answer, hops⟩
    · exact hrest (by rw [batchOps_cons rfl])
  · rw [if_neg hpersist]
    refine Prog.meets_perform_bind.2 fun _ _ => ⟨⟨hfresh, rfl, ?_⟩, ?_⟩
    · rw [if_neg hpersist]
      exact hpast
    · exact hrest (by rw [batchOps_cons rfl])

theorem submitBatchHandler_submits (paid : X402Paid) (apiKey : Option ApiKeyContext)
    (requests : List ChatCompletionRequest) {past : List Event} (hpast : batchOps past = []) :
    Submits config (fun _ _ => True) (submitBatchHandler config paid apiKey requests) past := by
  unfold submitBatchHandler
  split
  · trivial
  have hempty : Quoted ⟨0, defaultMaxTokens, []⟩ := ⟨rfl, nofun⟩
  have houtward : Outward (quoteSlots config ⟨0, defaultMaxTokens, []⟩ requests) :=
    outward_quoteSlots _ requests
  have hsubmits : Submits config _ _ past := houtward.unbatched.submits past
  have hquote := hsubmits.and (quoteSlots_quoted hempty requests past)
  refine (hquote.mono_guar fun _ _ _ h => h.1).bind fun past₁ quoted hquoted => ?_
  obtain ⟨⟨hops₁, _⟩, hquoted⟩ := hquoted
  cases quoted with
  | error e => trivial
  | ok quote =>
    obtain ⟨htotal, hidle⟩ := hquoted quote rfl
    simp only
    split
    · trivial
    refine Prog.meets_perform_bind.2 fun uuid _ => ⟨rfl, ?_⟩
    have htoken : Unbatched (mintReadToken apiKey) := by
      cases apiKey
      · exact .op (fun _ => rfl) fun _ => .ret _
      · exact .ret _
    refine (htoken.submits _).bind fun past₂ token htokened => ?_
    obtain ⟨hops₂, hsub₂⟩ := htokened
    refine Prog.meets_perform_bind.2 fun created _ => ⟨rfl, ?_⟩
    refine launch_submits ?_ ?_ _
    · exact {
        named := ⟨uuid, List.mem_cons_of_mem _ (hsub₂ List.mem_cons_self), rfl⟩
        status := rfl
        released := rfl
        refunded := rfl
        paid := htotal
        idle := hidle }
    · rw [batchOps_cons_quiet rfl, hops₂, batchOps_cons_quiet rfl, hops₁, hpast]

theorem routeService_submits (fwd : Forwarded) {past : List Event} (hpast : batchOps past = []) :
    Submits config (fun _ _ => True) (routeService config fwd) past := by
  have hquiet : ∀ {p : M Response} {past' : List Event}, Unbatched p →
      Submits config (fun _ _ => True) p past' := fun hp =>
    (hp.submits _).mono fun _ _ _ => trivial
  refine ((outward_readBody fwd).unbatched.submits past).bind fun past₁ read hread => ?_
  cases read with
  | error e => exact hquiet (outward_respond _).unbatched
  | ok bytes =>
    simp only
    split
    · split
      · exact hquiet (outward_respond _).unbatched
      · refine Prog.meets_perform_bind.2 fun _ _ => ⟨rfl, hquiet ?_⟩
        exact (unbatched_chatCompletionsHandler _ _ _).bind fun _ => (outward_respond _).unbatched
    · split
      · exact hquiet (outward_respond _).unbatched
      · split
        · exact hquiet (outward_respond _).unbatched
        · refine Prog.meets_perform_bind.2 fun _ _ => ⟨rfl, ?_⟩
          refine (submitBatchHandler_submits _ _ _ ?_).bind fun _ _ _ =>
            hquiet (outward_respond _).unbatched
          rw [batchOps_cons_quiet rfl, hread.1, hpast]

theorem unbatched_settleApiKeyResponse (keyId : String) (debited : U256) (r : Response) :
    Unbatched (settleApiKeyResponse keyId debited r) := by
  unfold settleApiKeyResponse
  split
  · split
    · split
      · exact .op (fun _ => rfl) fun _ => .ret _
      · exact .ret _
    · exact .ret _
  · exact .op (fun _ => rfl) fun _ => .ret _

/-- Until the inner service of the x402 layer answers, nothing was done to batches. -/
def Waiting (_ : Passing) (h : List LayerSig.Event) (past : List Event) : Prop :=
  (∀ e ∈ h, e.1 ≠ X402.Op.innerResponse) → batchOps past = []

theorem waiting_of_notServed {s : Passing} {h : List LayerSig.Event} {past : List Event}
    {inserted : Option X402Paid} (hn : NotServed h)
    (hw : Waiting s (⟨.innerCall inserted, ()⟩ :: h) past) : batchOps past = [] := by
  apply hw
  intro e he heq
  rcases List.mem_cons.1 he with rfl | he
  · cases heq
  · have hinner := hn e he
    rw [heq] at hinner
    cases hinner

theorem runLayerOp_submits (fwd : Forwarded) (req : X402.Request) (s : Passing)
    (h : List LayerSig.Event) (past : List Event) (o : X402.Op) (hrel : Waiting s h past)
    (hguar : ∀ a : o.Ans, True → InnerDuty config.crypto config.x402 req h ⟨o, a⟩) :
    Submits config (fun past' r => True ∧ Waiting r.2 (⟨o, r.1⟩ :: h) past')
      (runLayerOp config fwd s o) past := by
  have hquiet : ∀ {p : M (o.Ans × Passing)}, Unbatched p → Submits config
      (fun past' r => True ∧ Waiting r.2 (⟨o, r.1⟩ :: h) past') p past := by
    intro p hp
    refine (hp.submits past).mono fun past' r hsame => ⟨trivial, fun hun => ?_⟩
    rw [hsame.1]
    exact hrel fun e he => hun e (List.mem_cons_of_mem _ he)
  cases o with
  | innerResponse =>
    refine (routeService_submits _ ?_).bind fun past' r _ => ⟨trivial, fun hun => ?_⟩
    · obtain ⟨inserted, rest, rfl, hnot, _⟩ := hguar (.ok ⟨0, .served ""⟩) trivial
      exact waiting_of_notServed hnot hrel
    · exact absurd rfl (hun _ List.mem_cons_self)
  | bufferRequestBody =>
    refine hquiet ?_
    unfold runLayerOp
    split
    · exact .ret _
    · refine .op (fun _ => rfl) fun read => ?_
      cases read <;> exact .ret _
  | priceFor line body =>
    exact hquiet ((outward_priceFor body).unbatched.bind fun _ => .ret _)
  | innerCall inserted => exact hquiet (.ret _)
  | _ => exact hquiet (.op (fun _ => rfl) fun _ => .ret _)

theorem x402Service_submits (fwd : Forwarded) {past : List Event} (hpast : batchOps past = []) :
    Submits config (fun _ _ => True) (x402Service config fwd) past := by
  have hcall : (X402.call config.crypto config.x402
      ⟨fwd.req.line, fwd.req.paymentHeader, fwd.paid⟩).Meets (fun _ => True)
      (InnerDuty config.crypto config.x402 ⟨fwd.req.line, fwd.req.paymentHeader, fwd.paid⟩)
      (fun _ _ => True) [] := X402.call_once
  have hwait : Waiting ⟨fwd.body, fwd.paid, none⟩ [] past := fun _ => hpast
  refine (Prog.Meets.interp (runLayerOp_submits fwd _) hcall hwait).bind fun past' r _ => ?_
  obtain ⟨result, s⟩ := r
  simp only
  split <;> trivial

theorem handleRequest_submits (req : Request) :
    Submits config (fun _ _ => True) (handleRequest config req) [] := by
  have hexhausted : ∀ {fwd : Forwarded} {past : List Event} (deposit : H160),
      batchOps past = [] → Submits config (fun _ _ => True)
        (exhausted (x402Service config) fwd deposit) past := by
    intro fwd past deposit hpast
    refine (x402Service_submits fwd hpast).bind fun past' r _ => ?_
    cases r <;> trivial
  have hfunded : ∀ {fwd : Forwarded} {past : List Event} (keyId : String) (record : ApiKeyRecord)
      (price : U256), batchOps past = [] → Submits config (fun _ _ => True)
        (funded (x402Service config) fwd keyId record price) past := by
    intro fwd past keyId record price hpast
    refine (x402Service_submits _ hpast).bind fun past' r _ => ?_
    cases r with
    | error e => trivial
    | ok r =>
      exact ((unbatched_settleApiKeyResponse _ _ _).submits past').bind fun _ _ _ => trivial
  unfold handleRequest apiKeyService
  split
  · exact x402Service_submits _ rfl
  refine Prog.meets_perform_bind.2 fun found _ => ⟨rfl, ?_⟩
  cases found with
  | none => trivial
  | some record =>
    simp only
    split
    · trivial
    refine Prog.meets_perform_bind.2 fun read _ => ⟨rfl, ?_⟩
    cases read with
    | error e => trivial
    | ok body =>
      refine ((outward_priceFor body).unbatched.submits _).bind fun past₁ priced hsame => ?_
      have hnone : batchOps past₁ = [] := hsame.1
      cases priced with
      | error e => trivial
      | ok price =>
        simp only
        split
        · exact hexhausted _ hnone
        · refine Prog.meets_perform_bind.2 fun debited _ => ⟨rfl, ?_⟩
          cases debited with
          | ok b => exact hfunded _ _ _ hnone
          | error e => exact hexhausted _ hnone

end Submission

section Processing
variable {config : AppConfig} {id : String} {α β : Type}

/-- The judgement for the tasks behind the requests: it is about what was done to the gateway
itself. -/
def Inwardly (duty : List Event → Event → Prop) (post : List Event → α → Prop) (p : M α)
    (ops : List Event) : Prop :=
  ∀ past, inward past = ops →
    p.Meets (fun _ => True) (fun past e => duty (inward past) e)
      (fun past' a => post (inward past') a) past

section Rules
variable {duty : List Event → Event → Prop} {post : List Event → α → Prop} {ops : List Event}

theorem inwardly_ret {a : α} (h : post ops a) : Inwardly duty post (pure a) ops := by
  intro past hpast
  change post (inward past) a
  rw [hpast]
  exact h

theorem inwardly_perform {o : Op} {k : o.Ans → M α} (ho : o.isInward = true)
    (hduty : ∀ a, duty ops ⟨o, a⟩) (hk : ∀ a, Inwardly duty post (k a) (⟨o, a⟩ :: ops)) :
    Inwardly duty post (Prog.perform (E := AppSig) o >>= k) ops := by
  intro past hpast
  refine Prog.meets_perform_bind.2 fun a _ => ⟨?_, hk a _ ?_⟩
  · rw [hpast]
    exact hduty a
  · rw [inward_cons (e := ⟨o, a⟩) ho, hpast]

theorem Inwardly.bind {post₁ : List Event → β → Prop} {p : M β} {f : β → M α}
    (hp : Inwardly duty post₁ p ops)
    (hf : ∀ ops' b, post₁ ops' b → Inwardly duty post (f b) ops') :
    Inwardly duty post (p >>= f) ops :=
  fun past hpast => (hp past hpast).bind fun past' b hb => hf _ b hb past' rfl

theorem Inwardly.mono {post' : List Event → α → Prop} {p : M α}
    (hp : Inwardly duty post p ops) (hpost : ∀ ops' a, post ops' a → post' ops' a) :
    Inwardly duty post' p ops :=
  fun past hpast => (hp past hpast).mono fun _ a ha => hpost _ a ha

theorem Outward.inwardly {p : M α} (hp : Outward p)
    (hfree : ∀ ops e, e.1.isInward = false → duty ops e) (ops : List Event) :
    Inwardly duty (fun ops' _ => ops' = ops) p ops := by
  intro past hpast
  refine (hp.frame (fun _ _ => hfree _ _) past).mono fun past' _ hsame => ?_
  exact hsame.1.trans hpast

end Rules

abbrev Processes (config : AppConfig) (id : String) (post : List Event → α → Prop) (p : M α)
    (ops : List Event) : Prop :=
  Inwardly (ProcessDuty config id) post p ops

theorem processDuty_of_outward {ops : List Event} {e : Event} (he : e.1.isInward = false) :
    ProcessDuty config id ops e := by
  obtain ⟨o, a⟩ := e
  cases o with
  | keys c => cases he
  | store c => cases he
  | live c => cases he
  | spawnProcessBatch id => cases he
  | recordUsage keyId i o grains => cases he
  | _ => rfl

theorem Outward.processes {p : M α} (hp : Outward p) (ops : List Event) :
    Processes config id (fun ops' _ => ops' = ops) p ops :=
  hp.inwardly (fun _ _ => processDuty_of_outward) ops

/-- An event that begins, ends and finishes nothing. -/
def Idle (e : Event) : Prop :=
  finishes e = false ∧ ∀ j, dispatches j e = false ∧ ends j e = false

theorem idle_store (c : BatchCall) (a : c.toMethod.Ans) : Idle ⟨.store c, a⟩ :=
  ⟨rfl, fun _ => ⟨rfl, rfl⟩⟩

/-- What the work on slot `i` adds to what was done. -/
structure Worked (id : String) (i : Nat) (ops ops' : List Event) : Prop where
  visited : Visited id ops' i
  suffix : ∃ new, ops' = new ++ ops ∧
    ∀ e ∈ new, finishes e = false ∧ ∀ j, j ≠ i → dispatches j e = false ∧ ends j e = false

theorem checkpoint_processes (record : BatchRecord) (ops : List Event) :
    Processes config id (fun ops' _ => ∃ new, ops' = new ++ ⟨.live (.read id), record⟩ :: ops ∧
      ∀ e ∈ new, Idle e) (checkpoint config record) (⟨.live (.read id), record⟩ :: ops) := by
  unfold checkpoint
  split
  · refine inwardly_perform rfl (fun _ => ⟨record, ops, rfl, rfl⟩) fun answer => ?_
    refine inwardly_perform rfl (fun _ => ⟨record, answer, ops, rfl, rfl, rfl⟩) fun done => ?_
    apply inwardly_ret
    refine ⟨[⟨.store (.persistBatch record.id (.fromRecord record (answer.toOption.getD false))),
      done⟩, ⟨.store (.batchWasSettled record.id), answer⟩], rfl, ?_⟩
    intro e he
    rcases List.mem_cons.1 he with rfl | he
    · exact idle_store _ _
    · rw [List.mem_singleton.1 he]
      exact idle_store _ _
  · apply inwardly_ret
    refine ⟨[], rfl, ?_⟩
    intro e he
    cases he

/-- The end of a slot, and its checkpoint. -/
theorem ended_processes {i : Nat} (ops : List Event) {mark : Event}
    (hmark : ends i mark = true)
    (hothers : finishes mark = false ∧ ∀ j, j ≠ i → dispatches j mark = false ∧ ends j mark = false)
    {work : List Event} (hwork : ∀ e ∈ work, finishes e = false ∧
      ∀ j, j ≠ i → dispatches j e = false ∧ ends j e = false) :
    Processes config id (fun ops' _ => Worked id i ops ops')
      (live (.read id) >>= fun record => checkpoint config record) (mark :: (work ++ ops)) := by
  refine inwardly_perform rfl (fun _ => rfl) fun record => ?_
  refine (checkpoint_processes record _).mono fun ops' _ h => ?_
  obtain ⟨new, rfl, hnew⟩ := h
  refine ⟨Or.inr ⟨mark, by simp, hmark⟩, new ++ ⟨.live (.read id), record⟩ :: mark :: work,
    by simp, ?_⟩
  intro e he
  rcases List.mem_append.1 he with he | he
  · exact ⟨(hnew e he).1, fun j _ => (hnew e he).2 j⟩
  rcases List.mem_cons.1 he with rfl | he
  · exact ⟨rfl, fun _ _ => ⟨rfl, rfl⟩⟩
  rcases List.mem_cons.1 he with rfl | he
  · exact hothers
  · exact hwork e he

theorem processSlot_processes {i : Nat} {ops : List Event}
    (hdispatch : ∀ e ∈ ops, dispatches i e = false) (hend : ∀ e ∈ ops, ends i e = false)
    (hfinish : ∀ e ∈ ops, finishes e = false) :
    Processes config id (fun ops' _ => Worked id i ops ops') (processSlot config id i) ops := by
  unfold processSlot
  refine inwardly_perform rfl (fun _ => rfl) fun terminal => ?_
  cases terminal with
  | true =>
    apply inwardly_ret
    refine ⟨Or.inl List.mem_cons_self, [⟨.live (.isTerminal id i), true⟩], rfl, ?_⟩
    intro e he
    rw [List.mem_singleton.1 he]
    exact ⟨rfl, fun _ _ => ⟨rfl, rfl⟩⟩
  | false =>
    have hquiet : ∀ {q : Event → Bool}, (∀ e ∈ ops, q e = false) →
        q ⟨.live (.isTerminal id i), false⟩ = false →
        ∀ e ∈ (⟨.live (.isTerminal id i), false⟩ :: ops : List Event), q e = false := by
      intro q hops hq e he
      rcases List.mem_cons.1 he with rfl | he
      · exact hq
      · exact hops e he
    refine inwardly_perform rfl (fun _ => ⟨rfl, ⟨ops, rfl⟩, hquiet hdispatch rfl,
      hquiet hend rfl, hquiet hfinish rfl⟩) fun _ => ?_
    refine inwardly_perform rfl (fun _ => rfl) fun request => ?_
    refine ((outward_runDispatch _).processes _).bind fun ops₁ result hops₁ => ?_
    subst hops₁
    have hwork : ∀ e ∈ ([⟨.live (.request id i), request⟩, ⟨.live (.setDispatched id i), ()⟩,
        ⟨.live (.isTerminal id i), false⟩] : List Event), finishes e = false ∧
          ∀ j, j ≠ i → dispatches j e = false ∧ ends j e = false := by
      intro e he
      simp only [List.mem_cons, List.not_mem_nil, or_false] at he
      rcases he with rfl | rfl | rfl
      · exact ⟨rfl, fun _ _ => ⟨rfl, rfl⟩⟩
      · exact ⟨rfl, fun j hj => ⟨decide_eq_false hj, rfl⟩⟩
      · exact ⟨rfl, fun _ _ => ⟨rfl, rfl⟩⟩
    have hends : ∀ e ∈ (⟨.live (.request id i), request⟩ ::
        ⟨.live (.setDispatched id i), ()⟩ :: ⟨.live (.isTerminal id i), false⟩ :: ops :
          List Event), ends i e = false := by
      intro e he
      rcases List.mem_cons.1 he with rfl | he
      · rfl
      rcases List.mem_cons.1 he with rfl | he
      · rfl
      · exact hquiet hend rfl e he
    have hfinishes : ∀ e ∈ (⟨.live (.request id i), request⟩ ::
        ⟨.live (.setDispatched id i), ()⟩ :: ⟨.live (.isTerminal id i), false⟩ :: ops :
          List Event), finishes e = false := by
      intro e he
      rcases List.mem_cons.1 he with rfl | he
      · rfl
      rcases List.mem_cons.1 he with rfl | he
      · rfl
      · exact hquiet hfinish rfl e he
    cases result with
    | error e =>
      refine inwardly_perform rfl (fun _ => ⟨rfl, by simp, hends, hfinishes⟩) fun _ => ?_
      have hmark : ends i ⟨.live (.errored id i e.display), ()⟩ = true := decide_eq_true rfl
      exact ended_processes ops hmark ⟨rfl, fun j hj => ⟨rfl, decide_eq_false hj⟩⟩ hwork
    | ok outcome =>
      refine ((outward_jsonResponse _ _).processes _).bind fun ops₂ response hops₂ => ?_
      subst hops₂
      refine inwardly_perform rfl (fun _ => ⟨rfl, by simp, hends, hfinishes⟩) fun _ => ?_
      have hmark : ends i ⟨.live (.done id i response), ()⟩ = true := decide_eq_true rfl
      exact ended_processes ops hmark ⟨rfl, fun j hj => ⟨rfl, decide_eq_false hj⟩⟩ hwork

theorem processSlots_processes {slots : List Nat} (hnodup : slots.Nodup) {ops : List Event}
    (hdispatch : ∀ i ∈ slots, ∀ e ∈ ops, dispatches i e = false)
    (hend : ∀ i ∈ slots, ∀ e ∈ ops, ends i e = false)
    (hfinish : ∀ e ∈ ops, finishes e = false) :
    Processes config id (fun ops' _ => ops ⊆ ops' ∧ (∀ e ∈ ops', finishes e = false) ∧
      ∀ i ∈ slots, Visited id ops' i) (processSlots config id slots) ops := by
  induction slots generalizing ops with
  | nil =>
    apply inwardly_ret
    exact ⟨List.Subset.refl ops, hfinish, nofun⟩
  | cons i slots ih =>
    obtain ⟨hi, hnodup⟩ := List.nodup_cons.1 hnodup
    refine (processSlot_processes (hdispatch i List.mem_cons_self) (hend i List.mem_cons_self)
      hfinish).bind fun ops₁ _ hworked => ?_
    obtain ⟨hvisited, new, rfl, hnew⟩ := hworked
    have hfinish₁ : ∀ e ∈ new ++ ops, finishes e = false := by
      intro e he
      rcases List.mem_append.1 he with he | he
      · exact (hnew e he).1
      · exact hfinish e he
    have hne : ∀ j ∈ slots, j ≠ i := fun j hj heq => hi (heq ▸ hj)
    refine (ih hnodup ?_ ?_ hfinish₁).mono fun ops' _ h => ?_
    · intro j hj e he
      rcases List.mem_append.1 he with he | he
      · exact ((hnew e he).2 j (hne j hj)).1
      · exact hdispatch j (List.mem_cons_of_mem _ hj) e he
    · intro j hj e he
      rcases List.mem_append.1 he with he | he
      · exact ((hnew e he).2 j (hne j hj)).2
      · exact hend j (List.mem_cons_of_mem _ hj) e he
    · obtain ⟨hsub, hfinished, hvisits⟩ := h
      refine ⟨fun e he => hsub (List.mem_append_right _ he), hfinished, ?_⟩
      intro j hj
      rcases List.mem_cons.1 hj with rfl | hj
      · rcases hvisited with h | ⟨e, he, hends⟩
        · exact Or.inl (hsub h)
        · exact Or.inr ⟨e, hsub he, hends⟩
      · exact hvisits j hj

theorem settleBatch_processes (record : BatchRecord) (ops : List Event) :
    Processes config id (fun _ _ => True) (settleBatch config record)
      (⟨.live (.finish id), record⟩ :: ops) := by
  have hret : ∀ {ops' : List Event}, Processes config id (fun _ _ => True) (pure () : M Unit)
      ops' := inwardly_ret trivial
  unfold settleBatch
  split
  · rename_i hpersist
    rw [settlePersisted_eq]
    generalize hcall : settleCall record.id record.payerApiKeyId record.x402Payer
      record.refundedGrains (.fromRecord record true) = call
    have hsettle : call.isSettle = true := by
      rw [← hcall]
      exact settleCall_isSettle _ _ _ _ _
    refine inwardly_perform (o := .store call) rfl (fun a => ?_) fun _ => hret
    have hduty : config.persist = true ∧ ∃ record' rest,
        (⟨.live (.finish id), record⟩ :: ops : List Event) =
          ⟨.live (.finish id), record'⟩ :: rest ∧
        call = settleCall record'.id record'.payerApiKeyId record'.x402Payer
          record'.refundedGrains (.fromRecord record' true) :=
      ⟨hpersist, record, ops, rfl, hcall.symm⟩
    cases call with
    | markBatchSettled batchId b => exact hduty
    | settleBatchRefund keyId refund batchId b => exact hduty
    | recordRefundOwed batchId payer refund b => exact hduty
    | _ => cases hsettle
  · rename_i hpersist
    split
    · rename_i keyId hpayer
      split
      · rename_i hpos
        refine inwardly_perform rfl (fun _ => ?_) fun _ => hret
        exact ⟨Bool.eq_false_of_not_eq_true hpersist, record, ops, keyId, rfl, hpayer, hpos, rfl⟩
      · exact hret
    · exact hret

theorem processBatch_processes (id : String) :
    Processes config id (fun _ _ => True) (processBatch config id) [] := by
  unfold processBatch
  refine inwardly_perform rfl (fun _ => ⟨rfl, rfl⟩) fun _ => ?_
  refine inwardly_perform rfl (fun _ => rfl) fun count => ?_
  have hplain : ∀ (q : Event → Bool), (∀ a, q ⟨.live (.slotCount id), a⟩ = false) →
      (∀ a, q ⟨.live (.setRunning id), a⟩ = false) →
      ∀ e ∈ ([⟨.live (.slotCount id), count⟩, ⟨.live (.setRunning id), ()⟩] : List Event),
        q e = false := by
    intro q hcount hrunning e he
    rcases List.mem_cons.1 he with rfl | he
    · exact hcount _
    · rw [List.mem_singleton.1 he]
      exact hrunning _
  refine (processSlots_processes List.nodup_range
    (fun i _ => hplain (dispatches i) (fun _ => rfl) fun _ => rfl)
    (fun i _ => hplain (ends i) (fun _ => rfl) fun _ => rfl)
    (hplain finishes (fun _ => rfl) fun _ => rfl)).bind fun ops' _ h => ?_
  obtain ⟨hsub, hfinish, hvisited⟩ := h
  refine inwardly_perform rfl (fun _ => ⟨rfl, hfinish, count, hsub List.mem_cons_self, ?_⟩)
    fun record => settleBatch_processes record ops'
  intro i hi
  exact hvisited i (List.mem_range.2 hi)

end Processing

section Recovery
variable {config : AppConfig}

theorem recoverBatch_inwardly {found : List (String × PersistedBatch)} {id : String}
    {snapshot : PersistedBatch} (hmem : (id, snapshot) ∈ found) {ops : List Event}
    (hloaded : ⟨.store .loadBatches, .ok found⟩ ∈ ops) :
    Inwardly RecoverDuty (fun ops' _ => ops ⊆ ops') (recoverBatch id snapshot) ops := by
  unfold recoverBatch
  refine inwardly_perform rfl (fun _ => ⟨found, hloaded, List.mem_map_of_mem hmem⟩)
    fun answer => ?_
  have hloaded₁ : ⟨.store .loadBatches, .ok found⟩ ∈
      (⟨.store (.batchWasSettled id), answer⟩ :: ops : List Event) :=
    List.mem_cons_of_mem _ hloaded
  simp only
  split
  · rename_i hsettled
    have hanswer : answer = .ok true := by
      cases answer with
      | error e => cases hsettled
      | ok b => exact congrArg Except.ok hsettled
    refine inwardly_perform rfl (fun _ => ?_) fun _ => inwardly_ret fun e he => by simp [he]
    refine ⟨found, snapshot, hloaded₁, hmem, Or.inl ⟨ops, ?_, rfl⟩⟩
    rw [hanswer]
  · rename_i hsettled
    have hopen : answer.toOption.getD false = false := Bool.eq_false_of_not_eq_true hsettled
    rw [settlePersisted_eq]
    generalize hcall : settleCall id snapshot.intoRecord.reconcile.payerApiKeyId
      snapshot.intoRecord.reconcile.x402Payer snapshot.intoRecord.reconcile.refundedGrains
      (.fromRecord snapshot.intoRecord.reconcile true) = call
    have hsettle : call.isSettle = true := by
      rw [← hcall]
      exact settleCall_isSettle _ _ _ _ _
    refine inwardly_perform (o := .store call) rfl (fun a => ?_) fun answer' => ?_
    · have hduty : SettlesSnapshot (⟨.store (.batchWasSettled id), answer⟩ :: ops) call :=
        ⟨found, id, snapshot, answer, ops, hloaded₁, hmem, rfl, hopen, hcall.symm⟩
      cases call with
      | markBatchSettled batchId b => exact hduty
      | settleBatchRefund keyId refund batchId b => exact hduty
      | recordRefundOwed batchId payer refund b => exact hduty
      | _ => cases hsettle
    · subst hcall
      refine inwardly_perform rfl (fun _ => ?_) fun _ => inwardly_ret fun e he => by simp [he]
      exact ⟨found, snapshot, List.mem_cons_of_mem _ hloaded₁, hmem,
        Or.inr ⟨rfl, answer', _, rfl⟩⟩

theorem recoverBatches_inwardly {found : List (String × PersistedBatch)}
    {rest : List (String × PersistedBatch)} (hsub : rest ⊆ found) {ops : List Event}
    (hloaded : ⟨.store .loadBatches, .ok found⟩ ∈ ops) :
    Inwardly RecoverDuty (fun _ _ => True) (recoverBatches rest) ops := by
  induction rest generalizing ops with
  | nil => exact inwardly_ret trivial
  | cons x rest ih =>
    obtain ⟨id, snapshot⟩ := x
    refine (recoverBatch_inwardly (hsub List.mem_cons_self) hloaded).bind fun ops' _ h => ?_
    exact ih (fun y hy => hsub (List.mem_cons_of_mem _ hy)) (h hloaded)

theorem recover_inwardly : Inwardly RecoverDuty (fun _ _ => True) (recover config) [] := by
  unfold recover
  split
  · refine inwardly_perform rfl (fun _ => rfl) fun answer => ?_
    cases answer with
    | error e => exact inwardly_ret trivial
    | ok found => exact recoverBatches_inwardly (List.Subset.refl found) List.mem_cons_self
  · exact inwardly_ret trivial

/-- Every task keeps its duty to the batches. -/
theorem Job.prog_batchDuty (j : Job) :
    (j.prog config).Meets (fun _ => True) (BatchDuty config j) (fun _ _ => True) [] := by
  cases j with
  | request req => exact (handleRequest_submits req).bind fun _ _ _ => trivial
  | processBatch id =>
    exact (processBatch_processes id [] rfl).bind fun _ _ _ => trivial
  | recover => exact (recover_inwardly [] rfl).bind fun _ _ _ => trivial
  | _ => exact Prog.meets_op.2 fun _ _ => ⟨rfl, trivial⟩

def batchContract (config : AppConfig) : System.Contract (node config) where
  rely _ := True
  guar := BatchDuty config
  post _ _ _ := True
  meets := Job.prog_batchDuty

theorem batchContract_served (ok : (node config).State → (node config).Action → Prop) :
    (batchContract config).Served ok := fun _ _ _ _ _ _ _ _ => trivial

end Recovery
end Gateway.App
