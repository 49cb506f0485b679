import CitrateGateway.X402.SettleServe

/-!
# Reported settlements

A settlement is reported with the nonce of the event found in its receipt. The event is
compared with the payment by payer, recipient and amount, and not by nonce, so a report is
about its own payment only as far as the receipts are.
-/

namespace X402
set_option autoImplicit false
open Words Effects

section Reports
variable (crypto : Crypto) (config : X402Config)

/-- A receipt and its event, as the settlement of a payment has accepted them. -/
structure Matched (h : List Event) (price : U256) (payload : PaymentPayload)
    (settled : PaymentSettledEvent) : Prop where
  received : ∃ txHash receipt,
    ⟨.waitForReceipt txHash config.receiptTimeoutSecs, .ok receipt⟩ ∈ h ∧
      receipt.status = true ∧
      findPaymentSettled crypto receipt config.facilitatorAddress = some settled
  payer : settled.«from» = payload.«from»
  recipient : settled.«to» = config.treasury
  covers : price ≤ saturatingAdd settled.value settled.fee

/-- A request reports one settlement, of a payment it was served for. -/
def ReportDuty (req : Request) (h : List Event) (e : Event) : Prop :=
  match e.1 with
  | .onSettled event =>
    h.countP (·.1.isReport) = 0 ∧
      ∃ body price payload settled, Accepted crypto config req h body price payload ∧
        ⟨.innerCall (some (paidMarker payload)), ()⟩ ∈ h ∧
        Matched crypto config h price payload settled ∧ event.nonce = settled.nonce
  | _ => True

variable {crypto config} {req : Request}

theorem reportDuty_of_not_report {h : List Event} {e : Event} (he : e.1.isReport = false) :
    ReportDuty crypto config req h e := by
  obtain ⟨o, a⟩ := e
  cases o <;> trivial

theorem settlePaidPath_matched {h : List Event} {price : U256} {payload : PaymentPayload}
    (hnone : h.countP (·.1.isReport) = 0) :
    (settlePaidPath crypto config payload price).Meets AnyEvent (ReportDuty crypto config req)
      (fun h' settled => h ⊆ h' ∧ h'.countP (·.1.isReport) = 0 ∧
        ∀ event, settled = .ok event →
          ∃ found, Matched crypto config h' price payload found ∧ event.nonce = found.nonce) h := by
  refine Prog.meets_perform_bind.2 fun nonceAnswer _ => ⟨trivial, ?_⟩
  have hnone₁ : (⟨.getNonce config.operatorAddress, nonceAnswer⟩ :: h : List Event).countP
      (·.1.isReport) = 0 := by simpa [Op.isReport] using hnone
  cases nonceAnswer with
  | error e => exact ⟨by simp, hnone₁, fun _ hok => by cases hok⟩
  | ok opNonce =>
    simp only
    split
    · exact ⟨by simp, hnone₁, fun _ hok => by cases hok⟩
    · rename_i raw _
      simp only [sendRawTx, Prog.bind_assoc]
      refine Prog.meets_perform_bind.2 fun _ _ => ⟨trivial, ?_⟩
      refine Prog.meets_perform_bind.2 fun txAnswer _ => ⟨trivial, ?_⟩
      have hnone₂ : (⟨.txAnswer raw, txAnswer⟩ :: ⟨.sendRawTx raw, ()⟩ ::
          ⟨.getNonce config.operatorAddress, .ok opNonce⟩ :: h : List Event).countP
          (·.1.isReport) = 0 := by simpa [Op.isReport] using hnone
      cases txAnswer with
      | error e => exact ⟨fun _ h => by simp [h], hnone₂, fun _ hok => by cases hok⟩
      | ok txHash =>
        refine Prog.meets_perform_bind.2 fun receiptAnswer _ => ⟨trivial, ?_⟩
        have hnone₃ : (⟨.waitForReceipt txHash config.receiptTimeoutSecs, receiptAnswer⟩ ::
            ⟨.txAnswer raw, .ok txHash⟩ :: ⟨.sendRawTx raw, ()⟩ ::
            ⟨.getNonce config.operatorAddress, .ok opNonce⟩ :: h : List Event).countP
            (·.1.isReport) = 0 := by simpa [Op.isReport] using hnone₂
        cases receiptAnswer with
        | error e => exact ⟨fun _ h => by simp [h], hnone₃, fun _ hok => by cases hok⟩
        | ok receipt =>
          simp only
          split
          · exact ⟨fun _ h => by simp [h], hnone₃, fun _ hok => by cases hok⟩
          · rename_i hstatus
            split
            · exact ⟨fun _ h => by simp [h], hnone₃, fun _ hok => by cases hok⟩
            · rename_i settled hfound
              split
              · exact ⟨fun _ h => by simp [h], hnone₃, fun _ hok => by cases hok⟩
              · rename_i hchecks
                refine ⟨fun _ h => by simp [h], hnone₃, ?_⟩
                intro event heq
                cases heq
                simp only [not_or, ne_eq, not_not] at hchecks
                obtain ⟨hpayer, hrecipient, hcovers⟩ := hchecks
                refine ⟨settled, ⟨⟨txHash, receipt, by simp, by simpa using hstatus, hfound⟩,
                  hpayer, hrecipient, BitVec.not_lt.1 hcovers⟩, rfl⟩

theorem serveThenSettle_reports {h : List Event} {price : U256} {body : Bytes}
    {payload : PaymentPayload} (hp : Preliminary h)
    (hacc : Accepted crypto config req h body price payload) :
    (serveThenSettle crypto config payload price).Meets AnyEvent
      (ReportDuty crypto config req) (fun _ _ => True) h := by
  simp only [serveThenSettle, innerCall, Prog.bind_assoc]
  refine Prog.meets_perform_bind.2 fun _ _ => ⟨trivial, ?_⟩
  refine Prog.meets_perform_bind.2 fun answer _ => ⟨trivial, ?_⟩
  cases answer with
  | error e => trivial
  | ok response =>
    simp only
    split
    · have hnone := hp.countP_eq_zero Op.isReport_of_preliminary
      refine Prog.Meets.bind (settlePaidPath_matched ?_) ?_
      · simpa [Op.isReport] using hnone
      · intro h' settled hsettled
        obtain ⟨hsub, hnone', hmatched⟩ := hsettled
        cases settled with
        | error err =>
          intro _ _
          exact ⟨trivial, trivial⟩
        | ok event =>
          intro _ _
          obtain ⟨found, hfound, hnonce⟩ := hmatched event rfl
          refine ⟨⟨hnone', body, price, payload, found, ?_, ?_, hfound, hnonce⟩, trivial⟩
          · exact hacc.mono fun e he => hsub (by simp [he])
          · exact hsub (by simp)
    · trivial

theorem call_reports (req : Request) :
    (call crypto config req).Meets AnyEvent (ReportDuty crypto config req)
      (fun _ _ => True) [] := by
  refine call_meets (fun _ _ _ _ he => reportDuty_of_not_report he)
    (fun _ _ _ _ _ _ _ _ => trivial) (fun _ _ _ => trivial) (fun _ => ?_)
    fun _ _ _ _ => serveThenSettle_reports
  refine Prog.meets_perform_bind.2 fun _ _ => ⟨trivial, ?_⟩
  exact Prog.meets_perform.2 fun _ _ => ⟨trivial, trivial⟩

def reportContract : System.Contract (layer crypto config) where
  rely := AnyEvent
  guar := ReportDuty crypto config
  post := fun _ _ _ => True
  meets := call_reports

end Reports

section Own
variable {crypto : Crypto} {config : X402Config} {s : (layer crypto config).State}

/-- The payment that the header of request `t` carries. -/
def payloadOf (s : (layer crypto config).State) (t : Nat) : Option PaymentPayload := do
  let req ← s.job t
  let value ← req.paymentHeader
  (decode crypto value).toOption

/-- Every receipt that a settlement accepts names the nonce of its own payment. -/
def OwnReceipts (s : (layer crypto config).State) : Prop :=
  ∀ t payload line body price settled, payloadOf s t = some payload →
    (t, ⟨.priceFor line body, .ok price⟩) ∈ s.log →
    Matched crypto config (System.trace s.log t) price payload settled →
      settled.nonce = payload.nonce

def reports (n : H256) : Event → Bool
  | ⟨.onSettled event, _⟩ => event.nonce = n
  | _ => false

theorem payloadOf_accepted {t : Nat} {req : Request} {h : List Event} {body : Bytes}
    {price : U256} {payload : PaymentPayload} (hjob : s.job t = some req)
    (hacc : Accepted crypto config req h body price payload) :
    payloadOf s t = some payload := by
  obtain ⟨value, hvalue, hdecode⟩ := hacc.header
  simp [payloadOf, hjob, hvalue, hdecode, Except.toOption]

theorem Matched.mono {h h' : List Event} {price : U256} {payload : PaymentPayload}
    {settled : PaymentSettledEvent} (hm : Matched crypto config h price payload settled)
    (hsub : h ⊆ h') : Matched crypto config h' price payload settled := by
  obtain ⟨txHash, receipt, hmem, hfound⟩ := hm.received
  exact { hm with received := ⟨txHash, receipt, hsub hmem, hfound⟩ }

/-- A report is about a payment its request was served for. -/
theorem report_served (hrun : Run crypto config s) (hown : OwnReceipts s) {t : Nat}
    {late early : List Event} {event : SettledEvent}
    (hl : System.trace s.log t = late ++ ⟨.onSettled event, ()⟩ :: early) :
    early.countP (·.1.isReport) = 0 ∧ ∃ payload, payloadOf s t = some payload ∧
      event.nonce = payload.nonce ∧ ⟨.innerCall (some (paidMarker payload)), ()⟩ ∈ early := by
  obtain ⟨late', early', hlog, rfl⟩ := System.trace_split hl
  obtain ⟨req, hjob, _, hduty⟩ :=
    System.Reach.guar reportContract (fun _ _ _ _ _ _ _ _ => trivial) hrun hlog
  obtain ⟨hnone, body, price, payload, settled, hacc, hcall, hmatched, hnonce⟩ := hduty
  have hpayload := payloadOf_accepted hjob hacc
  have hsub : System.trace early' t ⊆ System.trace s.log t := by
    rw [hl]
    intro e he
    simp [he]
  have hprice := System.mem_trace.1 (hsub hacc.priced)
  refine ⟨hnone, payload, hpayload, ?_, hcall⟩
  rw [hnonce]
  exact hown t payload _ body price settled hpayload hprice (hmatched.mono hsub)

theorem reports_le_paidCalls (hrun : Run crypto config s) (hown : OwnReceipts s) (n : H256) :
    s.log.countP (reports n ·.2) ≤ s.log.countP (paidCalls n ·.2) := by
  apply System.countP_le_of_traces (p := fun _ => reports n) (q := fun _ => paidCalls n)
  intro t
  have hone : (System.trace s.log t).countP (·.1.isReport) ≤ 1 := by
    apply System.countP_le_one
    intro late e early hl hreport
    match e, hreport with
    | ⟨.onSettled event, _⟩, _ => exact (report_served hrun hown hl).1
  have hle : (System.trace s.log t).countP (reports n) ≤
      (System.trace s.log t).countP (·.1.isReport) := by
    apply List.countP_mono_left
    rintro ⟨o, a⟩ _ ho
    cases o with
    | onSettled event => rfl
    | _ => simp [reports] at ho
  rcases Nat.eq_zero_or_pos ((System.trace s.log t).countP (reports n)) with hzero | hpos
  · rw [hzero]
    exact Nat.zero_le _
  · obtain ⟨e, he, hreport⟩ := List.countP_pos_iff.1 hpos
    obtain ⟨late, early, hl⟩ := List.append_of_mem he
    match e, hreport with
    | ⟨.onSettled event, _⟩, hreport =>
      obtain ⟨_, payload, _, hnonce, hcall⟩ := report_served hrun hown hl
      have hn : event.nonce = n := of_decide_eq_true hreport
      have hreached : ⟨.innerCall (some (paidMarker payload)), ()⟩ ∈ System.trace s.log t := by
        rw [hl]
        simp [hcall]
      refine (hle.trans hone).trans (countP_pos_of_mem (p := paidCalls n) hreached ?_)
      simp [paidCalls, paidMarker, ← hnonce, hn]

/-- While the receipts are about their own payments, so are the reports, and no two of them
share a nonce. -/
theorem settled_event_own (hrun : Run crypto config s) (hown : OwnReceipts s) :
    (∀ t event, (t, ⟨.onSettled event, ()⟩) ∈ s.log →
      ∃ payload, payloadOf s t = some payload ∧ event.nonce = payload.nonce) ∧
    ((∀ n, s.log.countP (mints n ·.2) ≤ 1) → ∀ n, s.log.countP (reports n ·.2) ≤ 1) := by
  constructor
  · intro t event hmem
    obtain ⟨late, early, hl⟩ := List.append_of_mem (System.mem_trace.2 hmem)
    obtain ⟨_, payload, hpayload, hnonce, _⟩ := report_served hrun hown hl
    exact ⟨payload, hpayload, hnonce⟩
  · intro hmint n
    exact ((reports_le_paidCalls hrun hown n).trans (paidCalls_le_mints hrun n)).trans (hmint n)

end Own

section Sample

/-- A receipt for a payment of the sample payer with a nonce. -/
def settledReceipt (nonce : H256) : TxReceipt where
  status := true
  blockNumber := 42
  logs := [{
    address := sampleConfig.facilitatorAddress
    topics := [paymentSettledTopic sampleCrypto,
      ofWordBytes 256 (padLeftAddress samplePayment.«from»),
      ofWordBytes 256 (padLeftAddress sampleConfig.treasury)]
    data := wordBytes 32 (4 : U256) ++ wordBytes 32 (1 : U256) ++ wordBytes 32 nonce }]

def settledEvent (nonce : H256) : SettledEvent where
  payer := samplePayment.«from»
  amountWei := 4
  feeWei := 1
  nonce := nonce
  txHash := 99
  blockNumber := 42

/-- The sample payment is settled and its receipt names a nonce. -/
def settledTrace (nonce : H256) : List (Nat × Event) :=
  sampleTrace ++
    [(1, ⟨.txAnswer (sampleRaw samplePayment 0), .ok 99⟩),
      (1, ⟨.waitForReceipt 99 10, .ok (settledReceipt nonce)⟩),
      (1, ⟨.onSettled (settledEvent nonce), ()⟩)]

def settledRun (nonce : H256) : Option (layer sampleCrypto sampleConfig).State :=
  (layer sampleCrypto sampleConfig).run (fun _ _ => true)
    ((layer sampleCrypto sampleConfig).init .empty)
    (System.script sampleJobs (settledTrace nonce))

theorem settledRun_own :
    (settledRun samplePayment.nonce).map (fun s => (s.tasks.map (·.job), s.log)) =
      some (sampleJobs, (settledTrace samplePayment.nonce).reverse) := by
  decide +kernel

theorem settledRun_other :
    (settledRun secondPayment.nonce).map (fun s => (s.tasks.map (·.job), s.log)) =
      some (sampleJobs, (settledTrace secondPayment.nonce).reverse) := by
  decide +kernel

/-- A receipt with another payment of the same payer is reported as this one's. -/
theorem reports_other_payment :
    ∃ (s : (layer sampleCrypto sampleConfig).State) (payload : PaymentPayload)
      (event : SettledEvent), Run sampleCrypto sampleConfig s ∧
      payloadOf s 1 = some payload ∧ (1, ⟨.onSettled event, ()⟩) ∈ s.log ∧
      event.nonce ≠ payload.nonce := by
  obtain ⟨s, hs, heq⟩ := Option.map_eq_some_iff.1 settledRun_other
  obtain ⟨hjobs, hlog⟩ := Prod.mk.inj heq
  have hjob : s.job 1 = some (requestWith (some sampleHeader)) := by
    rw [System.job_eq_getElem, hjobs]
    rfl
  refine ⟨s, samplePayment, settledEvent secondPayment.nonce,
    .of_run (fun _ _ _ => trivial) hs, ?_, ?_, by decide⟩
  · rw [payloadOf, hjob]
    decide +kernel
  · rw [hlog]
    simp [settledTrace]

theorem settled_event_own_sample :
    ∃ s : (layer sampleCrypto sampleConfig).State, Run sampleCrypto sampleConfig s ∧
      s.log = (settledTrace samplePayment.nonce).reverse ∧
      (∀ t event, (t, ⟨.onSettled event, ()⟩) ∈ s.log →
        ∃ payload, payloadOf s t = some payload ∧ event.nonce = payload.nonce) ∧
      ∀ n, s.log.countP (reports n ·.2) ≤ 1 := by
  obtain ⟨s, hs, heq⟩ := Option.map_eq_some_iff.1 settledRun_own
  obtain ⟨hjobs, hlog⟩ := Prod.mk.inj heq
  have hrun : Run sampleCrypto sampleConfig s := .of_run (fun _ _ _ => trivial) hs
  have hown : OwnReceipts s := by
    intro t payload line body price settled hpayload _ hmatched
    obtain ⟨txHash, receipt, hmem, _, hfound⟩ := hmatched.received
    have hmem := System.mem_trace.1 hmem
    rw [hlog] at hmem
    simp [settledTrace, sampleTrace, challengeEvents, serveEvents] at hmem
    obtain ⟨rfl, _, rfl⟩ := hmem
    have hjob : s.job 1 = some (requestWith (some sampleHeader)) := by
      rw [System.job_eq_getElem, hjobs]
      rfl
    have hown : payloadOf s 1 = some samplePayment := by
      rw [payloadOf, hjob]
      decide +kernel
    cases hown.symm.trans hpayload
    have hnonce : (findPaymentSettled sampleCrypto (settledReceipt samplePayment.nonce)
        sampleConfig.facilitatorAddress).map PaymentSettledEvent.nonce =
          some samplePayment.nonce := by
      decide +kernel
    rw [hfound] at hnonce
    exact Option.some.inj hnonce
  obtain ⟨hnonces, honce⟩ := settled_event_own hrun hown
  refine ⟨s, hrun, hlog, hnonces, honce ?_⟩
  intro n
  rw [hlog]
  simp only [settledTrace, sampleTrace, challengeEvents, serveEvents, List.countP_reverse]
  simp [mints, List.countP_cons]
  split <;> omega

end Sample
end X402
