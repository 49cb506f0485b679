import CitrateGateway.X402.SettledEvents

/-!
# Recognising a settlement

The last phase of `settle_paid_path` looks at the receipt alone. It scans the logs for the first
one that is a `PaymentSettled` log of the facilitator and compares that one with the payload.
-/

namespace X402
set_option autoImplicit false
open Words Effects

section Phase
variable (crypto : Crypto) (config : X402Config)

/-- The nonce, the signature, the submission and the wait for the receipt. -/
def submitAndWait (payload : PaymentPayload) : M (Except X402Error (H256 × TxReceipt)) := do
  match ← getNonce config.operatorAddress with
  | .error e => return .error e
  | .ok opNonce =>
    match signSettlementTx crypto (settlementTx crypto config payload opNonce)
        config.operatorSecret with
    | .error e => return .error e
    | .ok raw =>
      match ← sendRawTx raw with
      | .error e => return .error e
      | .ok txHash =>
        match ← waitForReceipt txHash config.receiptTimeoutSecs with
        | .error e => return .error e
        | .ok receipt => return .ok (txHash, receipt)

/-- What the receipt of the settlement says about it. -/
def receiptPhase (payload : PaymentPayload) (price : U256) (txHash : H256) (receipt : TxReceipt) :
    Except X402Error SettledEvent :=
  if !receipt.status then .error (.settleReverted (hexEncode (wordBytes 32 txHash)))
  else
    match findPaymentSettled crypto receipt config.facilitatorAddress with
    | none => .error (.facilitatorReverted "no PaymentSettled event in receipt")
    | some settled =>
      let gross := saturatingAdd settled.value settled.fee
      if settled.«from» ≠ payload.«from» ∨ settled.«to» ≠ config.treasury ∨ gross < price then
        .error (eventMismatch config settled gross payload price)
      else
        .ok {
          payer := settled.«from»
          amountWei := settled.value
          feeWei := settled.fee
          nonce := settled.nonce
          txHash := txHash
          blockNumber := receipt.blockNumber }

theorem settlePaidPath_eq (payload : PaymentPayload) (price : U256) :
    settlePaidPath crypto config payload price = (do
      match ← submitAndWait crypto config payload with
      | .error e => return .error e
      | .ok (txHash, receipt) => return receiptPhase crypto config payload price txHash receipt) := by
  rw [settlePaidPath, submitAndWait, Prog.bind_assoc]
  congr 1
  funext nonceAnswer
  cases nonceAnswer with
  | error e => rfl
  | ok opNonce =>
    cases hsign : signSettlementTx crypto (settlementTx crypto config payload opNonce)
      config.operatorSecret with
    | error e =>
      simp only [hsign]
      rfl
    | ok raw =>
      simp only [hsign]
      rw [Prog.bind_assoc]
      congr 1
      funext sendAnswer
      cases sendAnswer with
      | error e => rfl
      | ok txHash =>
        simp only
        rw [Prog.bind_assoc]
        congr 1
        funext receiptAnswer
        cases receiptAnswer with
        | error e => rfl
        | ok receipt =>
          simp only [receiptPhase, Prog.pure_def, Prog.ret_bind]
          split
          · rfl
          · cases findPaymentSettled crypto receipt config.facilitatorAddress with
            | none => rfl
            | some settled =>
              simp only
              split
              · rfl
              · rfl

/-- A well-formed `PaymentSettled` log of the facilitator. -/
structure IsPaymentSettled (log : RawLog) : Prop where
  address : log.address = config.facilitatorAddress
  topic : log.topics[0]? = some (paymentSettledTopic crypto)
  topics : 3 ≤ log.topics.length
  data : 96 ≤ log.data.length

/-- The fields of such a log. -/
def eventOf (log : RawLog) : PaymentSettledEvent where
  «from» := topicAddress (log.topics.getD 1 0)
  «to» := topicAddress (log.topics.getD 2 0)
  value := ofWordBytes 256 (takeField log.data 0 32)
  fee := ofWordBytes 256 (takeField log.data 32 32)
  nonce := ofWordBytes 256 (takeField log.data 64 32)

/-- The log tells of a payment by the payer to the treasury that covers the price. -/
structure PaysFor (payload : PaymentPayload) (price : U256) (log : RawLog) : Prop where
  payer : (eventOf log).«from» = payload.«from»
  treasury : (eventOf log).«to» = config.treasury
  gross : price.toNat ≤ (eventOf log).value.toNat + (eventOf log).fee.toNat

/-- The report of the settlement that a log tells of. -/
def settledEventOf (txHash : H256) (receipt : TxReceipt) (log : RawLog) : SettledEvent where
  payer := (eventOf log).«from»
  amountWei := (eventOf log).value
  feeWei := (eventOf log).fee
  nonce := (eventOf log).nonce
  txHash := txHash
  blockNumber := receipt.blockNumber

instance (log : RawLog) : Decidable (IsPaymentSettled crypto config log) :=
  decidable_of_iff (log.address = config.facilitatorAddress ∧
      log.topics[0]? = some (paymentSettledTopic crypto) ∧ 3 ≤ log.topics.length ∧
      96 ≤ log.data.length)
    ⟨fun ⟨ha, ht, hn, hd⟩ => ⟨ha, ht, hn, hd⟩, fun h => ⟨h.address, h.topic, h.topics, h.data⟩⟩

theorem findSome?_eq_map_find? {α β : Type} {f : α → Option β} {p : α → Bool} {g : α → β}
    (h : ∀ a, f a = if p a then some (g a) else none) (l : List α) :
    l.findSome? f = (l.find? p).map g := by
  induction l with
  | nil => rfl
  | cons a l ih =>
    rw [List.findSome?_cons, List.find?_cons, h, ih]
    cases p a with
    | true => rfl
    | false => rfl

/-- The scan reports the first well-formed log. -/
theorem findPaymentSettled_eq (receipt : TxReceipt) :
    findPaymentSettled crypto receipt config.facilitatorAddress =
      (receipt.logs.find? (IsPaymentSettled crypto config ·)).map eventOf := by
  apply findSome?_eq_map_find?
  intro log
  split
  · rename_i topic0 topic1 topic2 rest htopics
    have hiff : IsPaymentSettled crypto config log ↔ log.address = config.facilitatorAddress ∧
        topic0 = paymentSettledTopic crypto ∧ 96 ≤ log.data.length := by
      constructor
      · intro h
        have htopic := h.topic
        rw [htopics] at htopic
        exact ⟨h.address, Option.some.inj htopic, h.data⟩
      · intro h
        refine ⟨h.1, ?_, ?_, h.2.2⟩
        · rw [htopics, h.2.1]
          rfl
        · rw [htopics]
          simp
    simp only [hiff, decide_eq_true_eq, eventOf, htopics]
    rfl
  · rename_i hshort
    rw [if_neg]
    intro h
    have htopics := (of_decide_eq_true h).topics
    match hlog : log.topics with
    | [] => simp [hlog] at htopics
    | [_] => simp [hlog] at htopics
    | [_, _] => simp [hlog] at htopics
    | topic0 :: topic1 :: topic2 :: rest => exact hshort topic0 topic1 topic2 rest hlog

theorem le_saturatingAdd {w : Nat} (price a b : BitVec w) :
    price.toNat ≤ (saturatingAdd a b).toNat ↔ price.toNat ≤ a.toNat + b.toNat := by
  have hprice := price.isLt
  by_cases hlt : a.toNat + b.toNat < 2 ^ w
  · rw [saturatingAdd_toNat_of_lt hlt]
  · rw [saturatingAdd, if_neg hlt, BitVec.toNat_allOnes]
    omega

theorem receiptPhase_ok_iff (payload : PaymentPayload) (price : U256) (txHash : H256)
    (receipt : TxReceipt) (event : SettledEvent) :
    receiptPhase crypto config payload price txHash receipt = .ok event ↔
      receipt.status = true ∧ ∃ log,
        receipt.logs.find? (IsPaymentSettled crypto config ·) = some log ∧
        PaysFor config payload price log ∧ event = settledEventOf txHash receipt log := by
  rw [receiptPhase, findPaymentSettled_eq]
  cases receipt.status with
  | false => simp
  | true =>
    cases hfind : receipt.logs.find? (IsPaymentSettled crypto config ·) with
    | none => simp
    | some log =>
      have hgross := le_saturatingAdd price (eventOf log).value (eventOf log).fee
      simp only [Bool.not_true, Bool.false_eq_true, if_false, Option.map_some, true_and,
        Option.some.injEq, exists_eq_left']
      split
      · rename_i hmismatch
        constructor
        · intro h
          cases h
        · rintro ⟨hpays, -⟩
          rcases hmismatch with hpayer | htreasury | hless
          · exact absurd hpays.payer hpayer
          · exact absurd hpays.treasury htreasury
          · exact absurd (hgross.2 hpays.gross) (Nat.not_le.2 hless)
      · rename_i hmatch
        push Not at hmatch
        have hpays : PaysFor config payload price log :=
          ⟨hmatch.1, hmatch.2.1, hgross.1 (Nat.not_lt.1 hmatch.2.2)⟩
        constructor
        · intro h
          cases h
          exact ⟨hpays, rfl⟩
        · rintro ⟨-, rfl⟩
          rfl

/-- A settlement is recognised exactly when the first `PaymentSettled` log of the facilitator
pays for the request; no other log hides that one, and the report is about it. -/
theorem settlement_recognised (payload : PaymentPayload) (price : U256) (txHash : H256)
    (receipt : TxReceipt) (event : SettledEvent) :
    receiptPhase crypto config payload price txHash receipt = .ok event ↔
      receipt.status = true ∧ ∃ before log after, receipt.logs = before ++ log :: after ∧
        (∀ other ∈ before, ¬ IsPaymentSettled crypto config other) ∧
        IsPaymentSettled crypto config log ∧ PaysFor config payload price log ∧
        event = settledEventOf txHash receipt log := by
  rw [receiptPhase_ok_iff]
  constructor
  · rintro ⟨hstatus, log, hfind, hpays, hevent⟩
    obtain ⟨hlog, before, after, hlogs, hbefore⟩ := List.find?_eq_some_iff_append.1 hfind
    exact ⟨hstatus, before, log, after, hlogs, fun other hother => by simpa using hbefore other hother,
      of_decide_eq_true hlog, hpays, hevent⟩
  · rintro ⟨hstatus, before, log, after, hlogs, hbefore, hlog, hpays, hevent⟩
    refine ⟨hstatus, log, List.find?_eq_some_iff_append.2 ⟨decide_eq_true hlog, before, after, hlogs,
      fun other hother => by simpa using hbefore other hother⟩, hpays, hevent⟩

end Phase

section Sample

/-- A log of a payment to the treasury that covers the price, of any payer. -/
def settledLog (payer : H160) : RawLog where
  address := sampleConfig.facilitatorAddress
  topics := [paymentSettledTopic sampleCrypto, ofWordBytes 256 (padLeftAddress payer),
    ofWordBytes 256 (padLeftAddress sampleConfig.treasury)]
  data := wordBytes 32 (4 : U256) ++ wordBytes 32 (1 : U256) ++ wordBytes 32 samplePayment.nonce

/-- Two payments were settled in one transaction, the one of another payer first. -/
def twoSettledReceipt : TxReceipt :=
  ⟨true, 42, [settledLog sampleConfig.operatorAddress, settledLog samplePayment.«from»]⟩

instance (payload : PaymentPayload) (price : U256) (log : RawLog) :
    Decidable (PaysFor sampleConfig payload price log) :=
  decidable_of_iff ((eventOf log).«from» = payload.«from» ∧
      (eventOf log).«to» = sampleConfig.treasury ∧
      price.toNat ≤ (eventOf log).value.toNat + (eventOf log).fee.toNat)
    ⟨fun ⟨hf, ht, hg⟩ => ⟨hf, ht, hg⟩, fun h => ⟨h.payer, h.treasury, h.gross⟩⟩

theorem divergent_log_hides_match :
    (∃ log ∈ twoSettledReceipt.logs, IsPaymentSettled sampleCrypto sampleConfig log ∧
      PaysFor sampleConfig samplePayment 5 log) ∧ twoSettledReceipt.status = true ∧
    ∀ event, receiptPhase sampleCrypto sampleConfig samplePayment 5 99 twoSettledReceipt ≠
      .ok event := by
  refine ⟨⟨settledLog samplePayment.«from», by simp [twoSettledReceipt], ?_, ?_⟩, rfl, ?_⟩
  · decide +kernel
  · decide +kernel
  · intro event
    have hfailed : (receiptPhase sampleCrypto sampleConfig samplePayment 5 99
        twoSettledReceipt).toOption = none := by
      decide +kernel
    intro hok
    rw [hok] at hfailed
    cases hfailed

end Sample
end X402
