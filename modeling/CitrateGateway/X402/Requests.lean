import CitrateGateway.X402.Layer

/-!
# What one request can do

The path of a request up to the point where it is served, stated once: which operations it
has performed by then, and what an accepted payment has passed. `call_meets` reduces a
contract of the whole request to the contract of its serving part.
-/

namespace X402
set_option autoImplicit false
open Words Effects

/-- An operation of the layer with its answer. -/
abbrev Event := LayerSig.Event

section Past
variable (crypto : Crypto) (config : X402Config)

/-- The payment of `req` passed every check, as recorded in the past `h` of the request. -/
structure Accepted (req : Request) (h : List Event) (body : Bytes) (price : U256)
    (payload : PaymentPayload) : Prop where
  header : ∃ value, req.paymentHeader = some value ∧ decode crypto value = .ok payload
  buffered : ⟨.bufferRequestBody, .ok body⟩ ∈ h
  priced : ⟨.priceFor req.line body, .ok price⟩ ∈ h
  covers : price ≤ payload.value
  window : ∃ now : UInt64, ⟨.nowUnixSecs, now⟩ ∈ h ∧
    payload.validAfter.toNat ≤ now.toNat ∧ now.toNat < payload.validBefore.toNat
  consumed : ∃ now : UInt64,
    ⟨.consumeBound payload.nonce (requestCommitment crypto req.line body) now, .ok ()⟩ ∈ h
  signed : ⟨.verifyOffline (precompileInput crypto config payload),
    .ok (some payload.«from»)⟩ ∈ h
  recipient : payload.«to» = config.treasury

/-- The operations before a request is served. -/
def Op.isPreliminary : Op → Bool
  | .bufferRequestBody | .priceFor _ _ | .nowUnixSecs | .consumeBound _ _ _
  | .verifyOffline _ => true
  | _ => false

def Op.isPaidCall : Op → Bool
  | .innerCall (some _) => true
  | _ => false

def Op.isRecord : Op → Bool
  | .recordBound _ _ _ _ => true
  | _ => false

/-- The operations that serve a payment, settle it or issue a nonce. -/
def Op.isCommitting : Op → Bool
  | .innerCall (some _) | .getNonce _ | .sendRawTx _ | .txAnswer _ | .recordBound _ _ _ _ => true
  | _ => false

/-- The operations that reach the inner service. -/
def Op.isInner : Op → Bool
  | .innerCall _ | .innerResponse => true
  | _ => false

def Op.isReport : Op → Bool
  | .onSettled _ => true
  | _ => false

def Preliminary (h : List Event) : Prop := ∀ e ∈ h, e.1.isPreliminary = true

variable {crypto config}

theorem Accepted.mono {req : Request} {h h' : List Event} {body : Bytes} {price : U256}
    {payload : PaymentPayload} (ha : Accepted crypto config req h body price payload)
    (hsub : h ⊆ h') : Accepted crypto config req h' body price payload where
  header := ha.header
  buffered := hsub ha.buffered
  priced := hsub ha.priced
  covers := ha.covers
  window := by
    obtain ⟨now, hmem, hw⟩ := ha.window
    exact ⟨now, hsub hmem, hw⟩
  consumed := by
    obtain ⟨now, hmem⟩ := ha.consumed
    exact ⟨now, hsub hmem⟩
  signed := hsub ha.signed
  recipient := ha.recipient

theorem Preliminary.nil : Preliminary [] := fun e he => by cases he

theorem Preliminary.cons {h : List Event} {e : Event} (hp : Preliminary h)
    (he : e.1.isPreliminary = true) : Preliminary (e :: h) := by
  intro e' he'
  rcases List.mem_cons.1 he' with rfl | hmem
  · exact he
  · exact hp e' hmem

theorem Preliminary.countP_eq_zero {h : List Event} (hp : Preliminary h) {p : Op → Bool}
    (hdisjoint : ∀ o : Op, o.isPreliminary = true → p o = false) : h.countP (p ·.1) = 0 := by
  rw [List.countP_eq_zero]
  intro e he
  simp [hdisjoint e.1 (hp e he)]

theorem Op.isPaidCall_of_preliminary (o : Op) (h : o.isPreliminary = true) :
    o.isPaidCall = false := by
  cases o <;> first | rfl | simp [isPreliminary] at h

theorem Op.isInner_of_preliminary (o : Op) (h : o.isPreliminary = true) : o.isInner = false := by
  cases o <;> first | rfl | simp [isPreliminary] at h

theorem Op.isReport_of_preliminary (o : Op) (h : o.isPreliminary = true) :
    o.isReport = false := by
  cases o <;> first | rfl | simp [isPreliminary] at h

theorem Op.isRecord_of_preliminary (o : Op) (h : o.isPreliminary = true) :
    o.isRecord = false := by
  cases o <;> first | rfl | simp [isPreliminary] at h

theorem Op.isCommitting_of_preliminary (o : Op) (h : o.isPreliminary = true) :
    o.isCommitting = false := by
  cases o <;> first | rfl | simp [isPreliminary] at h

end Past

section Paths
variable {crypto : Crypto} {config : X402Config} {req : Request} {h : List Event}
variable {rely : Event → Prop} {guar : List Event → Event → Prop}

theorem validatePaidPath_meets {value : Bytes} {price : U256} {body : Bytes}
    (hfree : ∀ h e, e.1.isPreliminary = true → guar h e)
    (hp : Preliminary h) (hvalue : req.paymentHeader = some value)
    (hbody : ⟨.bufferRequestBody, .ok body⟩ ∈ h)
    (hprice : ⟨.priceFor req.line body, .ok price⟩ ∈ h) :
    (validatePaidPath crypto config value price
        (requestCommitment crypto req.line body)).Meets rely guar
      (fun h' outcome => Preliminary h' ∧ h ⊆ h' ∧ ∀ payload, outcome = .validated payload →
        Accepted crypto config req h' body price payload) h := by
  unfold validatePaidPath
  cases hdecode : decode crypto value with
  | error e => exact ⟨hp, fun _ => id, fun payload h => by cases h⟩
  | ok payload =>
    refine Prog.meets_perform_bind.2 fun now _ => ⟨hfree _ _ rfl, ?_⟩
    have hp₁ := hp.cons (e := ⟨.nowUnixSecs, now⟩) rfl
    split
    · exact ⟨hp₁, fun e he => by simp [he], fun payload h => by cases h⟩
    · rename_i hwindow
      refine Prog.meets_perform_bind.2 fun consumedAt _ => ⟨hfree _ _ rfl, ?_⟩
      have hp₂ := hp₁.cons (e := ⟨.nowUnixSecs, consumedAt⟩) rfl
      refine Prog.meets_perform_bind.2 fun consumed _ => ⟨hfree _ _ rfl, ?_⟩
      have hp₃ := hp₂.cons (e := ⟨.consumeBound payload.nonce
        (requestCommitment crypto req.line body) consumedAt, consumed⟩) rfl
      cases consumed with
      | error e => exact ⟨hp₃, fun e he => by simp [he], fun payload h => by cases h⟩
      | ok u =>
        simp only
        split
        · exact ⟨hp₃, fun e he => by simp [he], fun payload h => by cases h⟩
        · rename_i hcovers
          refine Prog.meets_perform_bind.2 fun recovered _ => ⟨hfree _ _ rfl, ?_⟩
          have hp₄ := hp₃.cons (e := ⟨.verifyOffline (precompileInput crypto config payload),
            recovered⟩) rfl
          cases recovered with
          | error e => exact ⟨hp₄, fun e he => by simp [he], fun payload h => by cases h⟩
          | ok signer? =>
            cases signer? with
            | none => exact ⟨hp₄, fun e he => by simp [he], fun payload h => by cases h⟩
            | some signer =>
              simp only
              split
              · exact ⟨hp₄, fun e he => by simp [he], fun payload h => by cases h⟩
              · rename_i hsigner
                split
                · exact ⟨hp₄, fun e he => by simp [he], fun payload h => by cases h⟩
                · rename_i hto
                  refine ⟨hp₄, fun e he => by simp [he], fun payload' heq => ?_⟩
                  cases heq
                  simp only [ne_eq, Decidable.not_not] at hsigner hto
                  subst hsigner
                  exact {
                    header := ⟨value, hvalue, hdecode⟩
                    buffered := by simp [hbody]
                    priced := by simp [hprice]
                    covers := BitVec.not_lt.1 hcovers
                    window := ⟨now, by simp, by omega, by omega⟩
                    consumed := ⟨consumedAt, by simp⟩
                    signed := by simp
                    recipient := hto }

section Whole
variable {post : List Event → Except String Response → Prop}
variable (hfree : ∀ h e, e.1.isCommitting = false → e.1.isInner = false →
  e.1.isReport = false → guar h e)
variable (hissue : ∀ h nonce body expiresAt now, h.countP (·.1.isRecord) = 0 →
  ⟨.nextNonce, .ok nonce⟩ ∈ h → ⟨.bufferRequestBody, .ok body⟩ ∈ h →
    guar h ⟨.recordBound nonce (requestCommitment crypto req.line body) expiresAt now, ()⟩)
variable (hunpaid : ∀ h r, h.countP (·.1.isPaidCall) = 0 → post h r)
include hfree hissue

theorem makeChallenge_meets {price : U256} {body : Bytes}
    (hcalls : h.countP (·.1.isPaidCall) = 0) (hrecords : h.countP (·.1.isRecord) = 0)
    (hbody : ⟨.bufferRequestBody, .ok body⟩ ∈ h) :
    (makeChallenge crypto config price (requestCommitment crypto req.line body)).Meets rely guar
      (fun h' _ => h'.countP (·.1.isPaidCall) = 0) h := by
  refine Prog.meets_perform_bind.2 fun minted _ => ⟨hfree _ _ rfl rfl rfl, ?_⟩
  have hcalls₁ : (⟨.nextNonce, minted⟩ :: h : List Event).countP (·.1.isPaidCall) = 0 := by
    simpa [Op.isPaidCall] using hcalls
  cases minted with
  | error e => exact hcalls₁
  | ok nonce =>
    refine Prog.meets_perform_bind.2 fun nowUnix _ => ⟨hfree _ _ rfl rfl rfl, ?_⟩
    split
    · simpa [Op.isPaidCall] using hcalls₁
    · refine Prog.meets_perform_bind.2 fun _ _ => ⟨hissue _ _ _ _ _ ?_ ?_ ?_, ?_⟩
      · simpa [Op.isRecord] using hrecords
      · simp
      · simp [hbody]
      · simpa [Op.isPaidCall] using hcalls₁

include hunpaid

theorem challengeUnpaid_meets {price : U256} {body : Bytes}
    (hcalls : h.countP (·.1.isPaidCall) = 0) (hrecords : h.countP (·.1.isRecord) = 0)
    (hbody : ⟨.bufferRequestBody, .ok body⟩ ∈ h) :
    (challengeUnpaid crypto config price (requestCommitment crypto req.line body)).Meets rely
      guar post h := by
  refine Prog.Meets.bind (makeChallenge_meets hfree hissue hcalls hrecords hbody) ?_
  intro h' challenge hnone
  cases challenge <;> exact hunpaid _ _ hnone

theorem rejectPayment_meets {err : X402Error} {price : U256} {body : Bytes}
    (hcalls : h.countP (·.1.isPaidCall) = 0) (hrecords : h.countP (·.1.isRecord) = 0)
    (hbody : ⟨.bufferRequestBody, .ok body⟩ ∈ h) :
    (rejectPayment crypto config err price (requestCommitment crypto req.line body)).Meets rely
      guar post h := by
  refine Prog.meets_perform_bind.2 fun _ _ => ⟨hfree _ _ rfl rfl rfl, ?_⟩
  refine Prog.Meets.bind (makeChallenge_meets hfree hissue ?_ ?_ ?_) ?_
  · simpa [Op.isPaidCall] using hcalls
  · simpa [Op.isRecord] using hrecords
  · exact List.mem_cons_of_mem _ hbody
  · intro h' challenge hnone
    cases challenge <;> exact hunpaid _ _ hnone

/-- A request meets a contract that its serving part meets, when the contract asks nothing of
the other operations but that a nonce is issued at most once. -/
theorem call_meets
    (hbypass : req.x402Paid.isSome = true → (innerCall none).Meets rely guar post [])
    (hserve : ∀ h body price payload, Preliminary h →
      Accepted crypto config req h body price payload →
        (serveThenSettle crypto config payload price).Meets rely guar post h) :
    (call crypto config req).Meets rely guar post [] := by
  have hprelim : ∀ h e, e.1.isPreliminary = true → guar h e := fun h e he =>
    hfree h e (Op.isCommitting_of_preliminary _ he) (Op.isInner_of_preliminary _ he)
      (Op.isReport_of_preliminary _ he)
  unfold call
  split
  · rename_i hpaid
    exact hbypass hpaid
  · refine Prog.meets_perform_bind.2 fun buffered _ => ⟨hfree _ _ rfl rfl rfl, ?_⟩
    have hp₁ := Preliminary.nil.cons (e := ⟨.bufferRequestBody, buffered⟩) rfl
    cases buffered with
    | error e => exact hunpaid _ _ (hp₁.countP_eq_zero Op.isPaidCall_of_preliminary)
    | ok body =>
      refine Prog.meets_perform_bind.2 fun priced _ => ⟨hfree _ _ rfl rfl rfl, ?_⟩
      have hp₂ := hp₁.cons (e := ⟨.priceFor req.line body, priced⟩) rfl
      cases priced with
      | error e => exact hunpaid _ _ (hp₂.countP_eq_zero Op.isPaidCall_of_preliminary)
      | ok price =>
        simp only
        cases hvalue : req.paymentHeader with
        | none =>
          exact challengeUnpaid_meets hfree hissue hunpaid
            (hp₂.countP_eq_zero Op.isPaidCall_of_preliminary)
            (hp₂.countP_eq_zero Op.isRecord_of_preliminary) (by simp)
        | some value =>
          have hread : (⟨.bufferRequestBody, .ok body⟩ : Event) ∈
              ([⟨.priceFor req.line body, .ok price⟩, ⟨.bufferRequestBody, .ok body⟩] :
                List Event) := by simp
          refine Prog.Meets.bind (validatePaidPath_meets hprelim hp₂ hvalue hread (by simp)) ?_
          rintro h' outcome ⟨hp₃, hsub, hacc⟩
          have hcalls := hp₃.countP_eq_zero Op.isPaidCall_of_preliminary
          cases outcome with
          | validated payload => exact hserve h' body price payload hp₃ (hacc payload rfl)
          | reject err =>
            exact rejectPayment_meets hfree hissue hunpaid hcalls
              (hp₃.countP_eq_zero Op.isRecord_of_preliminary) (hsub (by simp))
          | serverError err =>
            refine Prog.meets_perform_bind.2 fun _ _ => ⟨hfree _ _ rfl rfl rfl, hunpaid _ _ ?_⟩
            simpa [Op.isPaidCall] using hcalls

end Whole

/-- A request that comes with a marker is served without a payment. -/
theorem bypass_meets {post : List Event → Except String Response → Prop}
    (hfree : ∀ h e, e.1.isCommitting = false → guar h e)
    (hunpaid : ∀ h r, h.countP (·.1.isPaidCall) = 0 → post h r) :
    (innerCall none).Meets rely guar post [] := by
  refine Prog.meets_perform_bind.2 fun _ _ => ⟨hfree _ _ rfl, ?_⟩
  refine Prog.meets_perform.2 fun answer _ => ⟨hfree _ _ rfl, hunpaid _ _ ?_⟩
  simp [Op.isPaidCall]

end Paths

section Once
variable (crypto : Crypto) (config : X402Config) (req : Request)

/-- What lets a request through with the marker that the layer inserted. -/
def Justified (past : List Event) (inserted : Option X402Paid) : Prop :=
  match inserted with
  | none => req.x402Paid.isSome = true
  | some paid => ∃ body price payload, Accepted crypto config req past body price payload ∧
      paid = paidMarker payload

def NotServed (past : List Event) : Prop := ∀ e ∈ past, e.1.isInner = false

/-- The inner service is reached once, by a call that is waited for at once. -/
def InnerDuty (past : List Event) (e : Event) : Prop :=
  match e.1 with
  | .innerCall inserted => NotServed past ∧ Justified crypto config req past inserted
  | .innerResponse => ∃ inserted rest, past = ⟨.innerCall inserted, ()⟩ :: rest ∧
      NotServed rest ∧ Justified crypto config req rest inserted
  | _ => True

variable {crypto config req} {rely : Event → Prop}

theorem innerDuty_of_not_inner {past : List Event} {e : Event} (he : e.1.isInner = false) :
    InnerDuty crypto config req past e := by
  obtain ⟨o, a⟩ := e
  cases o <;> trivial

theorem innerCall_once {past : List Event} {inserted : Option X402Paid}
    (hfirst : NotServed past) (hjust : Justified crypto config req past inserted) :
    (innerCall inserted).Meets rely (InnerDuty crypto config req) (fun _ _ => True) past := by
  refine Prog.meets_perform_bind.2 fun _ _ => ⟨⟨hfirst, hjust⟩, ?_⟩
  exact Prog.meets_perform.2 fun _ _ => ⟨⟨inserted, past, rfl, hfirst, hjust⟩, trivial⟩

/-- The operations that submit a settlement and follow it. -/
def Op.isSettling : Op → Bool
  | .getNonce _ | .sendRawTx _ | .txAnswer _ | .waitForReceipt _ _ => true
  | _ => false

theorem settlePaidPath_free {guar : List Event → Event → Prop}
    (hfree : ∀ past e, e.1.isSettling = true → guar past e) {payload : PaymentPayload}
    {price : U256} {past : List Event} :
    (settlePaidPath crypto config payload price).Meets rely guar (fun _ _ => True) past := by
  refine Prog.meets_perform_bind.2 fun count _ => ⟨hfree _ _ rfl, ?_⟩
  cases count with
  | error e => trivial
  | ok opNonce =>
    simp only
    split
    · trivial
    · refine Prog.meets_perform_bind.2 fun _ _ => ⟨hfree _ _ rfl, ?_⟩
      refine Prog.meets_perform_bind.2 fun sent _ => ⟨hfree _ _ rfl, ?_⟩
      cases sent with
      | error e => trivial
      | ok txHash =>
        refine Prog.meets_perform_bind.2 fun receipt _ => ⟨hfree _ _ rfl, ?_⟩
        cases receipt with
        | error e => trivial
        | ok receipt =>
          simp only
          split
          · trivial
          · split
            · trivial
            · split <;> trivial

theorem Op.isInner_of_settling (o : Op) (h : o.isSettling = true) : o.isInner = false := by
  cases o <;> first | rfl | simp [isSettling] at h

/-- Every request reaches the inner service at most once, and for a reason. -/
theorem call_once :
    (call crypto config req).Meets rely (InnerDuty crypto config req) (fun _ _ => True) [] := by
  refine call_meets (fun _ _ _ he _ => innerDuty_of_not_inner he) (fun _ _ _ _ _ _ _ _ => trivial)
    (fun _ _ _ => trivial) (fun hpaid => innerCall_once (fun e he => by cases he) hpaid) ?_
  intro past body price payload hprelim hacc
  have hfirst : NotServed past := fun e he => Op.isInner_of_preliminary _ (hprelim e he)
  refine Prog.Meets.bind (innerCall_once hfirst ⟨body, price, payload, hacc, rfl⟩) ?_
  intro past' answer _
  cases answer with
  | error e => trivial
  | ok response =>
    simp only
    split
    · refine Prog.Meets.bind (settlePaidPath_free fun _ _ he =>
        innerDuty_of_not_inner (Op.isInner_of_settling _ he)) fun past'' settled _ => ?_
      cases settled <;> exact Prog.meets_perform_bind.2 fun _ _ => ⟨trivial, trivial⟩
    · trivial

end Once
end X402
