import CitrateGateway.X402.SettleServe

/-!
# The operator's account nonce under concurrency

`settlePaidPath` reads the pending transaction count and submits with it, in separate
operations and with no reservation. Against a chain that counts what it accepted and accepts
exactly the next nonce, all served requests are settled precisely when no request reads the
count between another's read and the answer to its submission.
-/

namespace X402
set_option autoImplicit false
open Words Effects

section Order
variable {α : Type}

/-- Two places of a list are one place, or one of them comes first. -/
theorem split_cases {late late' early early' : List α} {x y : α}
    (h : late ++ x :: early = late' ++ y :: early') :
    (x = y ∧ early = early') ∨ (∃ mid, early = mid ++ y :: early') ∨
      ∃ mid, early' = mid ++ x :: early := by
  rcases List.append_eq_append_iff.1 h with ⟨as, rfl, hr⟩ | ⟨as, rfl, hr⟩
  · cases as with
    | nil =>
      simp only [List.nil_append, List.cons.injEq] at hr
      exact Or.inl hr
    | cons a as =>
      simp only [List.cons_append, List.cons.injEq] at hr
      exact Or.inr (Or.inl ⟨as, hr.2⟩)
  · cases as with
    | nil =>
      simp only [List.nil_append, List.cons.injEq] at hr
      exact Or.inl ⟨hr.1.symm, hr.2.symm⟩
    | cons a as =>
      simp only [List.cons_append, List.cons.injEq] at hr
      exact Or.inr (Or.inr ⟨as, hr.2⟩)

theorem suffix_of_split {log late early : List α} {x : α} (h : log = late ++ x :: early) :
    early <:+ log := ⟨late ++ [x], by rw [h, List.append_assoc, List.singleton_append]⟩

end Order

section Promise
variable (crypto : Crypto) (config : X402Config)

def Op.isRead : Op → Bool
  | .getNonce _ => true
  | _ => false

def Op.isAnswer : Op → Bool
  | .txAnswer _ => true
  | _ => false

theorem Op.isRead_of_preliminary (o : Op) (h : o.isPreliminary = true) : o.isRead = false := by
  cases o <;> first | rfl | simp [isPreliminary] at h

theorem Op.isAnswer_of_preliminary (o : Op) (h : o.isPreliminary = true) :
    o.isAnswer = false := by
  cases o <;> first | rfl | simp [isPreliminary] at h

/-- The chain always answers with a count. -/
def CountAnswered (e : Event) : Prop :=
  match e with
  | ⟨.getNonce _, .error _⟩ => False
  | _ => True

/-- The payment of the request was accepted and the response to it was a 2xx. -/
def PaidServed (h : List Event) : Prop :=
  (∃ paid, ⟨.innerCall (some paid), ()⟩ ∈ h) ∧
    ∃ response, ⟨.innerResponse, .ok response⟩ ∈ h ∧ response.isSuccess = true

/-- The settle phase reads once, submits once with what it read, and waits once. -/
def SettleDuty (h : List Event) (e : Event) : Prop :=
  match e.1 with
  | .getNonce _ => h.countP (·.1.isRead) = 0 ∧ PaidServed h
  | .sendRawTx raw =>
    h.countP (·.1.isSend) = 0 ∧
      ∃ address, ∃ n : UInt64, ⟨.getNonce address, .ok n⟩ ∈ h ∧ accountNonce raw = some n.toNat
  | .txAnswer raw => h.countP (·.1.isAnswer) = 0 ∧ ⟨.sendRawTx raw, ()⟩ ∈ h
  | _ => True

/-- A request that was paid and served has waited for its settlement. -/
def Settled (h : List Event) : Prop :=
  PaidServed h → ∃ raw answer, ⟨.txAnswer raw, answer⟩ ∈ h

variable {crypto config}

variable {h : List Event}

/-- The operator's key signs. -/
def Signs (crypto : Crypto) (config : X402Config) : Prop :=
  ∀ tx, ∃ raw, signSettlementTx crypto tx config.operatorSecret = .ok raw

theorem settlePaidPath_answers (hsigns : Signs crypto config) {payload : PaymentPayload}
    {price : U256} (hserved : PaidServed h) (hread : h.countP (·.1.isRead) = 0) (hsend : h.countP (·.1.isSend) = 0)
    (hanswer : h.countP (·.1.isAnswer) = 0) :
    (settlePaidPath crypto config payload price).Meets CountAnswered SettleDuty
      (fun h' _ => ∃ raw answer, ⟨.txAnswer raw, answer⟩ ∈ h') h := by
  refine Prog.meets_perform_bind.2 fun nonceAnswer hcount => ⟨⟨hread, hserved⟩, ?_⟩
  cases nonceAnswer with
  | error e => exact hcount.elim
  | ok opNonce =>
    obtain ⟨raw, hraw⟩ := hsigns (settlementTx crypto config payload opNonce)
    have hnonce : accountNonce raw = some opNonce.toNat :=
      accountNonce_of_signed crypto (by
        simp only [settlementTx, encodeSettlePayment_length]
        omega) hraw
    simp only [hraw, sendRawTx, Prog.bind_assoc]
    refine Prog.meets_perform_bind.2 fun _ _ =>
      ⟨⟨?_, config.operatorAddress, opNonce, by simp, hnonce⟩, ?_⟩
    · simpa [Op.isSend] using hsend
    · refine Prog.meets_perform_bind.2 fun answer _ => ⟨⟨?_, by simp⟩, ?_⟩
      · simpa [Op.isAnswer] using hanswer
      · cases answer with
        | error e => exact ⟨raw, .error e, by simp⟩
        | ok txHash =>
          refine Prog.meets_perform_bind.2 fun receiptAnswer _ => ⟨trivial, ?_⟩
          have hpost : ∃ raw' answer, (⟨.txAnswer raw', answer⟩ : Event) ∈
              (⟨.waitForReceipt txHash config.receiptTimeoutSecs, receiptAnswer⟩ ::
                ⟨.txAnswer raw, .ok txHash⟩ :: ⟨.sendRawTx raw, ()⟩ ::
                ⟨.getNonce config.operatorAddress, .ok opNonce⟩ :: h) :=
            ⟨raw, .ok txHash, by simp⟩
          cases receiptAnswer with
          | error e => exact hpost
          | ok receipt =>
            simp only
            split
            · exact hpost
            · split
              · exact hpost
              · split <;> exact hpost

theorem serveThenSettle_settled (hsigns : Signs crypto config) {payload : PaymentPayload}
    {price : U256} (hp : Preliminary h) :
    (serveThenSettle crypto config payload price).Meets CountAnswered SettleDuty
      (fun h' _ => Settled h') h := by
  simp only [serveThenSettle, innerCall, Prog.bind_assoc]
  refine Prog.meets_perform_bind.2 fun _ _ => ⟨trivial, ?_⟩
  refine Prog.meets_perform_bind.2 fun answer _ => ⟨trivial, ?_⟩
  have hfresh : ∀ response : Response, (⟨.innerResponse, .ok response⟩ : Event) ∉ h := by
    intro response hmem
    have := hp _ hmem
    simp [Op.isPreliminary] at this
  cases answer with
  | error e =>
    rintro ⟨_, response, hmem, _⟩
    simp [hfresh] at hmem
  | ok response =>
    simp only
    split
    · rename_i hsuccess
      refine Prog.Meets.bind (settlePaidPath_answers hsigns ?_ ?_ ?_ ?_) ?_
      · exact ⟨⟨paidMarker payload, by simp⟩, response, by simp, hsuccess⟩
      · simpa [Op.isRead] using hp.countP_eq_zero Op.isRead_of_preliminary
      · simpa [Op.isSend] using hp.countP_eq_zero Op.isSend_of_preliminary
      · simpa [Op.isAnswer] using hp.countP_eq_zero Op.isAnswer_of_preliminary
      · rintro h' settled ⟨raw, txAnswer, hmem⟩
        cases settled with
        | error err =>
          exact Prog.meets_perform_bind.2 fun _ _ =>
            ⟨trivial, fun _ => ⟨raw, txAnswer, List.mem_cons_of_mem _ hmem⟩⟩
        | ok event =>
          exact Prog.meets_perform_bind.2 fun _ _ =>
            ⟨trivial, fun _ => ⟨raw, txAnswer, List.mem_cons_of_mem _ hmem⟩⟩
    · rename_i hfail
      rintro ⟨_, response', hmem, hsuccess⟩
      have heq : response' = response := by simpa [hfresh] using hmem
      exact absurd hsuccess (heq ▸ hfail)

theorem settleDuty_of_not_committing {e : Event} (he : e.1.isCommitting = false) :
    SettleDuty h e := by
  obtain ⟨o, a⟩ := e
  cases o <;> trivial

theorem call_settleDuty (hsigns : Signs crypto config) (req : Request) :
    (call crypto config req).Meets CountAnswered SettleDuty (fun h _ => Settled h) [] := by
  have hunpaid : ∀ h (_ : Except String Response), h.countP (·.1.isPaidCall) = 0 → Settled h := by
    rintro h r hnone ⟨⟨paid, hmem⟩, _⟩
    have := List.countP_eq_zero.1 hnone _ hmem
    simp [Op.isPaidCall] at this
  exact call_meets (fun _ _ he _ _ => settleDuty_of_not_committing he)
    (fun _ _ _ _ _ _ _ _ => trivial) hunpaid
    (fun _ => bypass_meets (fun _ _ => settleDuty_of_not_committing) hunpaid)
    fun _ _ _ _ hp _ => serveThenSettle_settled hsigns hp

def settleContract (hsigns : Signs crypto config) : System.Contract (layer crypto config) where
  rely := CountAnswered
  guar := fun _ => SettleDuty
  post := fun _ h _ => Settled h
  meets := call_settleDuty hsigns

end Promise

section Chain
variable {crypto : Crypto} {config : X402Config}

/-- The chain accepted a submission. -/
def isAccepted : Event → Bool
  | ⟨.txAnswer _, .ok _⟩ => true
  | _ => false

theorem isAccepted_ok (raw : Bytes) (hash : H256) :
    isAccepted ⟨.txAnswer raw, .ok hash⟩ = true := rfl

/-- The operator's pending transaction count, from the count `base` before the run. -/
def pendingCount (base : Nat) (log : List (Nat × Event)) : Nat :=
  base + log.countP (isAccepted ·.2)

/-- The chain answers with its count and accepts exactly the transaction that carries it; no
request is dropped. -/
def HonestStep (base : Nat) (s : (layer crypto config).State) :
    (layer crypto config).Action → Prop
  | .exec _ ⟨.getNonce _, .ok n⟩ => n.toNat = pendingCount base s.log
  | .exec _ ⟨.getNonce _, .error _⟩ => False
  | .exec _ ⟨.txAnswer raw, answer⟩ =>
    isAccepted ⟨.txAnswer raw, answer⟩ = true ↔
      accountNonce raw = some (pendingCount base s.log)
  | .drop _ => False
  | _ => True

instance (base : Nat) (s : (layer crypto config).State) (a : (layer crypto config).Action) :
    Decidable (HonestStep base s a) := by
  unfold HonestStep
  split <;> infer_instance

abbrev HonestRun (crypto : Crypto) (config : X402Config) (base : Nat) :=
  System.Reach (layer crypto config) (HonestStep base) ((layer crypto config).init .empty)

theorem handle_getNonce {st st' : LedgerState} {address : H160} {c : Event}
    {a : Except X402Error UInt64} (h : handle config st (.getNonce address) c = some (a, st')) :
    c = ⟨.getNonce address, a⟩ := by
  simp only [handle, Option.map_eq_some_iff] at h
  obtain ⟨b, hb, heq⟩ := h
  cases heq
  exact System.offered_eq_some hb

theorem handle_txAnswer {st st' : LedgerState} {raw : Bytes} {c : Event}
    {a : Except X402Error H256} (h : handle config st (.txAnswer raw) c = some (a, st')) :
    c = ⟨.txAnswer raw, a⟩ := by
  simp only [handle, Option.map_eq_some_iff] at h
  obtain ⟨b, hb, heq⟩ := h
  cases heq
  exact System.offered_eq_some hb

theorem honest_served (hsigns : Signs crypto config) (base : Nat) :
    (settleContract hsigns).Served (HonestStep base) := by
  intro s t c o a sh hok hhandle
  cases o with
  | getNonce address =>
    rw [@handle_getNonce config _ _ _ _ _ hhandle] at hok
    cases a with
    | error e => exact hok.elim
    | ok n => trivial
  | _ => trivial

theorem pendingCount_mono (base : Nat) {early log : List (Nat × Event)} (h : early <:+ log) :
    pendingCount base early ≤ pendingCount base log := by
  have := h.sublist.countP_le (p := fun x : Nat × Event => isAccepted x.2)
  exact Nat.add_le_add_left this base

theorem pendingCount_accepted (base : Nat) (t : Nat) {e : Event} (he : isAccepted e = true)
    (mid early : List (Nat × Event)) :
    pendingCount base early < pendingCount base (mid ++ (t, e) :: early) := by
  rw [pendingCount, pendingCount, List.countP_append, List.countP_cons, if_pos he]
  omega

theorem not_mem_of_countP {early : List (Nat × Event)} {t : Nat} {p : Op → Bool}
    (h : (System.trace early t).countP (p ·.1) = 0) {e : Event} (he : p e.1 = true) :
    (t, e) ∉ early := by
  intro hmem
  exact List.countP_eq_zero.1 h e (System.mem_trace.2 hmem) he

theorem PaidServed.of_suffix {early log : List (Nat × Event)} {t : Nat} (hsuffix : early <:+ log)
    (h : PaidServed (System.trace early t)) : PaidServed (System.trace log t) := by
  obtain ⟨⟨paid, hpaid⟩, response, hresponse, hsuccess⟩ := h
  have hsub : ∀ e, e ∈ System.trace early t → e ∈ System.trace log t :=
    fun e he => System.mem_trace.2 (hsuffix.subset (System.mem_trace.1 he))
  exact ⟨⟨paid, hsub _ hpaid⟩, response, hsub _ hresponse, hsuccess⟩

variable {base : Nat} {s : (layer crypto config).State} {t u : Nat}
variable {late early late' early' : List (Nat × Event)}

section Steps
variable (hsigns : Signs crypto config) (hrun : HonestRun crypto config base s)
include hsigns hrun

theorem settleDuty_at {e : Event} (hlog : s.log = late ++ (t, e) :: early) :
    SettleDuty (System.trace early t) e := by
  obtain ⟨_, _, _, hduty⟩ :=
    System.Reach.guar (settleContract hsigns) (honest_served hsigns base) hrun hlog
  exact hduty

/-- A request reads the count once, after it was served. -/
theorem read_spec {address : H160} {answer : Except X402Error UInt64}
    (hlog : s.log = late ++ (t, ⟨.getNonce address, answer⟩) :: early) :
    (∀ address' answer', (t, (⟨.getNonce address', answer'⟩ : Event)) ∉ early) ∧
      PaidServed (System.trace early t) ∧
      ∃ n : UInt64, answer = .ok n ∧ n.toNat = pendingCount base early := by
  obtain ⟨hnone, hserved⟩ := settleDuty_at hsigns hrun hlog
  refine ⟨fun _ _ => not_mem_of_countP hnone rfl, hserved, ?_⟩
  obtain ⟨s₁, c, _, _, _, _, rfl, hok, _, hhandle, _⟩ := System.Reach.event hrun hlog
  rw [@handle_getNonce config _ _ _ _ _ hhandle] at hok
  cases answer with
  | error e => exact hok.elim
  | ok n => exact ⟨n, rfl, hok⟩

theorem read_unique {address address' : H160} {answer answer' : Except X402Error UInt64}
    (hlog : s.log = late ++ (t, ⟨.getNonce address, answer⟩) :: early)
    (hlog' : s.log = late' ++ (t, ⟨.getNonce address', answer'⟩) :: early') :
    early = early' := by
  rcases split_cases (hlog.symm.trans hlog') with ⟨_, h⟩ | ⟨mid, h⟩ | ⟨mid, h⟩
  · exact h
  · exact absurd (by simp [h]) ((read_spec hsigns hrun hlog).1 address' answer')
  · exact absurd (by simp [h]) ((read_spec hsigns hrun hlog').1 address answer)

theorem send_unique {raw raw' : Bytes} (hsend : (t, ⟨.sendRawTx raw, ()⟩) ∈ s.log)
    (hsend' : (t, ⟨.sendRawTx raw', ()⟩) ∈ s.log) : raw = raw' := by
  obtain ⟨late, early, hlog⟩ := List.append_of_mem hsend
  obtain ⟨late', early', hlog'⟩ := List.append_of_mem hsend'
  have hnone : (t, (⟨.sendRawTx raw', ()⟩ : Event)) ∉ early :=
    not_mem_of_countP (settleDuty_at hsigns hrun hlog).1 rfl
  have hnone' : (t, (⟨.sendRawTx raw, ()⟩ : Event)) ∉ early' :=
    not_mem_of_countP (settleDuty_at hsigns hrun hlog').1 rfl
  rcases split_cases (hlog.symm.trans hlog') with ⟨h, _⟩ | ⟨mid, h⟩ | ⟨mid, h⟩
  · simpa using h
  · exact absurd (by simp [h]) hnone
  · exact absurd (by simp [h]) hnone'

/-- A submission is accepted exactly when nothing was accepted since its request read the
count. -/
theorem answer_spec {raw : Bytes} {answer : Except X402Error H256}
    (hlog : s.log = late ++ (t, ⟨.txAnswer raw, answer⟩) :: early) :
    (∀ raw' answer', (t, (⟨.txAnswer raw', answer'⟩ : Event)) ∉ early) ∧
      (t, ⟨.sendRawTx raw, ()⟩) ∈ early ∧
      ∃ mid address readAnswer first,
        early = mid ++ (t, ⟨.getNonce address, readAnswer⟩) :: first ∧
        accountNonce raw = some (pendingCount base first) ∧
        (isAccepted ⟨.txAnswer raw, answer⟩ = true ↔
          pendingCount base first = pendingCount base early) := by
  obtain ⟨hnone, hsend⟩ := settleDuty_at hsigns hrun hlog
  have hsend := System.mem_trace.1 hsend
  obtain ⟨midSend, firstSend, hsplit⟩ := List.append_of_mem hsend
  have hlogSend : s.log = (late ++ (t, ⟨.txAnswer raw, answer⟩) :: midSend) ++
      (t, ⟨.sendRawTx raw, ()⟩) :: firstSend := by
    rw [hlog, hsplit]
    simp
  obtain ⟨_, address, n, hread, hnonce⟩ := settleDuty_at hsigns hrun hlogSend
  have hread := System.mem_trace.1 hread
  obtain ⟨midRead, first, hfirst⟩ := List.append_of_mem hread
  have hearly : early = (midSend ++ (t, ⟨.sendRawTx raw, ()⟩) :: midRead) ++
      (t, ⟨.getNonce address, .ok n⟩) :: first := by
    rw [hsplit, hfirst]
    simp
  have hlogRead : s.log = (late ++ (t, ⟨.txAnswer raw, answer⟩) ::
      (midSend ++ (t, ⟨.sendRawTx raw, ()⟩) :: midRead)) ++
        (t, ⟨.getNonce address, .ok n⟩) :: first := by
    rw [hlog, hearly]
    simp
  obtain ⟨_, _, m, hm, hcount⟩ := read_spec hsigns hrun hlogRead
  cases hm
  rw [hcount] at hnonce
  refine ⟨fun _ _ => not_mem_of_countP hnone rfl, hsend, _, address, .ok n, first, hearly,
    hnonce, ?_⟩
  obtain ⟨s₁, c, _, _, _, _, rfl, hok, _, hhandle, _⟩ := System.Reach.event hrun hlog
  rw [@handle_txAnswer config _ _ _ _ _ hhandle] at hok
  rw [show isAccepted ⟨.txAnswer raw, answer⟩ = true ↔ _ from hok, hnonce, Option.some.injEq]

/-- Two accepted submissions of different requests carry different account nonces. -/
theorem accepted_nonces_ne {raw raw' : Bytes} {hash hash' : H256} (hne : t ≠ u)
    (hlog : s.log = late ++ (t, ⟨.txAnswer raw, .ok hash⟩) :: early)
    (hlog' : s.log = late' ++ (u, ⟨.txAnswer raw', .ok hash'⟩) :: early') :
    accountNonce raw ≠ accountNonce raw' := by
  obtain ⟨_, _, _, _, _, first, _, hnonce, hiff⟩ := answer_spec hsigns hrun hlog
  obtain ⟨_, _, _, _, _, first', _, hnonce', hiff'⟩ := answer_spec hsigns hrun hlog'
  rw [hnonce, hnonce', hiff.1 rfl, hiff'.1 rfl]
  intro heq
  have heq := Option.some.inj heq
  rcases split_cases (hlog.symm.trans hlog') with ⟨h, _⟩ | ⟨mid, h⟩ | ⟨mid, h⟩
  · exact hne (Prod.mk.inj h).1
  · have := pendingCount_accepted base u (isAccepted_ok raw' hash') mid early'
    rw [← h] at this
    omega
  · have := pendingCount_accepted base t (isAccepted_ok raw hash) mid early
    rw [← h] at this
    omega

end Steps

section Schedule

/-- No request reads the count while another, which read it before, still waits for its
submission to be answered. -/
def ReadsAlone (log : List (Nat × Event)) : Prop :=
  ∀ late t address answer early, log = late ++ (t, ⟨.getNonce address, answer⟩) :: early →
    ∀ u address' answer', (u, (⟨.getNonce address', answer'⟩ : Event)) ∈ early →
      ∃ raw txAnswer, (u, (⟨.txAnswer raw, txAnswer⟩ : Event)) ∈ early

/-- Every served payment is settled, and no two settlements share an account nonce. -/
def AllSettled (s : (layer crypto config).State) : Prop :=
  (∀ t, PaidServed (System.trace s.log t) →
    ∃ raw hash, (t, (⟨.txAnswer raw, .ok hash⟩ : Event)) ∈ s.log) ∧
  ∀ t u raw raw', (t, (⟨.sendRawTx raw, ()⟩ : Event)) ∈ s.log →
    (u, (⟨.sendRawTx raw', ()⟩ : Event)) ∈ s.log → accountNonce raw = accountNonce raw' → t = u

variable (hsigns : Signs crypto config) (hrun : HonestRun crypto config base s)
include hsigns hrun

theorem readsAlone_of_allSettled (hall : AllSettled s) : ReadsAlone s.log := by
  intro late t address answer early hlog u address' answer' hu
  by_contra hwaits
  obtain ⟨hfresh, hserved, n, rfl, hcount⟩ := read_spec hsigns hrun hlog
  have hne : u ≠ t := by
    rintro rfl
    exact hfresh _ _ hu
  obtain ⟨midU, earlyU, hearly⟩ := List.append_of_mem hu
  have hlogU : s.log = (late ++ (t, ⟨.getNonce address, .ok n⟩) :: midU) ++
      (u, ⟨.getNonce address', answer'⟩) :: earlyU := by
    rw [hlog, hearly]
    simp
  have hservedU := (read_spec hsigns hrun hlogU).2.1
  -- both requests were served, so both were accepted, after the second read
  obtain ⟨raw, hash, hmem⟩ := hall.1 t (hserved.of_suffix (suffix_of_split hlog))
  obtain ⟨rawU, hashU, hmemU⟩ := hall.1 u (hservedU.of_suffix (suffix_of_split hlogU))
  obtain ⟨late₁, pre, hpre⟩ := List.append_of_mem hmem
  obtain ⟨late₂, preU, hpreU⟩ := List.append_of_mem hmemU
  obtain ⟨_, _, mid, a, b, first, hfirst, _, hiff⟩ := answer_spec hsigns hrun hpre
  obtain ⟨_, _, midU', c, d, firstU, hfirstU, _, hiffU⟩ := answer_spec hsigns hrun hpreU
  have hread : s.log = (late₁ ++ (t, ⟨.txAnswer raw, .ok hash⟩) :: mid) ++
      (t, ⟨.getNonce a, b⟩) :: first := by
    rw [hpre, hfirst]
    simp
  have hreadU : s.log = (late₂ ++ (u, ⟨.txAnswer rawU, .ok hashU⟩) :: midU') ++
      (u, ⟨.getNonce c, d⟩) :: firstU := by
    rw [hpreU, hfirstU]
    simp
  have hsame : first = early := read_unique hsigns hrun hread hlog
  have hsameU : firstU = earlyU := read_unique hsigns hrun hreadU hlogU
  subst hsame hsameU
  have hle : pendingCount base firstU ≤ pendingCount base first :=
    pendingCount_mono base (suffix_of_split hearly)
  have hafter : pendingCount base first ≤ pendingCount base preU := by
    rcases split_cases (hlog.symm.trans hpreU) with ⟨h, _⟩ | ⟨m, h⟩ | ⟨m, h⟩
    · exact absurd (Prod.mk.inj h).1.symm hne
    · exact absurd ⟨rawU, .ok hashU, by rw [h]; simp⟩ hwaits
    · exact pendingCount_mono base (suffix_of_split h)
  have hcountT := hiff.1 rfl
  have hcountU := hiffU.1 rfl
  rcases split_cases (hpre.symm.trans hpreU) with ⟨h, _⟩ | ⟨m, h⟩ | ⟨m, h⟩
  · exact hne (Prod.mk.inj h).1.symm
  · have := pendingCount_accepted base u (isAccepted_ok rawU hashU) m preU
    rw [← h] at this
    omega
  · have := pendingCount_accepted base t (isAccepted_ok raw hash) m pre
    rw [← h] at this
    omega

theorem accepted_of_readsAlone (halone : ReadsAlone s.log) {raw : Bytes}
    {answer : Except X402Error H256} (hmem : (t, ⟨.txAnswer raw, answer⟩) ∈ s.log) :
    isAccepted ⟨.txAnswer raw, answer⟩ = true := by
  obtain ⟨late, early, hlog⟩ := List.append_of_mem hmem
  obtain ⟨honce, _, mid, address, readAnswer, first, hearly, _, hiff⟩ :=
    answer_spec hsigns hrun hlog
  have hread : s.log = (late ++ (t, ⟨.txAnswer raw, answer⟩) :: mid) ++
      (t, ⟨.getNonce address, readAnswer⟩) :: first := by
    rw [hlog, hearly]
    simp
  -- nothing is accepted between the read and the answer of `t`
  have hquiet : mid.countP (isAccepted ·.2) = 0 := by
    rw [List.countP_eq_zero]
    rintro ⟨u, o, a⟩ hu haccepted
    obtain ⟨m₁, m₂, hmid⟩ := List.append_of_mem hu
    match o, a, hmid, haccepted with
    | .txAnswer rawU, .ok hashU, hmid, _ =>
      have hlogU : s.log = (late ++ (t, ⟨.txAnswer raw, answer⟩) :: m₁) ++
          (u, ⟨.txAnswer rawU, .ok hashU⟩) ::
            (m₂ ++ (t, ⟨.getNonce address, readAnswer⟩) :: first) := by
        rw [hread, hmid]
        simp
      obtain ⟨honceU, _, midU, addressU, readAnswerU, firstU, hsplit, _, _⟩ :=
        answer_spec hsigns hrun hlogU
      have hreadU : s.log = ((late ++ (t, ⟨.txAnswer raw, answer⟩) :: m₁) ++
          (u, ⟨.txAnswer rawU, .ok hashU⟩) :: midU) ++
            (u, ⟨.getNonce addressU, readAnswerU⟩) :: firstU := by
        rw [hlogU, hsplit]
        simp
      rcases split_cases hsplit with ⟨h, _⟩ | ⟨m, h⟩ | ⟨m, h⟩
      · obtain ⟨rfl, _⟩ := Prod.mk.inj h
        exact honce rawU (.ok hashU) (by rw [hearly, hmid]; simp)
      · obtain ⟨raw', ans', hans⟩ := halone _ _ _ _ _ hread u addressU readAnswerU
          (by rw [h]; simp)
        exact honceU raw' ans' (by simp [hans])
      · obtain ⟨raw', ans', hans⟩ := halone _ _ _ _ _ hreadU t address readAnswer
          (by rw [h]; simp)
        have hpre : (t, (⟨.txAnswer raw', ans'⟩ : Event)) ∈
            m₂ ++ (t, ⟨.getNonce address, readAnswer⟩) :: first := by
          rw [hsplit]
          simp [hans]
        apply honce raw' ans'
        rw [hearly, hmid]
        simp only [List.mem_append, List.mem_cons] at hpre ⊢
        rcases hpre with h | h
        · exact Or.inl (Or.inr (Or.inr h))
        · exact Or.inr h
  apply hiff.2
  rw [hearly, pendingCount, pendingCount, List.countP_append, hquiet, List.countP_cons]
  simp [isAccepted]

/-- In a run in which every served payment came to its end, all of them are settled if and
only if no two reads of the account nonce overlapped. -/
theorem allSettled_iff_readsAlone
    (hdone : ∀ t, PaidServed (System.trace s.log t) →
      ∃ req r, s.tasks[t]? = some ⟨req, some (.ret r)⟩) :
    AllSettled s ↔ ReadsAlone s.log := by
  refine ⟨readsAlone_of_allSettled hsigns hrun, fun halone => ?_⟩
  have haccepted : ∀ t, PaidServed (System.trace s.log t) →
      ∃ raw hash, (t, (⟨.txAnswer raw, .ok hash⟩ : Event)) ∈ s.log := by
    intro t hserved
    obtain ⟨req, r, htask⟩ := hdone t hserved
    have hpost : Settled (System.trace s.log t) :=
      System.Reach.meets (settleContract hsigns) (honest_served hsigns base) hrun htask
    obtain ⟨raw, answer, hmem⟩ := hpost hserved
    have hmem := System.mem_trace.1 hmem
    have hok := accepted_of_readsAlone hsigns hrun halone hmem
    cases answer with
    | error e => simp [isAccepted] at hok
    | ok hash => exact ⟨raw, hash, hmem⟩
  refine ⟨haccepted, ?_⟩
  -- the answered transaction of a request is the one it submitted
  have hanswer : ∀ t raw, (t, (⟨.sendRawTx raw, ()⟩ : Event)) ∈ s.log →
      ∃ hash, (t, (⟨.txAnswer raw, .ok hash⟩ : Event)) ∈ s.log := by
    intro t raw hsend
    obtain ⟨late, early, hlog⟩ := List.append_of_mem hsend
    obtain ⟨_, address, n, hread, _⟩ := settleDuty_at hsigns hrun hlog
    obtain ⟨mid, first, hearly⟩ := List.append_of_mem (System.mem_trace.1 hread)
    have hlog' : s.log = (late ++ (t, ⟨.sendRawTx raw, ()⟩) :: mid) ++
        (t, ⟨.getNonce address, .ok n⟩) :: first := by
      rw [hlog, hearly]
      simp
    have hserved := (read_spec hsigns hrun hlog').2.1
    obtain ⟨raw', hash, hmem⟩ := haccepted t (hserved.of_suffix (suffix_of_split hlog'))
    obtain ⟨late', early', hsplit⟩ := List.append_of_mem hmem
    have hsend' := (answer_spec hsigns hrun hsplit).2.1
    have hsent : (t, (⟨.sendRawTx raw', ()⟩ : Event)) ∈ s.log :=
      (suffix_of_split hsplit).subset hsend'
    rw [send_unique hsigns hrun hsend hsent]
    exact ⟨hash, hmem⟩
  intro t u raw raw' hsend hsend' heq
  by_contra hne
  obtain ⟨hash, hmem⟩ := hanswer t raw hsend
  obtain ⟨hash', hmem'⟩ := hanswer u raw' hsend'
  obtain ⟨_, _, hlog⟩ := List.append_of_mem hmem
  obtain ⟨_, _, hlog'⟩ := List.append_of_mem hmem'
  exact accepted_nonces_ne hsigns hrun hne hlog hlog' heq

end Schedule
end Chain

section Sample
variable {crypto : Crypto} {config : X402Config}

/-- What follows a served payment when its submission is accepted. -/
def settledEvents (payload : PaymentPayload) : List Event :=
  let hash : H256 := 0xa11ce
  let receipt : TxReceipt := {
    status := true
    blockNumber := 9
    logs := [{
      address := sampleConfig.facilitatorAddress
      topics := [paymentSettledTopic sampleCrypto, BitVec.ofNat 256 payload.«from».toNat,
        BitVec.ofNat 256 sampleConfig.treasury.toNat]
      data := wordBytes 32 payload.value ++ wordBytes 32 (0 : U256) ++
        wordBytes 32 payload.nonce }] }
  [⟨.waitForReceipt hash 10, .ok receipt⟩,
    ⟨.onSettled ⟨payload.«from», payload.value, 0, payload.nonce, hash, 9⟩, ()⟩]

def submitEvents (payload : PaymentPayload) (n : UInt64) (answer : Except X402Error H256) :
    List Event :=
  [⟨.sendRawTx (sampleRaw payload n), ()⟩, ⟨.txAnswer (sampleRaw payload n), answer⟩]

def readEvent (n : UInt64) : Event := ⟨.getNonce sampleConfig.operatorAddress, .ok n⟩

/-- Two challenges and two served payments, before either settles. -/
def servedTrace : List (Nat × Event) :=
  (challengeEvents samplePayment.nonce).map (0, ·) ++
    (challengeEvents secondPayment.nonce).map (1, ·) ++
    (serveEvents samplePayment).map (2, ·) ++ (serveEvents secondPayment).map (3, ·)

def twoJobs : List Request :=
  [requestWith none, requestWith none, requestWith (some sampleHeader),
    requestWith (some secondHeader)]

/-- Both requests read the count before either submits. -/
def overlappingTrace : List (Nat × Event) :=
  servedTrace ++ [(2, readEvent 0), (3, readEvent 0)] ++
    (submitEvents samplePayment 0 (.ok 0xa11ce)).map (2, ·) ++
    (submitEvents secondPayment 0 (.error (.rpcError "nonce too low"))).map (3, ·) ++
    (settledEvents samplePayment).map (2, ·) ++
    [(3, ⟨.onRejected (rejectedEvent (.rpcError "nonce too low") (some secondPayment.«from»)),
      ()⟩)]

/-- The second request reads the count after the first submission was answered. -/
def sequentialTrace : List (Nat × Event) :=
  servedTrace ++ [(2, readEvent 0)] ++ (submitEvents samplePayment 0 (.ok 0xa11ce)).map (2, ·) ++
    (settledEvents samplePayment).map (2, ·) ++ [(3, readEvent 1)] ++
    (submitEvents secondPayment 1 (.ok 0xa11ce)).map (3, ·) ++
    (settledEvents secondPayment).map (3, ·)

/-- The outcome of a run against the chain: the requests, whether each came to its end, and
the log. -/
def honestOutcome (events : List (Nat × Event)) :
    Option (List (Request × Bool) × List (Nat × Event)) :=
  ((layer sampleCrypto sampleConfig).run (fun s a => decide (HonestStep 0 s a))
    ((layer sampleCrypto sampleConfig).init .empty) (System.script twoJobs events)).map
      fun s => (s.tasks.map fun k => (k.job, (k.prog.bind Prog.result?).isSome), s.log)

theorem signs_of_key (hkey : crypto.signingKey config.operatorSecret = .ok ())
    (hsign : ∀ h, ∃ sig, crypto.signPrehash config.operatorSecret h = .ok sig) :
    Signs crypto config := by
  intro tx
  obtain ⟨sig, hsig⟩ := hsign (crypto.keccak256 (encodeUnsignedRlp tx))
  simp only [signSettlementTx, hkey, hsig]
  exact ⟨_, rfl⟩

theorem sample_signs : Signs sampleCrypto sampleConfig :=
  signs_of_key rfl fun _ => ⟨_, rfl⟩

theorem done_of_outcome {events : List (Nat × Event)}
    (h : honestOutcome events = some (twoJobs.map (·, true), events.reverse)) :
    ∃ s, HonestRun sampleCrypto sampleConfig 0 s ∧ s.log = events.reverse ∧
      ∀ t, PaidServed (System.trace s.log t) →
        ∃ req r, s.tasks[t]? = some ⟨req, some (.ret r)⟩ := by
  obtain ⟨s, hs, heq⟩ := Option.map_eq_some_iff.1 h
  obtain ⟨htasks, hlog⟩ := Prod.mk.inj heq
  have hrun : HonestRun sampleCrypto sampleConfig 0 s :=
    .of_run (fun _ _ h => of_decide_eq_true h) hs
  refine ⟨s, hrun, hlog, ?_⟩
  rintro t ⟨⟨paid, hpaid⟩, _⟩
  have hlt := System.Reach.log_lt hrun (System.mem_trace.1 hpaid)
  have hmem : (s.tasks[t].job, (s.tasks[t].prog.bind Prog.result?).isSome) ∈
      twoJobs.map (·, true) := by
    rw [← htasks]
    exact List.mem_map_of_mem (List.getElem_mem hlt)
  obtain ⟨_, _, hdone⟩ := List.mem_map.1 hmem
  obtain ⟨r, hr⟩ := Option.isSome_iff_exists.1 (Prod.mk.inj hdone).2.symm
  obtain ⟨p, hp, hret⟩ := Option.bind_eq_some_iff.1 hr
  refine ⟨s.tasks[t].job, r, ?_⟩
  rw [List.getElem?_eq_getElem hlt, ← Prog.result?_eq_some.1 hret, ← hp]

theorem sequential_honest :
    honestOutcome sequentialTrace = some (twoJobs.map (·, true), sequentialTrace.reverse) := by
  decide +kernel

theorem overlapping_honest :
    honestOutcome overlappingTrace = some (twoJobs.map (·, true), overlappingTrace.reverse) := by
  decide +kernel

theorem allSettled_iff_readsAlone_sequential :
    ∃ s, HonestRun sampleCrypto sampleConfig 0 s ∧ s.log = sequentialTrace.reverse ∧
      (AllSettled s ↔ ReadsAlone s.log) := by
  obtain ⟨s, hrun, hlog, hdone⟩ := done_of_outcome sequential_honest
  exact ⟨s, hrun, hlog, allSettled_iff_readsAlone sample_signs hrun hdone⟩

/-- Two served payments, one of which is never settled: both were submitted with nonce 0. -/
theorem served_payment_unsettled :
    ∃ s, HonestRun sampleCrypto sampleConfig 0 s ∧
      (∀ t, PaidServed (System.trace s.log t) →
        ∃ req r, s.tasks[t]? = some ⟨req, some (.ret r)⟩) ∧
      PaidServed (System.trace s.log 3) ∧
      (∀ raw hash, (3, (⟨.txAnswer raw, .ok hash⟩ : Event)) ∉ s.log) ∧
      (2, (⟨.sendRawTx (sampleRaw samplePayment 0), ()⟩ : Event)) ∈ s.log ∧
      (3, (⟨.sendRawTx (sampleRaw secondPayment 0), ()⟩ : Event)) ∈ s.log ∧
      accountNonce (sampleRaw samplePayment 0) = accountNonce (sampleRaw secondPayment 0) := by
  obtain ⟨s, hrun, hlog, hdone⟩ := done_of_outcome overlapping_honest
  have hin : ∀ x ∈ overlappingTrace, x ∈ s.log := fun x hx => by
    rw [hlog]
    exact List.mem_reverse.2 hx
  refine ⟨s, hrun, hdone, ⟨⟨paidMarker secondPayment, ?_⟩, ⟨200, .served "ok"⟩, ?_, rfl⟩, ?_, ?_,
    ?_, ?_⟩
  · exact System.mem_trace.2 (hin _ (by simp [overlappingTrace, servedTrace, serveEvents]))
  · exact System.mem_trace.2 (hin _ (by simp [overlappingTrace, servedTrace, serveEvents]))
  · intro raw hash hmem
    rw [hlog, List.mem_reverse] at hmem
    have hnone : overlappingTrace.all (fun x => !(x.1 == 3 && isAccepted x.2)) = true := by
      decide +kernel
    have := List.all_eq_true.1 hnone _ hmem
    simp [isAccepted] at this
  · exact hin _ (by simp [overlappingTrace, submitEvents])
  · exact hin _ (by simp [overlappingTrace, submitEvents])
  · decide +kernel

end Sample
end X402
