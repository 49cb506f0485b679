import CitrateGateway.X402.Requests

/-!
# Settlement implies service

What one request promises about its own past, the invariant of the shared ledger, and from
both the guarantee for every interleaving of requests: each settlement follows a served 2xx
response of its own request, pays for that request, and uses up one issued nonce.
-/

namespace X402
set_option autoImplicit false
open Words Effects

section Promise
variable (crypto : Crypto) (config : X402Config)

/-- An accepted payment was served with a 2xx response. -/
structure Served (req : Request) (h : List Event) (body : Bytes) (price : U256)
    (payload : PaymentPayload) (response : Response) : Prop where
  accepted : Accepted crypto config req h body price payload
  reached : ⟨.innerCall (some (paidMarker payload)), ()⟩ ∈ h
  answered : ⟨.innerResponse, .ok response⟩ ∈ h
  success : response.isSuccess = true

def Op.isSend : Op → Bool
  | .sendRawTx _ => true
  | _ => false

theorem Op.isSend_of_preliminary (o : Op) (h : o.isPreliminary = true) : o.isSend = false := by
  cases o <;> first | rfl | simp [isPreliminary] at h

/-- What a request promises of each operation, given its own past. -/
def Duty (req : Request) (h : List Event) (e : Event) : Prop :=
  match e.1 with
  | .innerCall (some paid) =>
    h.countP (·.1.isPaidCall) = 0 ∧
      ∃ body price payload, Accepted crypto config req h body price payload ∧
        paid = paidMarker payload
  | .sendRawTx raw =>
    h.countP (·.1.isSend) = 0 ∧
      ∃ body price payload response opNonce,
        Served crypto config req h body price payload response ∧
        ⟨.getNonce config.operatorAddress, .ok opNonce⟩ ∈ h ∧
        signSettlementTx crypto (settlementTx crypto config payload opNonce)
          config.operatorSecret = .ok raw
  | .recordBound nonce commitment _ _ =>
    h.countP (·.1.isRecord) = 0 ∧ ⟨.nextNonce, .ok nonce⟩ ∈ h ∧
      ∃ body, ⟨.bufferRequestBody, .ok body⟩ ∈ h ∧
        commitment = requestCommitment crypto req.line body
  | _ => True

variable {crypto config}

theorem Served.mono {req : Request} {h h' : List Event} {body : Bytes} {price : U256}
    {payload : PaymentPayload} {response : Response}
    (hs : Served crypto config req h body price payload response) (hsub : h ⊆ h') :
    Served crypto config req h' body price payload response :=
  ⟨hs.accepted.mono hsub, hsub hs.reached, hsub hs.answered, hs.success⟩

abbrev AnyEvent : Event → Prop := fun _ => True

variable {req : Request} {h : List Event}

theorem settlePaidPath_meets {price : U256} {body : Bytes} {payload : PaymentPayload}
    {response : Response} (hsend : h.countP (·.1.isSend) = 0)
    (hserved : Served crypto config req h body price payload response) :
    (settlePaidPath crypto config payload price).Meets AnyEvent (Duty crypto config req)
      (fun _ _ => True) h := by
  refine Prog.meets_perform_bind.2 fun nonceAnswer _ => ⟨trivial, ?_⟩
  cases nonceAnswer with
  | error e => trivial
  | ok opNonce =>
    simp only
    cases hsign : signSettlementTx crypto (settlementTx crypto config payload opNonce)
        config.operatorSecret with
    | error e => trivial
    | ok raw =>
      simp only [sendRawTx, Prog.bind_assoc]
      refine Prog.meets_perform_bind.2 fun _ _ =>
        ⟨⟨?_, body, price, payload, response, opNonce, ?_, by simp, hsign⟩, ?_⟩
      · simpa [Op.isSend] using hsend
      · exact hserved.mono (List.subset_cons_self _ _)
      · refine Prog.meets_perform_bind.2 fun txAnswer _ => ⟨trivial, ?_⟩
        cases txAnswer with
        | error e => trivial
        | ok txHash =>
          refine Prog.meets_perform_bind.2 fun receiptAnswer _ => ⟨trivial, ?_⟩
          cases receiptAnswer with
          | error e => trivial
          | ok receipt =>
            simp only
            split
            · trivial
            · split
              · trivial
              · split <;> trivial

theorem serveThenSettle_meets {price : U256} {body : Bytes} {payload : PaymentPayload}
    (hp : Preliminary h) (hacc : Accepted crypto config req h body price payload) :
    (serveThenSettle crypto config payload price).Meets AnyEvent (Duty crypto config req)
      (fun _ _ => True) h := by
  simp only [serveThenSettle, innerCall, Prog.bind_assoc]
  refine Prog.meets_perform_bind.2 fun _ _ =>
    ⟨⟨hp.countP_eq_zero Op.isPaidCall_of_preliminary, body, price, payload, hacc, rfl⟩, ?_⟩
  refine Prog.meets_perform_bind.2 fun answer _ => ⟨trivial, ?_⟩
  cases answer with
  | error e => trivial
  | ok response =>
    simp only
    split
    · rename_i hsuccess
      have hserved : Served crypto config req
          (⟨.innerResponse, .ok response⟩ :: ⟨.innerCall (some (paidMarker payload)), ()⟩ :: h)
          body price payload response := {
        accepted := hacc.mono fun e he => by simp [he]
        reached := by simp
        answered := by simp
        success := hsuccess }
      refine Prog.Meets.bind (settlePaidPath_meets ?_ hserved) ?_
      · simpa [Op.isSend] using hp.countP_eq_zero Op.isSend_of_preliminary
      · intro h' settled _
        cases settled with
        | error err =>
          intro _ _
          exact ⟨trivial, trivial⟩
        | ok event =>
          intro _ _
          exact ⟨trivial, trivial⟩
    · trivial

theorem duty_of_not_committing {e : Event} (he : e.1.isCommitting = false) :
    Duty crypto config req h e := by
  obtain ⟨o, a⟩ := e
  cases o with
  | innerCall inserted =>
    cases inserted with
    | none => trivial
    | some paid => simp [Op.isCommitting] at he
  | _ => trivial

/-- Every request keeps its promise, whatever it is answered. -/
theorem call_duty (req : Request) :
    (call crypto config req).Meets AnyEvent (Duty crypto config req) (fun _ _ => True) [] :=
  call_meets (fun _ _ he _ _ => duty_of_not_committing he)
    (fun _ _ body _ _ hnone hminted hbody => ⟨hnone, hminted, body, hbody, rfl⟩)
    (fun _ _ _ => trivial)
    (fun _ => bypass_meets (fun _ _ => duty_of_not_committing) fun _ _ _ => trivial)
    fun _ _ _ _ => serveThenSettle_meets

def contract : System.Contract (layer crypto config) where
  rely := AnyEvent
  guar := Duty crypto config
  post := fun _ _ _ => True
  meets := call_duty

end Promise

section Ledger
variable {crypto : Crypto} {config : X402Config}

/-- The states of one layer that starts with an empty ledger. -/
abbrev Run (crypto : Crypto) (config : X402Config) :=
  System.Reach (layer crypto config) (fun _ _ => True) ((layer crypto config).init .empty)

theorem served : (@contract crypto config).Served fun _ _ => True :=
  fun _ _ _ _ _ _ _ _ => trivial

def mints (n : H256) : Event → Bool
  | ⟨.nextNonce, .ok nonce⟩ => nonce = n
  | _ => false

def issues (n : H256) : Event → Bool
  | ⟨.recordBound nonce _ _ _, _⟩ => nonce = n
  | _ => false

def consumes (n : H256) : Event → Bool
  | ⟨.consumeBound nonce _ _, .ok _⟩ => nonce = n
  | _ => false

/-- The inner service is reached on the strength of a payment with this nonce. -/
def paidCalls (n : H256) : Event → Bool
  | ⟨.innerCall (some paid), _⟩ => paid.nonce = n
  | _ => false

/-- What an operation does to the shared ledger. -/
inductive LedgerStep (config : X402Config) (st : LedgerState) : Event → LedgerState → Prop where
  | consume (nonce commitment : H256) (now : UInt64) :
      LedgerStep config st
        ⟨.consumeBound nonce commitment now, (st.consumeBound nonce commitment now).1⟩
        (st.consumeBound nonce commitment now).2
  | record (nonce commitment : H256) (expiresAt now : UInt64) :
      LedgerStep config st ⟨.recordBound nonce commitment expiresAt now, ()⟩
        (st.recordBound config.maxOutstanding nonce commitment expiresAt now)
  | other (e : Event) (hconsume : ∀ n, consumes n e = false) (hissue : ∀ n, issues n e = false) :
      LedgerStep config st e st

theorem handle_cases {st st' : LedgerState} {o : Op} {c : Event} {a : o.Ans}
    (h : handle config st o c = some (a, st')) : LedgerStep config st ⟨o, a⟩ st' := by
  cases o with
  | consumeBound nonce commitment now =>
    simp only [handle, Option.some.injEq, Prod.ext_iff] at h
    obtain ⟨rfl, rfl⟩ := h
    exact .consume nonce commitment now
  | recordBound nonce commitment expiresAt now =>
    simp only [handle, Option.some.injEq] at h
    cases h
    exact .record nonce commitment expiresAt now
  | _ =>
    simp only [handle, Option.map_eq_some_iff] at h
    obtain ⟨b, _, hb⟩ := h
    cases hb
    exact .other _ (fun _ => rfl) (fun _ => rfl)

/-- The ledger and the log agree: what is outstanding was issued, and a nonce that is
outstanding has been issued more often than consumed. -/
structure LedgerInv (st : LedgerState) (log : List (Nat × Event)) : Prop where
  issued : ∀ n e, st.entries.lookup n = some e →
    ∃ u now, (u, ⟨.recordBound n e.requestCommitment e.expiresAt now, ()⟩) ∈ log
  counts : ∀ n, log.countP (consumes n ·.2) + (if (st.entries.lookup n).isSome then 1 else 0) ≤
    log.countP (issues n ·.2)

theorem LedgerInv.step {st st' : LedgerState} {log : List (Nat × Event)} {t : Nat} {e : Event}
    (hinv : LedgerInv st log) (h : LedgerStep config st e st') : LedgerInv st' ((t, e) :: log) := by
  cases h with
  | consume nonce commitment now =>
    have hwithin := st.consumeBound_within nonce commitment now
    constructor
    · intro n entry hn
      obtain ⟨u, now', hmem⟩ := hinv.issued n entry (hwithin n entry hn)
      exact ⟨u, now', List.mem_cons_of_mem _ hmem⟩
    · intro n
      have hold := hinv.counts n
      have hnot : issues n ⟨.consumeBound nonce commitment now,
          (st.consumeBound nonce commitment now).1⟩ = false := rfl
      rw [List.countP_cons, List.countP_cons, hnot]
      have hkept : (if ((st.consumeBound nonce commitment now).2.entries.lookup n).isSome
          then 1 else 0) ≤ if (st.entries.lookup n).isSome then 1 else 0 := by
        cases hl : (st.consumeBound nonce commitment now).2.entries.lookup n with
        | none => simp
        | some entry => simp [hwithin n entry hl]
      by_cases hc : consumes n ⟨.consumeBound nonce commitment now,
          (st.consumeBound nonce commitment now).1⟩ = true
      · cases hans : st.consumeBound nonce commitment now with
        | mk answer st₁ =>
          rw [hans] at hc hkept
          cases answer with
          | error err => simp [consumes] at hc
          | ok u =>
            have hn := hc
            simp only [consumes, decide_eq_true_eq] at hn
            subst hn
            obtain ⟨⟨entry, hentry, _, _⟩, hgone⟩ := LedgerState.consumeBound_ok hans
            simp only [hentry, hgone, hc, if_true, Option.isSome_some, Option.isSome_none,
              Bool.false_eq_true, if_false] at hold ⊢
            omega
      · rw [if_neg hc]
        simp only [Bool.false_eq_true, if_false]
        omega
  | record nonce commitment expiresAt now =>
    constructor
    · intro n entry hn
      rcases LedgerState.lookup_of_recordBound hn with hold | ⟨rfl, hcommit, hexp⟩
      · obtain ⟨u, now', hmem⟩ := hinv.issued n entry hold
        exact ⟨u, now', List.mem_cons_of_mem _ hmem⟩
      · exact ⟨t, now, by simp [hcommit, hexp]⟩
    · intro n
      have hold := hinv.counts n
      have hnot : consumes n ⟨.recordBound nonce commitment expiresAt now, ()⟩ = false := rfl
      rw [List.countP_cons, List.countP_cons, hnot]
      by_cases hn : nonce = n
      · subst hn
        have hyes : issues nonce ⟨.recordBound nonce commitment expiresAt now, ()⟩ = true := by
          simp [issues]
        simp only [hyes, if_true, Bool.false_eq_true, if_false]
        split <;> omega
      · have hkept : (if ((st.recordBound config.maxOutstanding nonce commitment expiresAt
            now).entries.lookup n).isSome then 1 else 0) ≤
            if (st.entries.lookup n).isSome then 1 else 0 := by
          cases hl : (st.recordBound config.maxOutstanding nonce commitment expiresAt
            now).entries.lookup n with
          | none => simp
          | some entry =>
            rcases LedgerState.lookup_of_recordBound hl with h | ⟨h, _⟩
            · simp [h]
            · exact absurd h.symm hn
        simp only [Bool.false_eq_true, if_false]
        omega
  | other e hconsume hissue =>
    constructor
    · intro n entry hn
      obtain ⟨u, now', hmem⟩ := hinv.issued n entry hn
      exact ⟨u, now', List.mem_cons_of_mem _ hmem⟩
    · intro n
      have hold := hinv.counts n
      rw [List.countP_cons, List.countP_cons, if_neg (by simp [hconsume n])]
      omega

variable {s : (layer crypto config).State}

theorem ledger_inv (hrun : Run crypto config s) : LedgerInv s.shared s.log := by
  apply hrun.invariant fun s => LedgerInv s.shared s.log
  · exact ⟨fun n e h => by simp [System.init, LedgerState.empty] at h, fun n => by
      simp [System.init, LedgerState.empty]⟩
  · intro s s' a hr hinv _ hstep
    cases hstep with
    | start j sh hstart =>
      cases hstart
      exact hinv
    | exec t c j o k b sh htask hhandle =>
      have hstep := hinv.step (t := t) (handle_cases hhandle)
      have hsettle : (layer crypto config).settle t (k b) sh = sh := by
        unfold System.settle
        split <;> rfl
      simpa only [System.State.advance, hsettle] using hstep
    | drop t j o k htask => exact hinv
    | world w sh hworld => exact w.elim

/-- A nonce is consumed only while it is live, and only for the commitment it was issued with. -/
theorem issued_of_consumed (hrun : Run crypto config s) {late early : List (Nat × Event)}
    {t : Nat} {nonce commitment : H256} {now : UInt64}
    (hlog : s.log = late ++ (t, ⟨.consumeBound nonce commitment now, .ok ()⟩) :: early) :
    ∃ u expiresAt issuedAt, now < expiresAt ∧
      (u, ⟨.recordBound nonce commitment expiresAt issuedAt, ()⟩) ∈ early := by
  obtain ⟨s₁, c, j, k, sh, hr, rfl, _, _, hhandle, _⟩ := System.Reach.event hrun hlog
  have hans : s₁.shared.consumeBound nonce commitment now = (.ok (), sh) := by
    simpa [layer, handle] using hhandle
  obtain ⟨⟨entry, hentry, hlive, rfl⟩, _⟩ := LedgerState.consumeBound_ok hans
  obtain ⟨u, issuedAt, hmem⟩ := (ledger_inv hr).issued nonce entry hentry
  exact ⟨u, entry.expiresAt, issuedAt, hlive, hmem⟩

section Counts

theorem countP_pos_of_mem {p : Event → Bool} {l : List Event} {e : Event} (he : e ∈ l)
    (hp : p e = true) : 0 < l.countP p := List.countP_pos_iff.2 ⟨e, he, hp⟩

theorem countP_zero_of_imp {p q : Event → Bool} {l : List Event} (h : l.countP q = 0)
    (himp : ∀ e, p e = true → q e = true) : l.countP p = 0 := by
  rw [List.countP_eq_zero] at h ⊢
  exact fun e he hp => h e he (himp e hp)

theorem paidCalls_le_consumes (hrun : Run crypto config s) (n : H256) :
    s.log.countP (paidCalls n ·.2) ≤ s.log.countP (consumes n ·.2) := by
  apply hrun.countP_le contract served
  intro req past e hduty hp
  match e, hp with
  | ⟨.innerCall (some paid), _⟩, hp =>
    obtain ⟨hnone, body, price, payload, hacc, rfl⟩ := hduty
    obtain ⟨now, hmem⟩ := hacc.consumed
    have hn : payload.nonce = n := of_decide_eq_true hp
    have hzero : past.countP (paidCalls n) = 0 := by
      apply countP_zero_of_imp hnone
      rintro ⟨o, a⟩ ho
      cases o with
      | innerCall inserted => cases inserted <;> simp_all [paidCalls, Op.isPaidCall]
      | _ => simp [paidCalls] at ho
    rw [hzero]
    exact countP_pos_of_mem hmem (by simp [consumes, hn])

theorem issues_le_mints (hrun : Run crypto config s) (n : H256) :
    s.log.countP (issues n ·.2) ≤ s.log.countP (mints n ·.2) := by
  apply hrun.countP_le contract served
  intro req past e hduty hp
  match e, hp with
  | ⟨.recordBound nonce commitment expiresAt now, _⟩, hp =>
    obtain ⟨hnone, hmem, _⟩ := hduty
    have hn : nonce = n := of_decide_eq_true hp
    have hzero : past.countP (issues n) = 0 := by
      apply countP_zero_of_imp hnone
      rintro ⟨o, a⟩ ho
      cases o <;> first | rfl | simp [issues] at ho
    rw [hzero]
    exact countP_pos_of_mem hmem (by simp [mints, hn])

theorem paidCalls_le_mints (hrun : Run crypto config s) (n : H256) :
    s.log.countP (paidCalls n ·.2) ≤ s.log.countP (mints n ·.2) := by
  have hissued : s.log.countP (consumes n ·.2) ≤ s.log.countP (issues n ·.2) :=
    Nat.le_of_add_right_le ((ledger_inv hrun).counts n)
  exact (paidCalls_le_consumes hrun n).trans (hissued.trans (issues_le_mints hrun n))

/-- Whether the header of request `t` carries a payment with nonce `n`. -/
def paysWith (crypto : Crypto) {config : X402Config} (s : (layer crypto config).State) (n : H256)
    (t : Nat) : Bool :=
  match (s.job t).bind Request.paymentHeader with
  | none => false
  | some value =>
    match decode crypto value with
    | .error _ => false
    | .ok payload => payload.nonce = n

theorem paysWith_of_accepted {t : Nat} {req : Request} {h : List Event} {body : Bytes}
    {price : U256} {payload : PaymentPayload} (hjob : s.job t = some req)
    (hacc : Accepted crypto config req h body price payload) (n : H256) :
    paysWith crypto s n t = decide (payload.nonce = n) := by
  obtain ⟨value, hvalue, hdecode⟩ := hacc.header
  simp [paysWith, hjob, hvalue, hdecode]

/-- A request settles at most once, and only with the payment it was served for. -/
theorem settles_le_paidCalls (hrun : Run crypto config s) (n : H256) :
    s.log.countP (fun x => x.2.1.isSend && paysWith crypto s n x.1) ≤
      s.log.countP (paidCalls n ·.2) := by
  apply System.countP_le_of_traces (p := fun t (e : Event) => e.1.isSend && paysWith crypto s n t)
    (q := fun _ => paidCalls n)
  intro t
  have hguar : ∀ late e early, System.trace s.log t = late ++ e :: early → e.1.isSend = true →
      ∃ req, s.job t = some req ∧ Duty crypto config req early e := by
    intro late e early hl _
    obtain ⟨late', early', hlog, rfl⟩ := System.trace_split hl
    obtain ⟨req, hjob, _, hduty⟩ := System.Reach.guar contract served hrun hlog
    exact ⟨req, hjob, hduty⟩
  have hone : (System.trace s.log t).countP (·.1.isSend) ≤ 1 := by
    apply System.countP_le_one
    intro late e early hl hsend
    obtain ⟨req, _, hduty⟩ := hguar late e early hl hsend
    match e, hsend, hduty with
    | ⟨.sendRawTx raw, _⟩, _, hduty => exact hduty.1
  by_cases hpays : paysWith crypto s n t = true
  · simp only [hpays, Bool.and_true]
    rcases Nat.eq_zero_or_pos ((System.trace s.log t).countP (·.1.isSend)) with hzero | hpos
    · exact hzero.le.trans (Nat.zero_le _)
    · obtain ⟨e, he, hsend⟩ := List.countP_pos_iff.1 hpos
      obtain ⟨late, early, hl⟩ := List.append_of_mem he
      obtain ⟨req, hjob, hduty⟩ := hguar late e early hl hsend
      match e, hsend, hduty with
      | ⟨.sendRawTx raw, _⟩, _, hduty =>
        obtain ⟨_, body, price, payload, response, opNonce, hserved, _, _⟩ := hduty
        rw [paysWith_of_accepted hjob hserved.accepted, decide_eq_true_eq] at hpays
        have hreached : ⟨.innerCall (some (paidMarker payload)), ()⟩ ∈
            System.trace s.log t := by
          rw [hl]
          simp [hserved.reached]
        exact hone.trans (countP_pos_of_mem (p := paidCalls n) hreached
          (by simp [paidCalls, paidMarker, hpays]))
  · simp [hpays]

end Counts

section Guarantee

/-- The commitment tells apart the requests of the run. -/
def CommitmentsDistinct (crypto : Crypto) {config : X402Config}
    (s : (layer crypto config).State) : Prop :=
  ∀ t u req req' body body', s.job t = some req → s.job u = some req' →
    (t, ⟨.bufferRequestBody, .ok body⟩) ∈ s.log →
    (u, ⟨.bufferRequestBody, .ok body'⟩) ∈ s.log →
    requestCommitment crypto req.line body = requestCommitment crypto req'.line body' →
    req.line = req'.line ∧ body = body'

/-- Request `t` used up, before it expired, a nonce that this layer had issued to an equal
request `u`. -/
structure UsesIssued (crypto : Crypto) {config : X402Config} (s : (layer crypto config).State)
    (early : List (Nat × Event)) (t : Nat) (req : Request) (body : Bytes) (nonce : H256)
    (u : Nat) (issuer : Request) (issuedAt expiresAt consumedAt : UInt64) : Prop where
  job : s.job u = some issuer
  sameLine : issuer.line = req.line
  sameBody : (u, ⟨.bufferRequestBody, .ok body⟩) ∈ early
  minted : (u, ⟨.nextNonce, .ok nonce⟩) ∈ early
  issued : (u, ⟨.recordBound nonce (requestCommitment crypto req.line body) expiresAt issuedAt,
    ()⟩) ∈ early
  consumed : (t, ⟨.consumeBound nonce (requestCommitment crypto req.line body) consumedAt,
    .ok ()⟩) ∈ early
  live : consumedAt < expiresAt

theorem usesIssued_of_accepted (hrun : Run crypto config s)
    (hcommit : CommitmentsDistinct crypto s) {late early : List (Nat × Event)}
    (hlog : s.log = late ++ early) {t : Nat} {req : Request} {body : Bytes} {price : U256}
    {payload : PaymentPayload} (hjob : s.job t = some req)
    (hacc : Accepted crypto config req (System.trace early t) body price payload) :
    ∃ u issuer issuedAt expiresAt consumedAt,
      UsesIssued crypto s early t req body payload.nonce u issuer issuedAt expiresAt
        consumedAt := by
  obtain ⟨consumedAt, hconsumed⟩ := hacc.consumed
  have hconsumed := System.mem_trace.1 hconsumed
  obtain ⟨mid, first, rfl⟩ := List.append_of_mem hconsumed
  have hlogConsume : s.log = (late ++ mid) ++ (t, ⟨.consumeBound payload.nonce
      (requestCommitment crypto req.line body) consumedAt, .ok ()⟩) :: first := by
    rw [hlog, List.append_assoc]
  obtain ⟨u, expiresAt, issuedAt, hlive, hissued⟩ := issued_of_consumed hrun hlogConsume
  obtain ⟨mid', first', hfirst⟩ := List.append_of_mem hissued
  have hlogIssue : s.log = (late ++ mid ++ (t, ⟨.consumeBound payload.nonce
      (requestCommitment crypto req.line body) consumedAt, .ok ()⟩) :: mid') ++
        (u, ⟨.recordBound payload.nonce (requestCommitment crypto req.line body) expiresAt
          issuedAt, ()⟩) :: first' := by
    rw [hlogConsume, hfirst]
    simp
  obtain ⟨issuer, hissuer, _, hduty⟩ := System.Reach.guar contract served hrun hlogIssue
  obtain ⟨_, hminted, body', hbody', hsame⟩ := hduty
  have hminted := System.mem_trace.1 hminted
  have hbody' := System.mem_trace.1 hbody'
  have hbody := System.mem_trace.1 hacc.buffered
  obtain ⟨hline, hbodies⟩ := hcommit t u req issuer body body' hjob hissuer
    (by rw [hlog]; exact List.mem_append_right _ hbody)
    (by rw [hlog, hfirst]; simp [hbody']) hsame
  subst hbodies
  exact ⟨u, issuer, issuedAt, expiresAt, consumedAt, hissuer, hline.symm,
    by rw [hfirst]; simp [hbody'], by rw [hfirst]; simp [hminted],
    List.mem_append_right _ (List.mem_cons_of_mem _ hissued), hconsumed, hlive⟩

/-- Every submitted settlement was earned by its own request, and no issued nonce serves or
settles twice. -/
theorem settle_implies_serve (hrun : Run crypto config s)
    (hmint : ∀ n, s.log.countP (mints n ·.2) ≤ 1) (hcommit : CommitmentsDistinct crypto s) :
    (∀ late t raw early, s.log = late ++ (t, ⟨.sendRawTx raw, ()⟩) :: early →
      ∃ req body price payload response opNonce,
        s.job t = some req ∧
        Served crypto config req (System.trace early t) body price payload response ∧
        signSettlementTx crypto (settlementTx crypto config payload opNonce)
          config.operatorSecret = .ok raw ∧
        ∃ u issuer issuedAt expiresAt consumedAt,
          UsesIssued crypto s early t req body payload.nonce u issuer issuedAt expiresAt
            consumedAt) ∧
    (∀ n, s.log.countP (paidCalls n ·.2) ≤ 1) ∧
    (∀ n, s.log.countP (fun x => x.2.1.isSend && paysWith crypto s n x.1) ≤ 1) := by
  refine ⟨?_, ?_, ?_⟩
  · intro late t raw early hlog
    obtain ⟨req, hjob, _, hduty⟩ := System.Reach.guar contract served hrun hlog
    obtain ⟨_, body, price, payload, response, opNonce, hserved, _, hsigned⟩ := hduty
    refine ⟨req, body, price, payload, response, opNonce, hjob, hserved, hsigned, ?_⟩
    have hlog' : s.log = (late ++ [(t, ⟨.sendRawTx raw, ()⟩)]) ++ early := by
      rw [hlog]
      simp
    exact usesIssued_of_accepted hrun hcommit hlog' hjob hserved.accepted
  · intro n
    exact (paidCalls_le_mints hrun n).trans (hmint n)
  · intro n
    exact ((settles_le_paidCalls hrun n).trans (paidCalls_le_mints hrun n)).trans (hmint n)

end Guarantee
end Ledger

section Sample

/-- The Keccak-256 digests of the messages hashed below. -/
def sampleDigests : List ((Nat × Nat) × H256) :=
  [((60, 14186), 0x78f0bbcca6f1854e24515a56920f8327d2cb0c55f3a618a3529097689b44774c),
   ((82, 21951), 0x8b73c3c69bb8fe3d512ecc4cf759cc79239f7b179b0ffacaa9a75d522b39400f),
   ((12, 34323), 0x2cbd45b14621663bba7ea806ea14c147f0e5c4571714e1bb0988c0c23d018fe1),
   ((1, 49), 0xc89efdaa54c0f20c7adf612882df0950f5a951637e0307cdcb4c672f298b8bc6),
   ((160, 13), 0xd2216448ec4072557d168180b8d1488440dd51ee373d77f60053fda684cb2497),
   ((117, 27713), 0x7c7c6cdb67a18743f49ec6fa9b35f50d52ed05cbed4cc592e13b44501c1a2267),
   ((224, 54253), 0x330c4506fb8c5958fb20735ffd47fcbdbbc9cd176216beed0c38364a47e7aa77),
   ((66, 65103), 0x9ba8270bda57ddc70c31acac3cbf6dfe13ef27eab41fb604cd87dff81b7ca4ac),
   ((224, 24862), 0x5ddd8c79ed731bd6028bbb7320e8cf06bc44ff721acb462c4f641b6c0fb239cd),
   ((66, 47281), 0xa09a0bc2f680741e0e948e2011c525b2320c02104400411ecc4db9faf14b4b08),
   ((84, 34157), 0x2efcd4ed84b13b4bee2fbe85637cc75fb18f51e0a2dd52b10c065022c57f7605),
   ((55, 62901), 0x7fe6f3a0647e377af326ee091269f54956c4e1b3c8cd74eb797dc29e61705089),
   ((335, 59463), 0x486c7c2e52c38a732710b447e7db51a49eb3a8e99a7aa28ff8a0cfcc1745de9e),
   ((335, 46018), 0x75bf674010205c36987f12da3dc1ce0b0e1fedf188f8a4b36910f18ba6ffa421),
   ((335, 30556), 0xa9e2db415c68c04b34768720b7596150f00cc956f7b15ff7eec2a1f83256f0d8)]

/-- The operator's signatures of the settlement transactions below. -/
def sampleSignatures : List (H256 × UInt8 × H256 × H256) :=
  [(0x486c7c2e52c38a732710b447e7db51a49eb3a8e99a7aa28ff8a0cfcc1745de9e, 0,
     0x13bca2803be45cfd64018c9b8b1575d3b562d9883f35c9383dd5e5dbf6bc12a4,
     0x60b232a12b19eca7ed982cb33fc1079592faedccf4e4f15913589c1737d74613),
   (0x75bf674010205c36987f12da3dc1ce0b0e1fedf188f8a4b36910f18ba6ffa421, 1,
     0x325e199e1aea8a46995db63318ff64048c753703922d1bc00b0efbdaf7b2f8ee,
     0x0d0e6927be6e137133db692cd1a9816be1ff997de72cf2432257f84f263325e2),
   (0xa9e2db415c68c04b34768720b7596150f00cc956f7b15ff7eec2a1f83256f0d8, 0,
     0x45698283a5d7e57e7cc7cd3f94bc8d373093a0b1fdf392abc77cd8dee45a9bd2,
     0x364e5f50813fd170b139136066bf4d803a76938b93841940177c4673fe6ea4b9)]

def samplePayment : PaymentPayload where
  «from» := 0x70997970c51812dc3a010c7d01b50e0d17dc79c8
  «to» := 0x3333333333333333333333333333333333333333
  value := 5
  validAfter := 1714000000
  validBefore := 1714000300
  nonce := 0xd2540aa7576ae60b79cfe41f83bbb90a66b7ee29946c1609a9a88f015f256604
  v := 27
  r := 0x4168d29cc1a778efa44429e1427636a74b0f0ceacc1103ec733c8cd7218977f4
  s := 0x371fd3f4e13efb0f514ce227d6060a772eaf6d1cf9429ae3583fa262d43e13ac

def sampleHeader : Bytes :=
  utf8 "cJl5cMUYEtw6AQx9AbUODRfcecgzMzMzMzMzMzMzMzMzMzMzMzMzMwAAAAAAAAAAAAAAAAAAAAAAAAAA" ++
    utf8 "AAAAAAAAAAAAAAAFAAAAAAAAAAAAAAAAAAAAAAAAAAAAAAAAAAAAAGYpkIAAAAAAAAAAAAAAAAAAAAAA" ++
    utf8 "AAAAAAAAAAAAAAAAZimRrNJUCqdXauYLec_kH4O7uQpmt-4plGwWCamojwFfJWYEG0Fo0pzBp3jvpEQp" ++
    utf8 "4UJ2NqdLDwzqzBED7HM8jNchiXf0Nx_T9OE--w9RTOIn1gYKdy6vbRz5QprjWD-iYtQ-E6w"

def secondPayment : PaymentPayload where
  «from» := 0x3c44cdddb6a900fa2b585dd299e03d12fa4293bc
  «to» := 0x3333333333333333333333333333333333333333
  value := 5
  validAfter := 1714000000
  validBefore := 1714000300
  nonce := 0x15004668b50dde271796a98f2aa792717321c9e549b3efe0cb2b6f6d056e7ad0
  v := 28
  r := 0x07b9a63bc57391ad1b29c27a43f39e8692f1fc85314071d8387f020919d4bdc8
  s := 0x1034c91c14f52a2bf7d2043c2a49a99c4a4bd8f77cd50bc434a634f02fc4763b

def secondHeader : Bytes :=
  utf8 "PETN3bapAPorWF3SmeA9EvpCk7wzMzMzMzMzMzMzMzMzMzMzMzMzMwAAAAAAAAAAAAAAAAAAAAAAAAAA" ++
    utf8 "AAAAAAAAAAAAAAAFAAAAAAAAAAAAAAAAAAAAAAAAAAAAAAAAAAAAAGYpkIAAAAAAAAAAAAAAAAAAAAAA" ++
    utf8 "AAAAAAAAAAAAAAAAZimRrBUARmi1Dd4nF5apjyqnknFzIcnlSbPv4Msrb20FbnrQHAe5pjvFc5GtGynC" ++
    utf8 "ekPznoaS8fyFMUBx2Dh_AgkZ1L3IEDTJHBT1Kiv30gQ8KkmpnEpL2Pd81QvENKY08C_Edjs"

/-- The linked packages, on the inputs of the sample runs. -/
def sampleCrypto : Crypto where
  keccak256 := knownDigest sampleDigests
  base64Decode := fun value =>
    if value = sampleHeader then .ok samplePayment.toBytes
    else if value = secondHeader then .ok secondPayment.toBytes
    else .error "Invalid padding"
  signingKey := fun _ => .ok ()
  signPrehash := fun _ sighash => .ok ((sampleSignatures.lookup sighash).getD (0, 1, 1))

def sampleConfig : X402Config where
  chainId := 40204
  facilitatorAddress := 0x1111111111111111111111111111111111111111
  wsaltAddress := 0x2222222222222222222222222222222222222222
  treasury := 0x3333333333333333333333333333333333333333
  operatorSecret := 0xac0974bec39a17e36ba4a6b4d238ff944bacb478cbed5efcae784d7bf4f2ff80
  operatorAddress := 0xf39fd6e51aad88f6f4ce6ab8827279cfffb92266

def sampleLine : RequestLine := ⟨"POST", "/v1/infer"⟩

def requestWith (header : Option Bytes) : Request := ⟨sampleLine, header, none⟩

def sampleCommitment : H256 := requestCommitment sampleCrypto sampleLine []

/-- The settlement of a payment with an account nonce, signed. -/
def sampleRaw (payload : PaymentPayload) (opNonce : UInt64) : Bytes :=
  (signSettlementTx sampleCrypto (settlementTx sampleCrypto sampleConfig payload opNonce)
    sampleConfig.operatorSecret).toOption.getD []

/-- Request `t` is unpaid and is issued `nonce`. -/
def challengeEvents (nonce : H256) : List Event :=
  [⟨.bufferRequestBody, .ok []⟩, ⟨.priceFor sampleLine [], .ok 5⟩, ⟨.nextNonce, .ok nonce⟩,
    ⟨.nowUnixSecs, (1714000000 : UInt64)⟩,
    ⟨.recordBound nonce sampleCommitment 1714000300 1714000000, ()⟩]

/-- A paid request up to its 2xx response. -/
def serveEvents (payload : PaymentPayload) : List Event :=
  [⟨.bufferRequestBody, .ok []⟩, ⟨.priceFor sampleLine [], .ok 5⟩,
    ⟨.nowUnixSecs, (1714000010 : UInt64)⟩, ⟨.nowUnixSecs, (1714000010 : UInt64)⟩,
    ⟨.consumeBound payload.nonce sampleCommitment 1714000010, .ok ()⟩,
    ⟨.verifyOffline (precompileInput sampleCrypto sampleConfig payload),
      .ok (some payload.«from»)⟩,
    ⟨.innerCall (some (paidMarker payload)), ()⟩, ⟨.innerResponse, .ok ⟨200, .served "ok"⟩⟩]

/-- Request 0 is challenged, request 1 pays, is served and submits its settlement. -/
def sampleTrace : List (Nat × Event) :=
  (challengeEvents samplePayment.nonce).map (0, ·) ++
    (serveEvents samplePayment).map (1, ·) ++
    [(1, ⟨.getNonce sampleConfig.operatorAddress, .ok 0⟩),
      (1, ⟨.sendRawTx (sampleRaw samplePayment 0), ()⟩)]

def sampleJobs : List Request := [requestWith none, requestWith (some sampleHeader)]

theorem sample_run :
    ((layer sampleCrypto sampleConfig).run (fun _ _ => true)
      ((layer sampleCrypto sampleConfig).init .empty) (System.script sampleJobs sampleTrace)).map
        (fun s => (s.tasks.map (·.job), s.log)) = some (sampleJobs, sampleTrace.reverse) := by
  decide +kernel

theorem settle_implies_serve_sample :
    ∃ s, Run sampleCrypto sampleConfig s ∧ s.log = sampleTrace.reverse ∧
      (∃ req body price payload response,
        s.job 1 = some req ∧
        Served sampleCrypto sampleConfig req (System.trace s.log.tail 1) body price payload
          response) ∧
      (∀ n, s.log.countP (paidCalls n ·.2) ≤ 1) ∧
      (∀ n, s.log.countP (fun x => x.2.1.isSend && paysWith sampleCrypto s n x.1) ≤ 1) := by
  obtain ⟨s, hs, heq⟩ := Option.map_eq_some_iff.1 sample_run
  obtain ⟨hjobs, hlog⟩ := Prod.mk.inj heq
  have hrun : Run sampleCrypto sampleConfig s := .of_run (fun _ _ _ => trivial) hs
  have hline : ∀ t req, s.job t = some req → req.line = sampleLine := by
    intro t req hreq
    rw [System.job_eq_getElem, hjobs] at hreq
    have hmem := List.mem_of_getElem? hreq
    simp only [sampleJobs, List.mem_cons, List.not_mem_nil, or_false] at hmem
    rcases hmem with rfl | rfl <;> rfl
  have hbody : ∀ t body, (t, (⟨.bufferRequestBody, .ok body⟩ : Event)) ∈ s.log → body = [] := by
    intro t body hmem
    rw [hlog] at hmem
    simp [sampleTrace, challengeEvents, serveEvents] at hmem
    rcases hmem with h | h <;> exact h.2
  obtain ⟨hserve, hpaid, hsettled⟩ := settle_implies_serve hrun
    (by
      intro n
      rw [hlog]
      simp only [sampleTrace, challengeEvents, serveEvents, List.countP_reverse]
      simp [mints, List.countP_cons]
      split <;> omega)
    (by
      intro t u req req' body body' ht hu hmem hmem' _
      rw [hline t req ht, hline u req' hu, hbody t body hmem, hbody u body' hmem']
      exact ⟨rfl, rfl⟩)
  obtain ⟨req, body, price, payload, response, _, hjob, hserved, _⟩ :=
    hserve [] 1 (sampleRaw samplePayment 0) s.log.tail (by rw [hlog]; rfl)
  exact ⟨s, hrun, hlog, ⟨req, body, price, payload, response, hjob, hserved⟩, hpaid, hsettled⟩

end Sample
end X402
