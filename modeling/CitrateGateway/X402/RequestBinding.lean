import CitrateGateway.X402.SettleServe

/-!
# A nonce pays for the request it was minted for

A request records and consumes nonces under the commitment of its own method, target and
body. What the ledger holds of a nonce is what the last record of it said, so a nonce goes to
a request only if the challenge that carried it last was issued for the same three parts.
-/

namespace X402
set_option autoImplicit false
open Words Effects

section Commitments
variable (crypto : Crypto)

/-- A nonce is issued and consumed under the commitment of the request at hand. -/
def CommitmentDuty (req : Request) (past : List Event) (e : Event) : Prop :=
  match e.1 with
  | .recordBound _ commitment _ _ | .consumeBound _ commitment _ =>
    ∃ body, ⟨.bufferRequestBody, .ok body⟩ ∈ past ∧
      commitment = requestCommitment crypto req.line body
  | _ => True

variable {crypto} {config : X402Config} {req : Request} {past : List Event} {body : Bytes}

theorem commitmentDuty_of_settling (past : List Event) (e : Event)
    (he : e.1.isSettling = true) : CommitmentDuty crypto req past e := by
  obtain ⟨o, a⟩ := e
  cases o with
  | recordBound nonce commitment expiresAt now => simp [Op.isSettling] at he
  | consumeBound nonce commitment now => simp [Op.isSettling] at he
  | _ => trivial

theorem validatePaidPath_bound {value : Bytes} {price : U256}
    (hbody : ⟨.bufferRequestBody, .ok body⟩ ∈ past) :
    (validatePaidPath crypto config value price (requestCommitment crypto req.line body)).Meets
      AnyEvent (CommitmentDuty crypto req) (fun past' _ => past ⊆ past') past := by
  unfold validatePaidPath
  split
  · exact fun _ => id
  · refine Prog.meets_perform_bind.2 fun now _ => ⟨trivial, ?_⟩
    split
    · exact fun e he => by simp [he]
    · refine Prog.meets_perform_bind.2 fun consumedAt _ => ⟨trivial, ?_⟩
      refine Prog.meets_perform_bind.2 fun consumed _ => ⟨⟨body, by simp [hbody], rfl⟩, ?_⟩
      cases consumed with
      | error e => exact fun e he => by simp [he]
      | ok u =>
        simp only
        split
        · exact fun e he => by simp [he]
        · refine Prog.meets_perform_bind.2 fun recovered _ => ⟨trivial, ?_⟩
          cases recovered with
          | error e => exact fun e he => by simp [he]
          | ok signer? =>
            cases signer? with
            | none => exact fun e he => by simp [he]
            | some signer =>
              simp only
              split
              · exact fun e he => by simp [he]
              · split <;> exact fun e he => by simp [he]

theorem makeChallenge_bound {price : U256} (hbody : ⟨.bufferRequestBody, .ok body⟩ ∈ past) :
    (makeChallenge crypto config price (requestCommitment crypto req.line body)).Meets
      AnyEvent (CommitmentDuty crypto req) (fun _ _ => True) past := by
  refine Prog.meets_perform_bind.2 fun minted _ => ⟨trivial, ?_⟩
  cases minted with
  | error e => trivial
  | ok nonce =>
    refine Prog.meets_perform_bind.2 fun nowUnix _ => ⟨trivial, ?_⟩
    split
    · trivial
    · exact Prog.meets_perform_bind.2 fun _ _ => ⟨⟨body, by simp [hbody], rfl⟩, trivial⟩

theorem challengeUnpaid_bound {price : U256} (hbody : ⟨.bufferRequestBody, .ok body⟩ ∈ past) :
    (challengeUnpaid crypto config price (requestCommitment crypto req.line body)).Meets
      AnyEvent (CommitmentDuty crypto req) (fun _ _ => True) past := by
  refine Prog.Meets.bind (makeChallenge_bound hbody) fun past' challenge _ => ?_
  cases challenge <;> trivial

theorem rejectPayment_bound {err : X402Error} {price : U256}
    (hbody : ⟨.bufferRequestBody, .ok body⟩ ∈ past) :
    (rejectPayment crypto config err price (requestCommitment crypto req.line body)).Meets
      AnyEvent (CommitmentDuty crypto req) (fun _ _ => True) past := by
  refine Prog.meets_perform_bind.2 fun _ _ => ⟨trivial, ?_⟩
  have hlater : (⟨.bufferRequestBody, .ok body⟩ : Event) ∈
      ⟨.onRejected (rejectedEvent err none), ()⟩ :: past := List.mem_cons_of_mem _ hbody
  refine Prog.Meets.bind (makeChallenge_bound hlater) fun past' challenge _ => ?_
  cases challenge <;> trivial

theorem serveThenSettle_bound {payload : PaymentPayload} {price : U256} :
    (serveThenSettle crypto config payload price).Meets AnyEvent (CommitmentDuty crypto req)
      (fun _ _ => True) past := by
  simp only [serveThenSettle, innerCall, Prog.bind_assoc]
  refine Prog.meets_perform_bind.2 fun _ _ => ⟨trivial, ?_⟩
  refine Prog.meets_perform_bind.2 fun answer _ => ⟨trivial, ?_⟩
  cases answer with
  | error e => trivial
  | ok response =>
    simp only
    split
    · refine Prog.Meets.bind (settlePaidPath_free commitmentDuty_of_settling)
        fun past' settled _ => ?_
      cases settled <;> exact Prog.meets_perform_bind.2 fun _ _ => ⟨trivial, trivial⟩
    · trivial

/-- Whatever a request is answered, it names its own commitment to the ledger. -/
theorem call_bound (req : Request) :
    (call crypto config req).Meets AnyEvent (CommitmentDuty crypto req) (fun _ _ => True) [] := by
  unfold call
  split
  · refine Prog.meets_perform_bind.2 fun _ _ => ⟨trivial, ?_⟩
    exact Prog.meets_perform.2 fun _ _ => ⟨trivial, trivial⟩
  · refine Prog.meets_perform_bind.2 fun buffered _ => ⟨trivial, ?_⟩
    cases buffered with
    | error e => trivial
    | ok body =>
      refine Prog.meets_perform_bind.2 fun priced _ => ⟨trivial, ?_⟩
      cases priced with
      | error e => trivial
      | ok price =>
        have hbody : (⟨.bufferRequestBody, .ok body⟩ : Event) ∈
            ([⟨.priceFor req.line body, .ok price⟩, ⟨.bufferRequestBody, .ok body⟩] :
              List Event) := by simp
        simp only
        split
        · exact challengeUnpaid_bound hbody
        · refine Prog.Meets.bind (validatePaidPath_bound hbody) fun past' outcome hsub => ?_
          cases outcome with
          | validated payload => exact serveThenSettle_bound
          | reject err => exact rejectPayment_bound (hsub hbody)
          | serverError err => exact Prog.meets_perform_bind.2 fun _ _ => ⟨trivial, trivial⟩

def commitments : System.Contract (layer crypto config) where
  rely := AnyEvent
  guar := CommitmentDuty crypto
  post := fun _ _ _ => True
  meets := call_bound

end Commitments

section LastRecord

/-- The last record of a nonce in a log is by this request, under this commitment. -/
def LastIssued (log : List (Nat × Event)) (n : H256) (u : Nat) (commitment : H256) : Prop :=
  ∃ late early expiresAt issuedAt,
    log = late ++ (u, ⟨.recordBound n commitment expiresAt issuedAt, ()⟩) :: early ∧
      ∀ x ∈ late, issues n x.2 = false

theorem LastIssued.cons {log : List (Nat × Event)} {n : H256} {u : Nat} {commitment : H256}
    (h : LastIssued log n u commitment) {x : Nat × Event} (hx : issues n x.2 = false) :
    LastIssued (x :: log) n u commitment := by
  obtain ⟨late, early, expiresAt, issuedAt, rfl, hlate⟩ := h
  refine ⟨x :: late, early, expiresAt, issuedAt, rfl, ?_⟩
  intro y hy
  rcases List.mem_cons.1 hy with rfl | hy
  · exact hx
  · exact hlate y hy

/-- What the ledger holds is what was last recorded; a ledger without room holds nothing. -/
structure HoldsLast (config : X402Config) (st : LedgerState) (log : List (Nat × Event)) :
    Prop where
  held : ∀ n e, st.entries.lookup n = some e → ∃ u, LastIssued log n u e.requestCommitment
  none : config.maxOutstanding = 0 → ∀ n, st.entries.lookup n = none

variable {config : X402Config}

theorem HoldsLast.within {st st' : LedgerState} {log : List (Nat × Event)}
    (h : HoldsLast config st log) (hwithin : st'.Within st) {x : Nat × Event}
    (hx : ∀ n, issues n x.2 = false) : HoldsLast config st' (x :: log) := by
  constructor
  · intro n e he
    obtain ⟨u, hlast⟩ := h.held n e (hwithin n e he)
    exact ⟨u, hlast.cons (hx n)⟩
  · intro hzero n
    cases he : st'.entries.lookup n with
    | none => rfl
    | some e =>
      have := hwithin n e he
      rw [h.none hzero n] at this
      cases this

theorem HoldsLast.record {st : LedgerState} {log : List (Nat × Event)}
    (h : HoldsLast config st log) (t : Nat) (nonce commitment : H256) (expiresAt now : UInt64) :
    HoldsLast config (st.recordBound config.maxOutstanding nonce commitment expiresAt now)
      ((t, ⟨.recordBound nonce commitment expiresAt now, ()⟩) :: log) := by
  by_cases hzero : config.maxOutstanding = 0
  · have hst : st.recordBound config.maxOutstanding nonce commitment expiresAt now = st := by
      rw [LedgerState.recordBound, if_pos hzero]
    rw [hst]
    refine ⟨?_, h.none⟩
    intro n e he
    rw [h.none hzero n] at he
    cases he
  · refine ⟨?_, fun h => absurd h hzero⟩
    intro n e he
    by_cases hn : n = nonce
    · subst hn
      rw [LedgerState.recordBound, if_neg hzero, AList.lookup_insert] at he
      cases he
      exact ⟨t, [], log, expiresAt, now, rfl, nofun⟩
    · rcases LedgerState.lookup_of_recordBound he with hold | ⟨hsame, _⟩
      · obtain ⟨u, hlast⟩ := h.held n e hold
        exact ⟨u, hlast.cons (decide_eq_false (Ne.symm hn))⟩
      · exact absurd hsame hn

theorem HoldsLast.step {st st' : LedgerState} {log : List (Nat × Event)} {t : Nat} {e : Event}
    (h : HoldsLast config st log) (hstep : LedgerStep config st e st') :
    HoldsLast config st' ((t, e) :: log) := by
  cases hstep with
  | consume nonce commitment now =>
    exact h.within (st.consumeBound_within nonce commitment now) fun _ => rfl
  | record nonce commitment expiresAt now => exact h.record t nonce commitment expiresAt now
  | other e _ hissue => exact h.within (.refl st) hissue

variable {crypto : Crypto} {s : (layer crypto config).State}

theorem holds_last (hrun : Run crypto config s) : HoldsLast config s.shared s.log := by
  apply hrun.invariant fun s => HoldsLast config s.shared s.log
  · constructor
    · intro n e he
      simp [System.init, LedgerState.empty] at he
    · intro _ n
      simp [System.init, LedgerState.empty]
  · intro s s' a hr hinv _ hstep
    cases hstep with
    | start j sh hstart =>
      cases hstart
      exact hinv
    | exec t c j o k b sh htask hhandle =>
      have hstep := hinv.step (t := t) (handle_cases hhandle)
      have hsettle : (layer crypto config).settle t (k b) sh = sh := by
        unfold System.settle
        split <;> rfl
      simpa only [System.State.advance, hsettle] using hstep
    | drop t j o k htask => exact hinv
    | world w sh hworld => exact w.elim

/-- A nonce is consumed under the commitment it was last recorded with. -/
theorem lastIssued_of_consumed (hrun : Run crypto config s) {late early : List (Nat × Event)}
    {t : Nat} {nonce commitment : H256} {now : UInt64}
    (hlog : s.log = late ++ (t, ⟨.consumeBound nonce commitment now, .ok ()⟩) :: early) :
    ∃ u, LastIssued early nonce u commitment := by
  obtain ⟨s₁, c, j, k, sh, hr, rfl, _, _, hhandle, _⟩ := System.Reach.event hrun hlog
  have hans : s₁.shared.consumeBound nonce commitment now = (.ok (), sh) := by
    simpa [layer, handle] using hhandle
  obtain ⟨⟨entry, hentry, _, rfl⟩, _⟩ := LedgerState.consumeBound_ok hans
  exact (holds_last hr).held nonce entry hentry

end LastRecord

section Binding

/-- The hash does not confuse these two messages. -/
def NoCollision (crypto : Crypto) (message message' : Bytes) : Prop :=
  crypto.keccak256 message = crypto.keccak256 message' → message = message'

/-- The request with its body fits the length prefixes of the commitment. -/
def RequestLine.Framed (line : RequestLine) (body : Bytes) : Prop :=
  X402.Framed (utf8 line.method) (utf8 line.pathAndQuery) body

theorem same_request {crypto : Crypto} {line line' : RequestLine} {body body' : Bytes}
    (hframed : line.Framed body) (hframed' : line'.Framed body')
    (hhash : NoCollision crypto (commitmentPreimage line body) (commitmentPreimage line' body'))
    (h : requestCommitment crypto line body = requestCommitment crypto line' body') :
    line = line' ∧ body = body' :=
  commitmentPreimage_inj hframed.1 hframed'.1 hframed.2.1 hframed'.2.1 hframed.2.2 hframed'.2.2
    (hhash h)

/-- Different parts are hashed as different bytes, and in every run of the layer a request
consumes a nonce only if it was last minted for a request with the same parts. -/
theorem nonce_binds_request (crypto : Crypto) (config : X402Config)
    {s : (layer crypto config).State} (hrun : Run crypto config s) :
    (∀ method path body method' path' body' : Bytes,
      Framed method path body → Framed method' path' body' →
        (method, path, body) ≠ (method', path', body') →
          commitmentBytes method path body ≠ commitmentBytes method' path' body') ∧
    ∀ late t nonce commitment now early,
      s.log = late ++ (t, ⟨.consumeBound nonce commitment now, .ok ()⟩) :: early →
        ∃ req body u minter body',
          s.job t = some req ∧ (t, ⟨.bufferRequestBody, .ok body⟩) ∈ early ∧
          commitment = requestCommitment crypto req.line body ∧
          s.job u = some minter ∧ (u, ⟨.bufferRequestBody, .ok body'⟩) ∈ early ∧
          LastIssued early nonce u (requestCommitment crypto minter.line body') ∧
          (req.line.Framed body → minter.line.Framed body' →
            NoCollision crypto (commitmentPreimage req.line body)
                (commitmentPreimage minter.line body') →
              req.line = minter.line ∧ body = body') := by
  constructor
  · intro method path body method' path' body' hframed hframed' hne h
    obtain ⟨rfl, rfl, rfl⟩ := commitmentBytes_inj hframed hframed' h
    exact hne rfl
  · intro late t nonce commitment now early hlog
    obtain ⟨u, hlast⟩ := lastIssued_of_consumed hrun hlog
    obtain ⟨req, hreq, _, body, hbody, hown⟩ := System.Reach.guar commitments
      (fun _ _ _ _ _ _ _ _ => trivial) hrun hlog
    obtain ⟨late', early', expiresAt, issuedAt, heq, hlate'⟩ := hlast
    have hissued : s.log = (late ++ (t, ⟨.consumeBound nonce commitment now, .ok ()⟩) :: late') ++
        (u, ⟨.recordBound nonce commitment expiresAt issuedAt, ()⟩) :: early' := by
      rw [hlog, heq]
      simp
    obtain ⟨minter, hminter, _, body', hbody', hminted⟩ := System.Reach.guar commitments
      (fun _ _ _ _ _ _ _ _ => trivial) hrun hissued
    refine ⟨req, body, u, minter, body', hreq, System.mem_trace.1 hbody, hown, hminter, ?_, ?_, ?_⟩
    · rw [heq]
      have := System.mem_trace.1 hbody'
      simp [this]
    · rw [← hminted]
      exact ⟨late', early', expiresAt, issuedAt, heq, hlate'⟩
    · intro hframed hframed' hhash
      exact same_request hframed hframed' hhash (hown.symm.trans hminted)

theorem nonce_binds_request_sample :
    ∃ s, Run sampleCrypto sampleConfig s ∧ s.log = sampleTrace.reverse ∧
      ∃ req body u minter body', s.job 1 = some req ∧ s.job u = some minter ∧
        LastIssued (sampleTrace.reverse.drop 6) samplePayment.nonce u
          (requestCommitment sampleCrypto minter.line body') ∧
        req.line = minter.line ∧ body = body' := by
  obtain ⟨s, hs, heq⟩ := Option.map_eq_some_iff.1 sample_run
  obtain ⟨hjobs, hlog⟩ := Prod.mk.inj heq
  have hrun : Run sampleCrypto sampleConfig s := .of_run (fun _ _ _ => trivial) hs
  have hline : ∀ t req, s.job t = some req → req.line = sampleLine := by
    intro t req hreq
    rw [System.job_eq_getElem, hjobs] at hreq
    have hmem := List.mem_of_getElem? hreq
    simp only [sampleJobs, List.mem_cons, List.not_mem_nil, or_false] at hmem
    rcases hmem with rfl | rfl <;> rfl
  have hbody : ∀ t body, (t, (⟨.bufferRequestBody, .ok body⟩ : Event)) ∈
      sampleTrace.reverse.drop 6 → body = [] := by
    intro t body hmem
    have hmem := List.mem_of_mem_drop hmem
    simp [sampleTrace, challengeEvents, serveEvents] at hmem
    rcases hmem with h | h <;> exact h.2
  obtain ⟨req, body, u, minter, body', hreq, hread, _, hminter, hread', hlast, hsame⟩ :=
    (nonce_binds_request sampleCrypto sampleConfig hrun).2 (sampleTrace.reverse.take 5) 1
      samplePayment.nonce sampleCommitment 1714000010 (sampleTrace.reverse.drop 6) hlog
  have hparts : req.line.Framed body ∧ minter.line.Framed body' := by
    rw [hline 1 req hreq, hline u minter hminter, hbody 1 body hread, hbody u body' hread']
    simp only [RequestLine.Framed, Framed]
    decide
  have hhash : NoCollision sampleCrypto (commitmentPreimage req.line body)
      (commitmentPreimage minter.line body') := by
    rw [hline 1 req hreq, hline u minter hminter, hbody 1 body hread, hbody u body' hread']
    exact fun _ => rfl
  exact ⟨s, hrun, hlog, req, body, u, minter, body', hreq, hminter, hlast,
    hsame hparts.1 hparts.2 hhash⟩

end Binding
end X402
