import CitrateGateway.Gateway.LocalProxy

/-!
# What one request of the proxy does

Everything a request can do, and when: it charges its key once, takes one of the key's slots, reads
the body, waits for an upstream permit once, and tries the upstreams in their order until one of
them answers. Everything else about requests follows from this.
-/

namespace Gateway.LocalProxy
set_option autoImplicit false
open Words Effects
open KeyStore (ProxyMethod)
open App (HeaderMap)

section View

/-- What a request has done so far; the attempts are newest first. -/
structure View where
  call : Option Nat := none
  consumed : Option (Except ConsumeError ConsumedKey) := none
  slot : Option Bool := none
  body : Option (Except String Bytes) := none
  asked : Bool := false
  permit : Option Bool := none
  sent : List (Outgoing × Except String UpstreamResponse) := []
  items : Option (List (Except String Bytes)) := none

def View.next (v : View) : Event → View
  | ⟨.begin _, n⟩ => { v with call := some n }
  | ⟨.await (.tryConsume _) _, a⟩ => { v with consumed := some a }
  | ⟨.tryAcquireOwned _, b⟩ => { v with slot := some b }
  | ⟨.toBytes _, r⟩ => { v with body := some r }
  | ⟨.requestUpstream, _⟩ => { v with asked := true }
  | ⟨.awaitUpstream, b⟩ => { v with permit := some b }
  | ⟨.send out, r⟩ => { v with sent := (out, r) :: v.sent }
  | ⟨.streamBody, items⟩ => { v with items := some items }
  | _ => v

def view : List Event → View
  | [] => {}
  | e :: past => (view past).next e

/-- What a view has come to show, one event has brought about. -/
theorem event_of_view {past : List Event} {P : View → Prop} (hinit : ¬ P (view []))
    (h : P (view past)) : ∃ e ∈ past, ∃ v : View, ¬ P v ∧ P (v.next e) := by
  induction past with
  | nil => exact absurd h hinit
  | cons e past ih =>
    by_cases hold : P (view past)
    · obtain ⟨e', hmem, hnew⟩ := ih hold
      exact ⟨e', List.mem_cons_of_mem _ hmem, hnew⟩
    · exact ⟨e, List.mem_cons_self, view past, hold, h⟩

def View.key (v : View) : Option ConsumedKey :=
  match v.consumed with
  | some (.ok key) => some key
  | _ => none

/-- The request holds a slot of the key. -/
def View.inSlot (v : View) (hash : String) : Bool :=
  v.slot == some true && v.key.any (·.hash == hash)

/-- The request holds an upstream permit or waits for one. -/
def View.inUpstream (v : View) : Bool := v.asked && v.permit != some false

/-- The request holds an upstream permit, and knows it. -/
def View.sending (v : View) : Bool := v.permit == some true

namespace View

abbrev charged (n : Nat) (key : ConsumedKey) : View :=
  { call := some n, consumed := some (.ok key) }

abbrev admitted (n : Nat) (key : ConsumedKey) : View := { charged n key with slot := some true }

abbrev loaded (n : Nat) (key : ConsumedKey) (bytes : Bytes) : View :=
  { admitted n key with body := some (.ok bytes) }

abbrev waiting (n : Nat) (key : ConsumedKey) (bytes : Bytes) : View :=
  { loaded n key bytes with asked := true }

abbrev trying (n : Nat) (key : ConsumedKey) (bytes : Bytes)
    (sent : List (Outgoing × Except String UpstreamResponse)) : View :=
  { waiting n key bytes with permit := some true, sent := sent }

end View
end View

section Duty
variable (config : Config) (req : Request)

/-- The upstream could not be reached, or answered with a server error. -/
def attemptFailed : Except String UpstreamResponse → Bool
  | .error _ => true
  | .ok r => r.isServerError

/-- The upstreams that were tried in vain, in their order. -/
structure Tried (out : String → Outgoing) (tried : List String)
    (sent : List (Outgoing × Except String UpstreamResponse)) : Prop where
  order : sent.reverse.map (·.1) = tried.map out
  failed : ∀ x ∈ sent, attemptFailed x.2 = true

/-- A request that comes with a key and asks for one of the routes. -/
structure Admissible (keyId : String) : Prop where
  key : extractBearer req.headers = some keyId
  safe : pathIsUnsafe req.uri.path = false
  route : req.uri.path ∈ allowedUpstreamPaths

/-- What a request may do next. -/
inductive Duty : View → Event → Prop where
  | begin (keyId : String) (n : Nat) (hreq : Admissible req keyId) :
      Duty {} ⟨.begin (.tryConsume keyId), n⟩
  | await (keyId : String) (n : Nat) (a : Except ConsumeError ConsumedKey)
      (hreq : Admissible req keyId) : Duty { call := some n } ⟨.await (.tryConsume keyId) n, a⟩
  | slots (n : Nat) (key : ConsumedKey) : Duty (.charged n key)
      ⟨.keySlots key.hash (config.state.concurrencyLimitFor key.label), ()⟩
  | acquire (n : Nat) (key : ConsumedKey) (b : Bool) :
      Duty (.charged n key) ⟨.tryAcquireOwned key.hash, b⟩
  | read (n : Nat) (key : ConsumedKey) (r : Except String Bytes) :
      Duty (.admitted n key) ⟨.toBytes (maxBody req), r⟩
  | request (n : Nat) (key : ConsumedKey) (bytes body : Bytes)
      (hbody : preparedBody config req bytes = .ok body) :
      Duty (.loaded n key bytes) ⟨.requestUpstream, ()⟩
  | wait (n : Nat) (key : ConsumedKey) (bytes body : Bytes) (b : Bool)
      (hbody : preparedBody config req bytes = .ok body) :
      Duty (.waiting n key bytes) ⟨.awaitUpstream, b⟩
  | send (n : Nat) (key : ConsumedKey) (bytes body : Bytes) (subpath : Option String)
      (tried rest : List String) (upstream : String)
      (sent : List (Outgoing × Except String UpstreamResponse))
      (r : Except String UpstreamResponse) (hbody : preparedBody config req bytes = .ok body)
      (hselected : selectedUpstreams config.state req = some (tried ++ upstream :: rest, subpath))
      (htried : Tried (outgoing req subpath body) tried sent) :
      Duty (.trying n key bytes sent) ⟨.send (outgoing req subpath body upstream), r⟩
  | stream (n : Nat) (key : ConsumedKey) (bytes : Bytes) (out : Outgoing) (r : UpstreamResponse)
      (sent : List (Outgoing × Except String UpstreamResponse))
      (items : List (Except String Bytes)) (hserved : r.isServerError = false) :
      Duty (.trying n key bytes ((out, .ok r) :: sent)) ⟨.streamBody, items⟩

/-- How a request can end. -/
inductive Answered : View → Response → Prop where
  | unnamed (hkey : extractBearer req.headers = none) :
      Answered {} (jsonError 401 "missing api key")
  | unsafePath (hpath : pathIsUnsafe req.uri.path = true) :
      Answered {} (jsonError 400 "path is not allowed")
  | unknownRoute (hpath : req.uri.path ∉ allowedUpstreamPaths) :
      Answered {} (jsonError 404 "unknown route")
  | refused (n : Nat) (e : ConsumeError) :
      Answered { call := some n, consumed := some (.error e) } (refusal e)
  | keyBusy (n : Nat) (key : ConsumedKey) : Answered { View.charged n key with slot := some false }
      (rateLimited 1 "too many concurrent requests for this api key")
  | unread (n : Nat) (key : ConsumedKey) (e : String) :
      Answered { View.admitted n key with body := some (.error e) }
        (jsonError 400 ("body read: " ++ e))
  | unprepared (n : Nat) (key : ConsumedKey) (bytes : Bytes) (msg : String)
      (hbody : preparedBody config req bytes = .error msg) :
      Answered (.loaded n key bytes) (jsonError 400 msg)
  | busy (n : Nat) (key : ConsumedKey) (bytes : Bytes) :
      Answered { View.waiting n key bytes with permit := some false }
        (jsonError 503 "upstream busy")
  | unconfigured (n : Nat) (key : ConsumedKey) (bytes : Bytes)
      (hselected : selectedUpstreams config.state req = none) :
      Answered (.trying n key bytes []) sttUnavailable
  | unreachable (n : Nat) (key : ConsumedKey) (bytes body : Bytes) (upstreams : List String)
      (subpath : Option String) (sent : List (Outgoing × Except String UpstreamResponse))
      (hbody : preparedBody config req bytes = .ok body)
      (hselected : selectedUpstreams config.state req = some (upstreams, subpath))
      (htried : Tried (outgoing req subpath body) upstreams sent) :
      Answered (.trying n key bytes sent) (jsonError 502 "upstream unreachable")
  | streamed (n : Nat) (key : ConsumedKey) (bytes body : Bytes) (subpath : Option String)
      (tried rest : List String) (upstream : String) (r : UpstreamResponse)
      (sent : List (Outgoing × Except String UpstreamResponse))
      (items : List (Except String Bytes)) (hbody : preparedBody config req bytes = .ok body)
      (hselected : selectedUpstreams config.state req = some (tried ++ upstream :: rest, subpath))
      (htried : Tried (outgoing req subpath body) tried sent) (hserved : r.isServerError = false) :
      Answered { View.trying n key bytes ((outgoing req subpath body upstream, .ok r) :: sent) with
          items := some items }
        ⟨r.status, responseHeaders r.headers, .stream items⟩

end Duty

section Requests
variable {config : Config} {req : Request}

def AnyEvent (_ : Event) : Prop := True

abbrev Doing {α : Type} (config : Config) (req : Request) (p : M α)
    (post : List Event → α → Prop) (past : List Event) : Prop :=
  p.Meets AnyEvent (fun past e => Duty config req (view past) e) post past

theorem duty_of_view {past : List Event} {v : View} {e : Event} (hview : view past = v)
    (h : Duty config req v e) : Duty config req (view past) e := by
  rw [hview]
  exact h

theorem answered_of_view {past : List Event} {v : View} {r : Response} (hview : view past = v)
    (h : Answered config req v r) : Answered config req (view past) r := by
  rw [hview]
  exact h

theorem Tried.nil (out : String → Outgoing) : Tried out [] [] := ⟨rfl, fun _ h => by cases h⟩

theorem Tried.cons {out : String → Outgoing} {tried : List String}
    {sent : List (Outgoing × Except String UpstreamResponse)} (h : Tried out tried sent)
    (upstream : String) {r : Except String UpstreamResponse} (hfailed : attemptFailed r = true) :
    Tried out (tried ++ [upstream]) ((out upstream, r) :: sent) where
  order := by
    rw [List.reverse_cons, List.map_append, List.map_append, h.order]
    rfl
  failed x hx := by
    rcases List.mem_cons.1 hx with rfl | hx
    · exact hfailed
    · exact h.failed x hx

theorem tryUpstreams_doing {n : Nat} {key : ConsumedKey} {bytes body : Bytes}
    {subpath : Option String} (hbody : preparedBody config req bytes = .ok body)
    {rest tried : List String} {sent : List (Outgoing × Except String UpstreamResponse)}
    (hselected : selectedUpstreams config.state req = some (tried ++ rest, subpath))
    (htried : Tried (outgoing req subpath body) tried sent) {past : List Event}
    (hview : view past = .trying n key bytes sent) :
    Doing config req (tryUpstreams (outgoing req subpath body) rest) (fun past' found =>
      match found with
      | none => ∃ sent', Tried (outgoing req subpath body) (tried ++ rest) sent' ∧
          view past' = .trying n key bytes sent'
      | some r => ∃ tried' upstream rest' sent', tried ++ rest = tried' ++ upstream :: rest' ∧
          Tried (outgoing req subpath body) tried' sent' ∧ r.isServerError = false ∧
          view past' = .trying n key bytes ((outgoing req subpath body upstream, .ok r) :: sent'))
      past := by
  induction rest generalizing tried sent past with
  | nil => exact ⟨sent, by rwa [List.append_nil], hview⟩
  | cons upstream rest ih =>
    refine Prog.meets_perform_bind.2 fun r _ => ⟨?_, ?_⟩
    · rw [hview]
      exact .send n key bytes body subpath tried rest upstream sent r hbody hselected htried
    have hview' : view (⟨.send (outgoing req subpath body upstream), r⟩ :: past) =
        .trying n key bytes ((outgoing req subpath body upstream, r) :: sent) := by
      rw [view, hview]
      rfl
    have hmore : attemptFailed r = true → Doing config req
        (tryUpstreams (outgoing req subpath body) rest) _ _ := fun hfailed =>
      ih (by rw [List.append_assoc]; exact hselected) (htried.cons upstream hfailed) hview'
    have hassoc : tried ++ [upstream] ++ rest = tried ++ upstream :: rest := by
      rw [List.append_assoc]
      rfl
    rw [hassoc] at hmore
    cases r with
    | error e => exact hmore rfl
    | ok r =>
      cases hserver : r.isServerError with
      | true =>
        simp only [hserver, if_true]
        exact hmore hserver
      | false =>
        simp only [hserver, Bool.false_eq_true, if_false]
        exact ⟨tried, upstream, rest, sent, rfl, htried, hserver, hview'⟩

theorem forward_doing {n : Nat} {key : ConsumedKey} {past : List Event}
    (hview : view past = .admitted n key) :
    Doing config req (forward config req) (fun past' r => Answered config req (view past') r)
      past := by
  refine Prog.meets_perform_bind.2 fun answer _ => ⟨duty_of_view hview (.read n key answer), ?_⟩
  have hview₁ : view (⟨.toBytes (maxBody req), answer⟩ :: past) =
      { View.admitted n key with body := some answer } := by
    rw [view, hview]
    rfl
  cases answer with
  | error e => exact answered_of_view hview₁ (.unread n key e)
  | ok bytes =>
    simp only
    cases hbody : preparedBody config req bytes with
    | error msg => exact answered_of_view hview₁ (.unprepared n key bytes msg hbody)
    | ok body =>
      simp only [acquireUpstream, Prog.bind_assoc]
      refine Prog.meets_perform_bind.2 fun _ _ =>
        ⟨duty_of_view hview₁ (.request n key bytes body hbody), ?_⟩
      have hview₂ : view (⟨.requestUpstream, ()⟩ :: ⟨.toBytes (maxBody req), .ok bytes⟩ :: past) =
          .waiting n key bytes := by
        rw [view, hview₁]
        rfl
      refine Prog.meets_perform_bind.2 fun b _ =>
        ⟨duty_of_view hview₂ (.wait n key bytes body b hbody), ?_⟩
      have hview₃ : view (⟨.awaitUpstream, b⟩ :: ⟨.requestUpstream, ()⟩ ::
          ⟨.toBytes (maxBody req), .ok bytes⟩ :: past) =
          { View.waiting n key bytes with permit := some b } := by
        rw [view, hview₂]
        rfl
      cases b with
      | false => exact answered_of_view hview₃ (.busy n key bytes)
      | true =>
        simp only [if_true]
        cases hselected : selectedUpstreams config.state req with
        | none => exact answered_of_view hview₃ (.unconfigured n key bytes hselected)
        | some selected =>
          obtain ⟨upstreams, subpath⟩ := selected
          have hall : selectedUpstreams config.state req = some ([] ++ upstreams, subpath) := hselected
          refine Prog.Meets.bind (tryUpstreams_doing hbody hall (.nil _) hview₃) ?_
          intro past₄ found hfound
          cases found with
          | none =>
            obtain ⟨sent, htried, hview₄⟩ := hfound
            exact answered_of_view hview₄ (.unreachable n key bytes body upstreams subpath sent
              hbody hselected htried)
          | some r =>
            obtain ⟨tried, upstream, rest, sent, hsplit, htried, hserved, hview₄⟩ := hfound
            refine Prog.meets_perform_bind.2 fun items _ => ⟨?_, ?_⟩
            · exact duty_of_view hview₄ (.stream n key bytes _ r sent items hserved)
            · have hview₅ : view (⟨.streamBody, items⟩ :: past₄) = { View.trying n key bytes
                  ((outgoing req subpath body upstream, .ok r) :: sent) with
                  items := some items } := by
                rw [view, hview₄]
                rfl
              apply answered_of_view hview₅
              refine .streamed n key bytes body subpath tried rest upstream r sent items hbody ?_
                htried hserved
              rw [hselected, ← hsplit]
              rfl

theorem proxyHandler_doing (req : Request) :
    Doing config req (proxyHandler config req)
      (fun past r => Answered config req (view past) r) [] := by
  unfold proxyHandler
  split
  · rename_i hkey
    exact Answered.unnamed hkey
  · rename_i keyId hkey
    split
    · rename_i hpath
      exact Answered.unsafePath hpath
    · rename_i hsafe
      split
      · rename_i hroute
        exact Answered.unknownRoute hroute
      · rename_i hroute
        have hreq : Admissible req keyId :=
          ⟨hkey, Bool.eq_false_iff.2 hsafe, Decidable.not_not.1 hroute⟩
        simp only [call, tryKeySlot, Prog.bind_assoc]
        refine Prog.meets_perform_bind.2 fun n _ => ⟨.begin keyId n hreq, ?_⟩
        refine Prog.meets_perform_bind.2 fun a _ => ⟨.await keyId n a hreq, ?_⟩
        cases a with
        | error e => exact Answered.refused n e
        | ok key =>
          refine Prog.meets_perform_bind.2 fun _ _ => ⟨.slots n key, ?_⟩
          refine Prog.meets_perform_bind.2 fun b _ => ⟨.acquire n key b, ?_⟩
          cases b with
          | false => exact Answered.keyBusy n key
          | true => exact forward_doing rfl

end Requests

section Issuance
variable (config : Config) (headers : HeaderMap)

/-- A caller with a token, of a proxy that issues keys. -/
structure Caller where
  cfg : MemberKeyConfig
  token : String
  enabled : config.state.memberKeys = some cfg
  bearer : extractBearer headers = some token

/-- A caller for whose token the identity provider named a subject. -/
structure Vouched extends Caller config headers where
  answer : Except String UserinfoResponse
  sub : String
  verdict : idpVerdict config.format answer = .subject sub

variable {config headers}

def Caller.ip (c : Caller config headers) : String :=
  clientIp config.parseIp headers c.cfg.trustForwardedFor

def Caller.unblocked (c : Caller config headers) : List Event := [⟨.ipBlocked c.ip, none⟩]

def Vouched.account (v : Vouched config headers) : String := subjectHash config.sha256 v.sub

def Vouched.vouched (v : Vouched config headers) : List Event :=
  ⟨.userinfo v.cfg.userinfoUrl v.token, v.answer⟩ :: v.unblocked

def Vouched.granted (v : Vouched config headers) (now : UInt64) : List Event :=
  ⟨.reserve v.account v.ip, (now, .ok ())⟩ :: v.vouched

def Vouched.rotation (v : Vouched config headers) : ProxyMethod :=
  .rotateMemberKey v.account v.cfg.quotaRps v.cfg.dailyQuota

variable (config headers)

/-- What the issuance of a key may do next, after what it has done. -/
inductive IssueDuty : List Event → Event → Prop where
  | check (c : Caller config headers) (r : Option UInt64) : IssueDuty [] ⟨.ipBlocked c.ip, r⟩
  | ask (c : Caller config headers) (r : Except String UserinfoResponse) :
      IssueDuty c.unblocked ⟨.userinfo c.cfg.userinfoUrl c.token, r⟩
  | reserve (v : Vouched config headers) (r : UInt64 × Except UInt64 Unit) :
      IssueDuty v.vouched ⟨.reserve v.account v.ip, r⟩
  | begin (v : Vouched config headers) (now : UInt64) (n : Nat) :
      IssueDuty (v.granted now) ⟨.begin v.rotation, n⟩
  | await (v : Vouched config headers) (now : UInt64) (n : Nat) (a : Except StoreError String) :
      IssueDuty (⟨.begin v.rotation, n⟩ :: v.granted now) ⟨.await v.rotation n, a⟩

/-- How the issuance of a key can end. -/
inductive IssueAnswered : List Event → Response → Prop where
  | off (hoff : config.state.memberKeys = none) :
      IssueAnswered [] (memberKeyResponse 404 (.error "unknown route"))
  | anonymous (hbearer : extractBearer headers = none) :
      IssueAnswered [] (memberKeyResponse 401 (.error "missing bearer token"))
  | blocked (c : Caller config headers) (retry : UInt64) :
      IssueAnswered [⟨.ipBlocked c.ip, some retry⟩]
        (tooMany retry "too many key requests from this address")
  | rejected (c : Caller config headers) (answer : Except String UserinfoResponse)
      (hverdict : idpVerdict config.format answer = .rejected) :
      IssueAnswered (⟨.userinfo c.cfg.userinfoUrl c.token, answer⟩ :: c.unblocked)
        (memberKeyResponse 401 (.error "invalid token"))
  | unavailable (c : Caller config headers) (answer : Except String UserinfoResponse)
      (hverdict : idpVerdict config.format answer = .unavailable) :
      IssueAnswered (⟨.userinfo c.cfg.userinfoUrl c.token, answer⟩ :: c.unblocked)
        (memberKeyResponse 503 (.error "identity provider unavailable"))
  | limited (v : Vouched config headers) (now retry : UInt64) :
      IssueAnswered (⟨.reserve v.account v.ip, (now, .error retry)⟩ :: v.vouched)
        (tooMany retry "key issuance rate limit exceeded")
  | failed (v : Vouched config headers) (now : UInt64) (n : Nat) (e : StoreError) :
      IssueAnswered (⟨.await v.rotation n, .error e⟩ :: ⟨.begin v.rotation, n⟩ :: v.granted now)
        (memberKeyResponse 500 (.error "internal"))
  | issued (v : Vouched config headers) (now : UInt64) (n : Nat) (key : String) :
      IssueAnswered (⟨.await v.rotation n, .ok key⟩ :: ⟨.begin v.rotation, n⟩ :: v.granted now)
        (memberKeyResponse 200
          (.issued key v.cfg.baseUrl v.cfg.model v.cfg.quotaRps v.cfg.dailyQuota))

theorem memberKeyHandler_issuing : (memberKeyHandler config headers).Meets AnyEvent
    (IssueDuty config headers) (IssueAnswered config headers) [] := by
  unfold memberKeyHandler
  split
  · rename_i hoff
    exact IssueAnswered.off hoff
  · rename_i cfg henabled
    split
    · rename_i hbearer
      exact IssueAnswered.anonymous hbearer
    · rename_i token hbearer
      let c : Caller config headers := ⟨cfg, token, henabled, hbearer⟩
      refine Prog.meets_perform_bind.2 fun found _ => ⟨.check c found, ?_⟩
      cases found with
      | some retry => exact IssueAnswered.blocked c retry
      | none =>
        refine Prog.meets_perform_bind.2 fun answer _ => ⟨.ask c answer, ?_⟩
        simp only
        cases hverdict : idpVerdict config.format answer with
        | rejected => exact IssueAnswered.rejected c answer hverdict
        | unavailable => exact IssueAnswered.unavailable c answer hverdict
        | subject sub =>
          let v : Vouched config headers := ⟨c, answer, sub, hverdict⟩
          refine Prog.meets_perform_bind.2 fun r _ => ⟨.reserve v r, ?_⟩
          obtain ⟨now, decision⟩ := r
          cases decision with
          | error retry => exact IssueAnswered.limited v now retry
          | ok u =>
            simp only [call, Prog.bind_assoc]
            refine Prog.meets_perform_bind.2 fun n _ => ⟨.begin v now n, ?_⟩
            refine Prog.meets_perform_bind.2 fun a _ => ⟨.await v now n a, ?_⟩
            cases a with
            | error e => exact IssueAnswered.failed v now n e
            | ok key => exact IssueAnswered.issued v now n key

end Issuance

section Promise

def Job.Duty (config : Config) (j : Job) (past : List Event) (e : Event) : Prop :=
  match j with
  | .proxy req => LocalProxy.Duty config req (view past) e
  | .memberKey headers => IssueDuty config headers past e

def Job.Answered (config : Config) (j : Job) (past : List Event) (r : Response) : Prop :=
  match j with
  | .proxy req => LocalProxy.Answered config req (view past) r
  | .memberKey headers => IssueAnswered config headers past r

/-- What every request and every issuance keeps to. -/
def contract (config : Config) : System.Contract (server config) where
  rely := AnyEvent
  guar := fun j past e => j.Duty config past e
  post := fun j past r => j.Answered config past r
  meets := fun j => by
    cases j with
    | proxy req => exact proxyHandler_doing req
    | memberKey headers => exact memberKeyHandler_issuing config headers

variable {config : Config} {rows₀ : Rows} {s : (server config).State}
variable {ok : (server config).State → (server config).Action → Prop}

theorem contract_served (ok : (server config).State → (server config).Action → Prop) :
    (contract config).Served ok :=
  fun _ _ _ _ _ _ _ _ => trivial

theorem duty_of_task (hrun : ServerRun config rows₀ ok s) {t : Nat} {j : Job} {o : Op}
    {k : o.Ans → M Response} (htask : s.tasks[t]? = some ⟨j, some (.op o k)⟩) (a : o.Ans) :
    j.Duty config (System.trace s.log t) ⟨o, a⟩ :=
  (Prog.meets_op.1 (hrun.meets (contract config) (contract_served ok) htask) a trivial).1

theorem answered_of_task (hrun : ServerRun config rows₀ ok s) {t : Nat} {j : Job} {r : Response}
    (htask : s.tasks[t]? = some ⟨j, some (.ret r)⟩) :
    j.Answered config (System.trace s.log t) r :=
  hrun.meets (contract config) (contract_served ok) htask

end Promise
end Gateway.LocalProxy
