import CitrateGateway.Gateway.ProxySlots

/-!
# What the upstreams are sent, and what the clients get back

Whatever is sent to an upstream belongs to a request with a key that was charged for it, that holds
a slot and a permit, and that asks for one of the routes; it carries neither the key nor the headers
of one connection. The upstreams are tried in their order until one of them answers.
-/

namespace Gateway.LocalProxy
set_option autoImplicit false
open Words Effects
open KeyStore (ProxyMethod)
open App (HeaderMap)

section Headers

/-- The headers of a request that no upstream gets to see. -/
def neverForwarded : List String := ["authorization", "host", "content-length"] ++ hopByHop

theorem foldl_remove (names : List String) (headers : HeaderMap) :
    names.foldl remove headers = headers.filter fun h => h.1 ∉ names := by
  induction names generalizing headers with
  | nil => simp
  | cons name names ih =>
    rw [List.foldl_cons, ih, remove, List.filter_filter]
    refine List.filter_congr fun h _ => ?_
    simp [Bool.and_comm]

theorem forwardHeaders_eq (headers : HeaderMap) :
    forwardHeaders headers = headers.filter fun h => h.1 ∉ neverForwarded := by
  rw [← foldl_remove]
  rfl

end Headers

section Sending
variable {config : Config} {rows₀ : Rows} {s : (server config).State}
variable {ok : (server config).State → (server config).Action → Prop}
variable {req : Request} {past : List Event} {t : Nat}

theorem body_of_view {r : Except String Bytes} (h : (view past).body = some r) :
    ∃ limit, (⟨.toBytes limit, r⟩ : Event) ∈ past := by
  obtain ⟨e, hmem, v, hold, hnew⟩ := event_of_view (P := (·.body = some r)) nofun h
  unfold View.next at hnew
  split at hnew <;> first | exact absurd hnew hold | skip
  cases hnew
  exact ⟨_, hmem⟩

/-- The body of a request is no longer than its route allows. -/
theorem length_body_le (hrun : ServerRun config rows₀ ok s) (hjob : s.job t = some (.proxy req))
    {bytes : Bytes} (hbody : (viewOf s t).body = some (.ok bytes)) :
    bytes.length ≤ maxBody req := by
  obtain ⟨limit, hmem⟩ := body_of_view hbody
  obtain ⟨s₁, sh, -, -, hhandled, j, hj, hduty⟩ := moment hrun hmem
  rw [hjob] at hj
  cases hj
  simp only [Job.Duty] at hduty
  generalize view (System.trace s₁.log t) = v at hduty
  cases hduty with
  | read n key _ =>
    cases hhandled with
    | body _ _ hlimit => exact hlimit

/-- What is sent to an upstream for a request, and where the request then is. -/
structure Forwards (config : Config) (s : (server config).State) (t : Nat) (req : Request)
    (key : ConsumedKey) (out : Outgoing) : Prop where
  charged : ∃ keyId n, extractBearer req.headers = some keyId ∧ (viewOf s t).call = some n ∧
    s.shared.keys.tasks[n]? = some ⟨.tryConsume keyId, some (.ret ⟨.tryConsume keyId, .ok key⟩)⟩
  safe : pathIsUnsafe req.uri.path = false
  route : req.uri.path ∈ allowedUpstreamPaths
  slot : InFlight s (·.inSlot key.hash) t
  permit : t ∈ s.shared.upstreamSlots.holders
  method : out.method = req.method
  headers : out.headers = req.headers.filter fun h => h.1 ∉ neverForwarded
  upstream : ∃ upstreams subpath, selectedUpstreams config.state req = some (upstreams, subpath) ∧
    ∃ upstream ∈ upstreams, out.url = trimEndSlashes upstream ++ subpath.getD req.uri.pathAndQuery
  body : ∃ bytes, bytes.length ≤ maxBody req ∧
    if isGeneration req.method req.uri.path then
      clampGenerationBudget config.format bytes config.state.maxTokens = .ok out.body
    else out.body = bytes

end Sending

section Failover
variable {config : Config} {rows₀ : Rows} {s : (server config).State}
variable {ok : (server config).State → (server config).Action → Prop}
variable {req : Request} {past : List Event} {t : Nat}

/-- What a request was sent as and what came back, in the order of the attempts. -/
def attempts (s : (server config).State) (t : Nat) :
    List (Outgoing × Except String UpstreamResponse) := (viewOf s t).sent.reverse

/-- What the upstreams of a request are sent, one after the other, until one answers. -/
def planned (config : Config) (req : Request) (bytes : Bytes) : List Outgoing :=
  match selectedUpstreams config.state req, preparedBody config req bytes with
  | some (upstreams, subpath), .ok body => upstreams.map (outgoing req subpath body)
  | _, _ => []

theorem planned_eq {upstreams : List String} {subpath : Option String} {bytes body : Bytes}
    (hselected : selectedUpstreams config.state req = some (upstreams, subpath))
    (hbody : preparedBody config req bytes = .ok body) :
    planned config req bytes = upstreams.map (outgoing req subpath body) := by
  simp only [planned, hselected, hbody]

theorem selected_ne_nil {upstreams : List String} {subpath : Option String}
    (hselected : selectedUpstreams config.state req = some (upstreams, subpath)) :
    upstreams ≠ [] := by
  unfold selectedUpstreams at hselected
  split at hselected
  · split at hselected
    · cases hselected
    · rename_i hsome
      cases hselected
      exact hsome
  · split at hselected
    · rename_i hembed
      cases hselected
      simp only [Bool.and_eq_true, decide_eq_true_eq] at hembed
      exact hembed.2
    · cases hselected
      exact config.state.upstreams_ne

/-- The attempts so far follow the plan, and only the last of them can have succeeded. -/
structure FollowsPlan (config : Config) (req : Request) (v : View) : Prop where
  order : v.sent = [] ∨ ∃ bytes, v.body = some (.ok bytes) ∧
    v.sent.reverse.map (·.1) <+: planned config req bytes
  failed : ∀ x ∈ v.sent.tail, attemptFailed x.2 = true

theorem FollowsPlan.of_nil {v : View} (h : v.sent = []) : FollowsPlan config req v := by
  refine ⟨Or.inl h, fun x hx => ?_⟩
  rw [h] at hx
  cases hx

theorem followsPlan_of_kept
    (hkept : System.Kept (fun past e => Duty config req (view past) e) past) :
    FollowsPlan config req (view past) := by
  induction past with
  | nil => exact .of_nil rfl
  | cons e past ih =>
    obtain ⟨hduty, hkept⟩ := hkept
    have hold := ih hkept
    rw [view]
    generalize view past = v at hduty hold
    cases hduty with
    | send n key bytes body subpath tried rest upstream sent r hbody hselected htried =>
      constructor
      · refine Or.inr ⟨bytes, rfl, ?_⟩
        rw [planned_eq hselected hbody]
        simp only [View.next, List.reverse_cons, List.map_append, htried.order, List.map_cons,
          List.map_nil]
        exact ⟨rest.map (outgoing req subpath body), by simp⟩
      · exact fun x hx => htried.failed x hx
    | stream n key bytes out r sent items hserved => exact ⟨hold.order, hold.failed⟩
    | _ => exact .of_nil rfl

/-- How the attempts of a request end, and what its client gets. -/
structure Failover (config : Config) (s : (server config).State) (t : Nat) (req : Request) :
    Prop where
  order : attempts s t = [] ∨ ∃ bytes, (viewOf s t).body = some (.ok bytes) ∧
    (attempts s t).map (·.1) <+: planned config req bytes
  failed : ∀ x ∈ (attempts s t).dropLast, attemptFailed x.2 = true
  served : ∀ r out u, s.tasks[t]? = some ⟨.proxy req, some (.ret r)⟩ →
    (out, .ok u) ∈ attempts s t → u.isServerError = false →
      ∃ items, (t, ⟨.streamBody, items⟩) ∈ s.log ∧
        r = ⟨u.status, responseHeaders u.headers, .stream items⟩
  streamed : ∀ r items, s.tasks[t]? = some ⟨.proxy req, some (.ret r)⟩ → r.body = .stream items →
    ∃ out u, (attempts s t).getLast? = some (out, .ok u) ∧ u.isServerError = false ∧
      r.status = u.status
  unreachable : ∀ r, s.tasks[t]? = some ⟨.proxy req, some (.ret r)⟩ →
    (r = jsonError 502 "upstream unreachable" ↔ ∃ bytes, (viewOf s t).body = some (.ok bytes) ∧
      planned config req bytes ≠ [] ∧ (attempts s t).map (·.1) = planned config req bytes ∧
        ∀ x ∈ attempts s t, attemptFailed x.2 = true)

/-- A request ends without an attempt, after every attempt has failed, or with the response of the
last attempt. -/
inductive Ended (config : Config) (req : Request) (v : View) (r : Response) : Prop where
  | refused (hnone : v.sent = []) (hown : ∀ items, r.body ≠ .stream items)
      (hother : r ≠ jsonError 502 "upstream unreachable")
  | failed (bytes : Bytes) (hbody : v.body = some (.ok bytes))
      (hall : v.sent.reverse.map (·.1) = planned config req bytes)
      (hsome : planned config req bytes ≠ []) (hfailed : ∀ x ∈ v.sent, attemptFailed x.2 = true)
      (hr : r = jsonError 502 "upstream unreachable")
  | served (out : Outgoing) (u : UpstreamResponse)
      (sent : List (Outgoing × Except String UpstreamResponse)) (items : List (Except String Bytes))
      (hsent : v.sent = (out, .ok u) :: sent) (hfailed : ∀ x ∈ sent, attemptFailed x.2 = true)
      (hitems : v.items = some items) (hserved : u.isServerError = false)
      (hr : r = ⟨u.status, responseHeaders u.headers, .stream items⟩)

theorem ended_of_answered {v : View} {r : Response} (h : Answered config req v r) :
    Ended config req v r := by
  cases h with
  | unreachable n key bytes body upstreams subpath sent hbody hselected htried =>
    refine .failed bytes rfl ?_ ?_ htried.failed rfl
    · rw [planned_eq hselected hbody]
      exact htried.order
    · rw [planned_eq hselected hbody]
      exact fun h => selected_ne_nil hselected (List.map_eq_nil_iff.1 h)
  | streamed n key bytes body subpath tried rest upstream u sent items hbody hselected htried hserved =>
    exact .served _ u sent items rfl htried.failed rfl hserved rfl
  | refused n e =>
    refine .refused rfl (fun items h => ?_) fun h => ?_
    · cases e <;> cases h
    · cases e <;> cases h
  | _ =>
    refine .refused rfl (fun items h => ?_) fun h => ?_
    · cases h
    · cases h

theorem items_of_view {items : List (Except String Bytes)} (h : (view past).items = some items) :
    (⟨.streamBody, items⟩ : Event) ∈ past := by
  obtain ⟨e, hmem, v, hold, hnew⟩ := event_of_view (P := (·.items = some items)) nofun h
  unfold View.next at hnew
  split at hnew <;> first | exact absurd hnew hold | skip
  cases hnew
  exact hmem

/-- In every run, the upstreams are tried in their order, none after one that has answered, and the
client gets that answer or none. -/
theorem failover_of_run (hrun : ServerRun config rows₀ ok s) (hjob : s.job t = some (.proxy req)) :
    Failover config s t req := by
  have hplan := followsPlan_of_kept (hrun.kept (contract config) (contract_served ok) hjob)
  have hended : ∀ r, s.tasks[t]? = some ⟨.proxy req, some (.ret r)⟩ →
      Ended config req (viewOf s t) r := fun r htask =>
    ended_of_answered (answered_of_task hrun htask)
  constructor
  · rcases hplan.order with hnone | hsome
    · exact Or.inl (List.reverse_eq_nil_iff.2 hnone)
    · exact Or.inr hsome
  · intro x hx
    refine hplan.failed x ?_
    rw [attempts, List.dropLast_reverse, List.mem_reverse] at hx
    exact hx
  · intro r out u htask hmem hserver
    rw [attempts, List.mem_reverse] at hmem
    cases hended r htask with
    | refused hnone =>
      rw [hnone] at hmem
      cases hmem
    | failed bytes hbody hall hsome hfailed hr =>
      have hbad := hfailed _ hmem
      rw [attemptFailed, hserver] at hbad
      cases hbad
    | served out' u' sent items hsent hfailed hitems hserved hr =>
      rw [hsent] at hmem
      rcases List.mem_cons.1 hmem with heq | hmem
      · cases heq
        exact ⟨items, System.mem_trace.1 (items_of_view hitems), hr⟩
      · have hbad := hfailed _ hmem
        rw [attemptFailed, hserver] at hbad
        cases hbad
  · intro r items htask hstream
    cases hended r htask with
    | refused hnone hown hother => exact absurd hstream (hown items)
    | failed bytes hbody hall hsome hfailed hr =>
      rw [hr] at hstream
      cases hstream
    | served out u sent items' hsent hfailed hitems hserved hr =>
      refine ⟨out, u, ?_, hserved, by rw [hr]⟩
      rw [attempts, hsent, List.reverse_cons, List.getLast?_append]
      rfl
  · intro r htask
    constructor
    · intro hr
      cases hended r htask with
      | refused hnone hown hother => exact absurd hr hother
      | failed bytes hbody hall hsome hfailed =>
        exact ⟨bytes, hbody, hsome, hall, fun x hx => hfailed x (List.mem_reverse.1 hx)⟩
      | served out u sent items hsent hfailed hitems hserved heq =>
        rw [heq] at hr
        cases congrArg Response.body hr
    · rintro ⟨bytes, hbody, hsome, hall, hfailed⟩
      cases hended r htask with
      | refused hnone =>
        rw [attempts, hnone] at hall
        exact absurd hall.symm hsome
      | failed _ _ _ _ _ hr => exact hr
      | served out u sent items hsent _ _ hserved =>
        have hbad := hfailed (out, .ok u) (by simp [attempts, hsent])
        rw [attemptFailed, hserved] at hbad
        cases hbad

end Failover

section Samples

/-- Two upstreams for everything. -/
def pairConfig : Config :=
  { sampleConfig with
    state := (LocalProxyState.new ["http://a", "http://b/"] (List.cons_ne_nil _ _)).withLimits
      16 1 1 }

/-- The first upstream answers with a server error, the second serves the request. -/
def failedOverRun : List (server pairConfig).Action :=
  ([.start (listModels "one"), .exec 0 .ok] : List (server pairConfig).Action) ++
  ([.ok, .ok, .day "day", .ok, .ok, .ok].map fun c => .world (.keys 0 c) : List (server pairConfig).Action) ++
  ([.ok, .ok, .ok, .body (.ok []), .ok, .ok, .upstream (.ok ⟨503, []⟩),
    .upstream (.ok ⟨200, []⟩), .items []].map (.exec 0) : List (server pairConfig).Action)

def toUpstream (url : String) : Outgoing := ⟨"GET", url, [], []⟩

theorem failover_of_run_sample : ∃ s req, ServerRun pairConfig sampleRows (fun _ _ => True) s ∧
    s.tasks[0]? = some ⟨.proxy req, some (.ret ⟨200, [], .stream []⟩)⟩ ∧
      attempts s 0 = [(toUpstream "http://a/v1/models", .ok ⟨503, []⟩),
        (toUpstream "http://b/v1/models", .ok ⟨200, []⟩)] ∧ Failover pairConfig s 0 req := by
  obtain ⟨req, hout⟩ : ∃ req, ((server pairConfig).run (fun _ _ => true)
      ((server pairConfig).init (.opened pairConfig sampleRows)) failedOverRun).map
        (fun s => (s.tasks[0]?, attempts s 0)) =
      some (some ⟨.proxy req, some (.ret ⟨200, [], .stream []⟩)⟩,
        [(toUpstream "http://a/v1/models", .ok ⟨503, []⟩),
          (toUpstream "http://b/v1/models", .ok ⟨200, []⟩)]) := ⟨_, rfl⟩
  obtain ⟨s, hs, hseen⟩ := Option.map_eq_some_iff.1 hout
  obtain ⟨htask, hattempts⟩ := Prod.mk.inj hseen
  have hjob : s.job 0 = some (.proxy req) := congrArg (Option.map System.Task.job) htask
  have hrun : ServerRun pairConfig sampleRows (fun _ _ => True) s :=
    System.Reach.of_run (fun _ _ _ => trivial) hs
  exact ⟨s, req, hrun, htask, hattempts, failover_of_run hrun hjob⟩

end Samples
end Gateway.LocalProxy
