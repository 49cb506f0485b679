import CitrateGateway.Gateway.IssuanceLimits
import CitrateGateway.Gateway.MemberKeys
import CitrateGateway.Gateway.ProxyCalls

/-!
# Who is issued a key, and how often

A key is minted for an account only at the request of a caller whose token the identity provider
vouched for, once a request, and once the limiter has granted it. So while the process runs and its
clock does not go back, no account is minted more keys in a day than its budget, and no address has
more of them minted in an hour than its own.
-/

namespace Gateway.LocalProxy
set_option autoImplicit false
open Words Effects Durable
open KeyStore (ProxyMethod proxyCalls)
open MemberKeys (Call Ordered Permitted reserving granted decision isGrant serves_reserving)
open App (HeaderMap)

section Rotations
variable {config : Config} {rows₀ : Rows} {s : (server config).State}
variable {ok : (server config).State → (server config).Action → Prop}
variable {m : ProxyMethod} {headers : HeaderMap} {past : List Event} {t n : Nat}

/-- A call that no operator makes was begun by a request. -/
theorem begun_of_job (hrun : ServerRun config rows₀ ok s) (hm : isOperatorCall m = false)
    (hjob : s.shared.keys.job n = some m) : ∃ t, (t, (⟨.begin m, n⟩ : Event)) ∈ s.log := by
  refine System.Reach.invariant (fun s : (server config).State => ∀ n : Nat,
    s.shared.keys.job n = some m → ∃ t, (t, (⟨.begin m, n⟩ : Event)) ∈ s.log) hrun ?_ ?_ n hjob
  · intro n h
    cases h
  intro s s' act hr hI hok hT n hn
  have hlog : ∀ {t}, (t, (⟨.begin m, n⟩ : Event)) ∈ s.log →
      (t, (⟨.begin m, n⟩ : Event)) ∈ s'.log := by
    intro t hmem
    cases hT with
    | exec u c j o k a sh htask hhandle => exact List.mem_cons_of_mem _ hmem
    | _ => exact hmem
  rcases keys_step hT with ⟨-, hkeys⟩ | ⟨b, hb, hstep⟩
  · rw [hkeys] at hn
    obtain ⟨t, hmem⟩ := hI n hn
    exact ⟨t, hlog hmem⟩
  by_cases hnew : s.shared.keys.tasks.length ≤ n
  · obtain ⟨rfl, hstart | ⟨_, _, _, _, _, _, _, _, hspawn, _⟩⟩ :=
      System.new_of_transition (System.step_cases hstep) hn hnew
    · subst hstart
      cases hT with
      | exec t c j o k a sh htask hhandle =>
        simp only [keyAction, htask] at hb
        cases o with
        | begin m' =>
          cases hb
          cases handle_cases hhandle
          exact ⟨t, List.mem_cons_self⟩
        | _ => cases hb
      | world w sh hworld =>
        cases w with
        | operator m' =>
          cases hb
          simp only [turn, hm] at hworld
          cases hworld
        | _ => cases hb
      | _ => cases hb
    · cases hspawn
  · rw [System.job_eq_of_step hstep (Nat.not_le.1 hnew)] at hn
    obtain ⟨t, hmem⟩ := hI n hn
    exact ⟨t, hlog hmem⟩

/-- What a request had done when it began its rotation. -/
theorem granted_of_duty (h : IssueDuty config headers past ⟨.begin m, n⟩) :
    ∃ (v : Vouched config headers) (now : UInt64), m = v.rotation ∧ past = v.granted now := by
  cases h with
  | begin v now => exact ⟨v, now, rfl, rfl⟩

theorem begin_not_mem_granted (v : Vouched config headers) (now : UInt64) :
    (⟨.begin m, n⟩ : Event) ∉ v.granted now := by
  intro hmem
  simp [Vouched.granted, Vouched.vouched, Caller.unblocked] at hmem

/-- A request begins one rotation at most. -/
theorem begun_once (hkept : System.Kept (IssueDuty config headers) past) {m' : ProxyMethod}
    {n' : Nat} (hmem : (⟨.begin m, n⟩ : Event) ∈ past) (hmem' : (⟨.begin m', n'⟩ : Event) ∈ past) :
    n = n' := by
  induction past with
  | nil => cases hmem
  | cons e past ih =>
    obtain ⟨hduty, hkept⟩ := hkept
    rcases List.mem_cons.1 hmem with rfl | hold
    · rcases List.mem_cons.1 hmem' with heq | hold'
      · cases heq
        rfl
      · obtain ⟨v, now, -, rfl⟩ := granted_of_duty hduty
        exact absurd hold' (begin_not_mem_granted v now)
    · rcases List.mem_cons.1 hmem' with rfl | hold'
      · obtain ⟨v, now, -, rfl⟩ := granted_of_duty hduty
        exact absurd hold (begin_not_mem_granted v now)
      · exact ih hkept hold hold'

/-- A rotation that a request of the caller began, with everything it had done before. -/
structure RotatedFor (s : (server config).State) (headers : HeaderMap) (v : Vouched config headers)
    (now : UInt64) (t n : Nat) : Prop where
  job : s.job t = some (.memberKey headers)
  done : ⟨.begin v.rotation, n⟩ :: v.granted now <:+ System.trace s.log t

theorem rotatedFor_of_begun (hrun : ServerRun config rows₀ ok s) {account : String}
    {quotaRps : UInt32} {dailyQuota : UInt64}
    (hmem : (t, (⟨.begin (.rotateMemberKey account quotaRps dailyQuota), n⟩ : Event)) ∈ s.log) :
    ∃ (headers : HeaderMap) (v : Vouched config headers) (now : UInt64),
      .rotateMemberKey account quotaRps dailyQuota = v.rotation ∧
        RotatedFor s headers v now t n := by
  obtain ⟨late, early, htrace⟩ := List.append_of_mem (System.mem_trace.2 hmem)
  obtain ⟨late', early', hlog, hearly⟩ := System.trace_split htrace
  obtain ⟨j, hj, -, hduty⟩ := hrun.guar (contract config) (contract_served ok) hlog
  cases j with
  | proxy req =>
    simp only [contract, Job.Duty] at hduty
    generalize view (System.trace early' t) = v at hduty
    cases hduty
  | memberKey headers =>
    obtain ⟨v, now, hm, hpast⟩ := granted_of_duty hduty
    refine ⟨headers, v, now, hm, hj, ?_⟩
    rw [htrace, ← hearly, hpast, hm]
    exact List.suffix_append _ _

/-- What is true of the keys that are issued. -/
structure Issuance (config : Config) (s : (server config).State) : Prop where
  vouched : ∀ n account quotaRps dailyQuota,
    s.shared.keys.job n = some (.rotateMemberKey account quotaRps dailyQuota) →
      ∃ (t : Nat) (headers : HeaderMap) (v : Vouched config headers) (now : UInt64),
        account = v.account ∧ quotaRps = v.cfg.quotaRps ∧ dailyQuota = v.cfg.dailyQuota ∧
          RotatedFor s headers v now t n
  once : ∀ t headers m m' n n', s.job t = some (.memberKey headers) →
    (t, ⟨.begin m, n⟩) ∈ s.log → (t, ⟨.begin m', n'⟩) ∈ s.log → n = n'
  returned : ∀ t headers r key baseUrl model quotaRps dailyRequests,
    s.tasks[t]? = some ⟨.memberKey headers, some (.ret r)⟩ →
      r.body = .issued key baseUrl model quotaRps dailyRequests →
        ∃ (v : Vouched config headers) (now : UInt64) (n : Nat), RotatedFor s headers v now t n ∧
          quotaRps = v.cfg.quotaRps ∧ dailyRequests = v.cfg.dailyQuota ∧
            KeyStore.Completed s.shared.keys v.account n key
  single : ∀ account n key n' key', KeyStore.Completed s.shared.keys account n key →
    KeyStore.Completed s.shared.keys account n' key' →
      KeyStore.Live s.shared.keys (config.hashKeyId key) →
        KeyStore.Live s.shared.keys (config.hashKeyId key') → n = n'

theorem issued_of_answered {r : Response} (h : IssueAnswered config headers past r) {key baseUrl
    model : String} {quotaRps : UInt32} {dailyRequests : UInt64}
    (hbody : r.body = .issued key baseUrl model quotaRps dailyRequests) :
    ∃ (v : Vouched config headers) (now : UInt64) (n : Nat), quotaRps = v.cfg.quotaRps ∧
      dailyRequests = v.cfg.dailyQuota ∧
        past = ⟨.await v.rotation n, .ok key⟩ :: ⟨.begin v.rotation, n⟩ :: v.granted now := by
  cases h with
  | issued v now n key' =>
    cases hbody
    exact ⟨v, now, n, rfl, rfl, rfl⟩
  | _ => cases hbody

/-- In every run, keys are minted only for callers that were vouched for, and an account has one
usable key. -/
theorem issuance_of_run (hopen : KeyStore.Unmapped rows₀) (hrun : ServerRun config rows₀ ok s) :
    Issuance config s where
  vouched n account quotaRps dailyQuota hjob := by
    obtain ⟨t, hmem⟩ := begun_of_job hrun rfl hjob
    obtain ⟨headers, v, now, hm, hfor⟩ := rotatedFor_of_begun hrun hmem
    rw [Vouched.rotation, ProxyMethod.rotateMemberKey.injEq] at hm
    exact ⟨t, headers, v, now, hm.1, hm.2.1, hm.2.2, hfor⟩
  once t headers m m' n n' hjob hmem hmem' :=
    begun_once (hrun.kept (contract config) (contract_served ok) hjob) (System.mem_trace.2 hmem)
      (System.mem_trace.2 hmem')
  returned t headers r key baseUrl model quotaRps dailyRequests htask hbody := by
    obtain ⟨v, now, n, hquota, hdaily, hpast⟩ :=
      issued_of_answered (answered_of_task hrun htask) hbody
    have hI := callsInv_of_run hrun
    have hmem : (t, (⟨.begin v.rotation, n⟩ : Event)) ∈ s.log :=
      System.mem_trace.1 (by rw [hpast]; simp)
    have hanswer : (t, (⟨.await v.rotation n, .ok key⟩ : Event)) ∈ s.log :=
      System.mem_trace.1 (by rw [hpast]; exact List.mem_cons_self)
    refine ⟨v, now, n, ⟨System.job_of_task htask, ?_⟩, hquota, hdaily, ?_⟩
    · rw [hpast]
      exact List.suffix_cons _ _
    · obtain ⟨j, hreturned⟩ := returned_iff.1 (hI.answered t _ n _ hanswer)
      have hj := hI.begun t _ n hmem
      rw [System.job_of_task hreturned] at hj
      cases hj
      exact ⟨v.cfg.quotaRps, v.cfg.dailyQuota, hreturned⟩
  single account n key n' key' hc hc' hlive hlive' := by
    have hkeys := keysRun_of_run (keysOk_true ok) hrun
    by_contra hne
    have hlatest := KeyStore.latest_of_live hopen hkeys hc hlive n' key' hc' (Ne.symm hne)
    exact hlatest.asymm hne (KeyStore.latest_of_live hopen hkeys hc' hlive' n key hc hne)

end Rotations

section Lifetime
variable {config : Config} {cfg : MemberKeyConfig} {rows₀ : Rows} {s₀ s : (server config).State}
variable {ok : (server config).State → (server config).Action → Prop}

/-- What the limiter was asked. -/
def reservation : Event → Option Call
  | ⟨.reserve account ip, (now, _)⟩ => some ⟨account, ip, now⟩
  | _ => none

/-- What the limiter granted. -/
def grant : Event → Option Call
  | ⟨.reserve account ip, (now, .ok _)⟩ => some ⟨account, ip, now⟩
  | _ => none

def calls (log : List (Nat × Event)) : List Call := log.filterMap fun x => reservation x.2

def grants (log : List (Nat × Event)) : List Call := log.filterMap fun x => grant x.2

/-- The process goes on, and its clock does not go back. -/
def GoesOn (s₀ s : (server config).State) : (server config).Action → Prop
  | .world (.restart _) => False
  | .exec _ (.secs now) => ∀ late, s.log = late ++ s₀.log → ∀ c ∈ calls late, c.now ≤ now
  | _ => True

/-- The limiter of a process knows what was asked since it started. -/
structure Lifetime (cfg : MemberKeyConfig) (s₀ s : (server config).State) : Prop where
  limiter : ∃ late, s.log = late ++ s₀.log ∧ Ordered (calls late) ∧
    granted (reserving cfg.toMemberKeyConfig) (calls late) = grants late ∧
      s.shared.limiter = MemberKeys.state (reserving cfg.toMemberKeyConfig) (calls late)

theorem limiter_advance {t : Nat} {j : Job} {o : Op} {k : o.Ans → M Response} {a : o.Ans}
    {sh : Shared config} : (s.advance t j o k a sh).shared.limiter = sh.limiter := by
  show ((server config).settle t (k a) sh).limiter = sh.limiter
  cases k a <;> rfl

/-- An operation asks the limiter, or leaves it alone. -/
theorem limiter_of_handle {sh sh' : Shared config} {t : Nat} {o : Op} {c : Input} {a : o.Ans}
    (henabled : config.state.memberKeys = some cfg) (h : handle sh t o c = some (a, sh')) :
    (∃ account ip now, c = .secs now ∧ (⟨o, a⟩ : Event) = ⟨.reserve account ip,
        (now, (sh.limiter.reserve account ip now cfg.toMemberKeyConfig).1)⟩ ∧
        sh'.limiter = (sh.limiter.reserve account ip now cfg.toMemberKeyConfig).2) ∨
      (reservation ⟨o, a⟩ = none ∧ sh'.limiter = sh.limiter) := by
  cases o with
  | reserve account ip =>
    cases c with
    | secs now =>
      simp only [handle, henabled, Option.map_some] at h
      cases h
      exact Or.inl ⟨account, ip, now, rfl, rfl, rfl⟩
    | _ => cases h
  | _ =>
    refine Or.inr ⟨rfl, ?_⟩
    cases handle_cases h <;> rfl

theorem grant_of_reservation {e : Event} (h : reservation e = none) : grant e = none := by
  unfold grant
  split
  · cases h
  · rfl

theorem grants_cons_reserve (t : Nat) (account ip : String) (now : UInt64)
    (r : Except UInt64 Unit) (late : List (Nat × Event)) :
    grants ((t, ⟨.reserve account ip, (now, r)⟩) :: late) =
      if isGrant r then ⟨account, ip, now⟩ :: grants late else grants late := by
  cases r <;> rfl

/-- One step of a process that goes on. -/
theorem Lifetime.step (henabled : config.state.memberKeys = some cfg) (h : Lifetime cfg s₀ s)
    {s' : (server config).State} {act : (server config).Action} (hok : GoesOn s₀ s act)
    (hT : System.Transition s act s') : Lifetime cfg s₀ s' := by
  obtain ⟨late, hlog, hordered, hgranted, hlimiter⟩ := h.limiter
  cases hT with
  | start j sh hstart =>
    cases hstart
    exact ⟨late, hlog, hordered, hgranted, hlimiter⟩
  | drop t j o k htask => exact ⟨late, hlog, hordered, hgranted, hlimiter⟩
  | world w sh hworld =>
    refine ⟨late, hlog, hordered, hgranted, ?_⟩
    cases w with
    | keys n c =>
      obtain ⟨keys, -, rfl⟩ := Option.map_eq_some_iff.1 hworld
      exact hlimiter
    | operator m =>
      simp only [turn] at hworld
      split at hworld
      · cases hworld
        exact hlimiter
      · cases hworld
    | restart mask => exact hok.elim
  | exec t c j o k a sh htask hhandle =>
    refine ⟨(t, ⟨o, a⟩) :: late, congrArg _ hlog, ?_⟩
    rw [limiter_advance]
    rcases limiter_of_handle henabled hhandle with ⟨account, ip, now, rfl, he, hnext⟩ | ⟨hnone, hsame⟩
    · have hle : ∀ c ∈ calls late, c.now.toNat ≤ now.toNat := fun c hc =>
        UInt64.le_iff_toNat_le.1 (hok late hlog c hc)
      cases he
      refine ⟨List.pairwise_cons.2 ⟨hle, hordered⟩, ?_, ?_⟩
      · rw [grants_cons_reserve, ← hgranted, hlimiter]
        rfl
      · rw [hnext, hlimiter]
        rfl
    · have hcalls : calls ((t, ⟨o, a⟩) :: late) = calls late := List.filterMap_cons_none hnone
      have hgrants : grants ((t, ⟨o, a⟩) :: late) = grants late :=
        List.filterMap_cons_none (grant_of_reservation hnone)
      rw [hcalls, hgrants, hsame]
      exact ⟨hordered, hgranted, hlimiter⟩

/-- A run of a process that starts with an empty limiter. -/
theorem lifetime_of_run (henabled : config.state.memberKeys = some cfg)
    (hboot : s₀.shared.limiter = .empty) (hrun : System.Reach (server config) (GoesOn s₀) s₀ s) :
    Lifetime cfg s₀ s := by
  induction hrun with
  | refl => exact ⟨[], rfl, .nil, rfl, hboot⟩
  | step _ hok hstep ih => exact ih.step henabled hok (System.step_cases hstep)

def isRotation : Event → Bool
  | ⟨.begin (.rotateMemberKey _ _ _), _⟩ => true
  | _ => false

/-- The request had a key minted, by a grant of this kind. -/
def issuedAs (p : Call → Bool) (s : (server config).State) (t : Nat) : Bool :=
  (System.trace s.log t).any isRotation && (System.trace s.log t).any fun e => (grant e).any p

/-- How many requests from the given one on had a key minted, by grants of a kind. -/
def issuances (n₀ : Nat) (p : Call → Bool) (s : (server config).State) : Nat :=
  (List.range s.tasks.length).countP fun t => decide (n₀ ≤ t) && issuedAs p s t

/-- How often keys are minted while a process runs. -/
structure IssuanceLimited (cfg : MemberKeyConfig) (n₀ : Nat) (s : (server config).State) :
    Prop where
  counted : ∀ t account quotaRps dailyQuota n,
    (t, ⟨.begin (.rotateMemberKey account quotaRps dailyQuota), n⟩) ∈ s.log →
      ∃ ip now, (t, ⟨.reserve account ip, (now, .ok ())⟩) ∈ s.log
  daily : ∀ account day, issuances n₀ (Call.onDay account day) s ≤ cfg.accountDailyMax.toNat
  hourly : ∀ ip hour, issuances n₀ (Call.inHour ip hour) s ≤ cfg.ipHourlyMax.toNat
  spaced : ∀ t u e e' c d, n₀ ≤ t → n₀ ≤ u → t ≠ u → (t, e) ∈ s.log → (u, e') ∈ s.log →
    grant e = some c → grant e' = some d → c.account = d.account →
      c.now.toNat + cfg.accountMinInterval.secs.toNat ≤ d.now.toNat ∨
        d.now.toNat + cfg.accountMinInterval.secs.toNat ≤ c.now.toNat

section Limits
variable {late : List (Nat × Event)}

theorem mem_late (hrun : ServerRun config rows₀ ok s₀) (hlog : s.log = late ++ s₀.log) {t : Nat}
    {e : Event} (hmem : (t, e) ∈ s.log) (ht : s₀.tasks.length ≤ t) : (t, e) ∈ late := by
  rw [hlog] at hmem
  rcases List.mem_append.1 hmem with hlate | hearly
  · exact hlate
  · exact absurd (hrun.log_lt hearly) (Nat.not_lt.2 ht)

theorem countP_grants (p : Call → Bool) (log : List (Nat × Event)) :
    (grants log).countP p = log.countP fun x => (grant x.2).any p := by
  rw [grants, List.countP_filterMap]
  refine List.countP_congr fun x _ => ?_
  cases grant x.2 <;> rfl

/-- Every request has a grant of its own. -/
theorem issuances_le (hrun : ServerRun config rows₀ ok s₀) (hlog : s.log = late ++ s₀.log)
    (p : Call → Bool) : issuances s₀.tasks.length p s ≤ (grants late).countP p := by
  rw [issuances, countP_grants, List.countP_eq_length_filter, List.countP_eq_length_filter,
    ← List.length_map fun x : Nat × Event => x.1]
  refine ((List.nodup_range.filter _).subperm fun t ht => ?_).length_le
  have hissued := (List.mem_filter.1 ht).2
  simp only [issuedAs, Bool.and_eq_true, decide_eq_true_eq, List.any_eq_true] at hissued
  obtain ⟨hnew, -, e, hmem, hgrant⟩ := hissued
  have hlate := mem_late hrun hlog (System.mem_trace.1 hmem) hnew
  exact List.mem_map.2 ⟨(t, e), List.mem_filter.2 ⟨hlate, hgrant⟩, rfl⟩

/-- Grants of one account keep their distance, whichever came first. -/
def Apart (cfg : MemberKeyConfig) (x y : Nat × Event) : Prop :=
  ∀ c d, grant x.2 = some c → grant y.2 = some d → c.account = d.account →
    c.now.toNat + cfg.accountMinInterval.secs.toNat ≤ d.now.toNat ∨
      d.now.toNat + cfg.accountMinInterval.secs.toNat ≤ c.now.toNat

instance : Std.Symm (Apart cfg) where
  symm _ _ h c d hc hd hsame := (h d c hd hc hsame.symm).symm

theorem spaced_grants {past : List Call} (hip : 1 ≤ cfg.ipHourlyMax.toNat)
    (haccount : 1 ≤ cfg.accountDailyMax.toNat) (hordered : Ordered past) :
    (granted (reserving cfg.toMemberKeyConfig) past).Pairwise fun c earlier =>
      earlier.account = c.account →
        earlier.now.toNat + cfg.accountMinInterval.secs.toNat ≤ c.now.toNat := by
  refine (serves_reserving cfg.toMemberKeyConfig).induct hip haccount .nil ?_ hordered
  intro c grants hkept hpermitted
  exact List.pairwise_cons.2 ⟨fun g hg => hpermitted.spacing g hg, hkept⟩

end Limits

/-- While a process runs and its clock does not go back, the keys it mints are within the budgets of
the accounts and the addresses. -/
theorem issuanceLimited_of_run (henabled : config.state.memberKeys = some cfg)
    (hip : 1 ≤ cfg.ipHourlyMax.toNat) (haccount : 1 ≤ cfg.accountDailyMax.toNat)
    (hstart : ServerRun config rows₀ (fun _ _ => True) s₀) (hboot : s₀.shared.limiter = .empty)
    (hrun : System.Reach (server config) (GoesOn s₀) s₀ s) :
    IssuanceLimited cfg s₀.tasks.length s := by
  obtain ⟨late, hlog, hordered, hgranted, -⟩ := (lifetime_of_run henabled hboot hrun).limiter
  have hwhole : ServerRun config rows₀ (fun _ _ => True) s :=
    hstart.trans (hrun.mono fun _ _ _ => trivial)
  constructor
  · intro t account quotaRps dailyQuota n hmem
    obtain ⟨headers, v, now, hm, hfor⟩ := rotatedFor_of_begun hwhole hmem
    rw [Vouched.rotation, ProxyMethod.rotateMemberKey.injEq] at hm
    refine ⟨v.ip, now, System.mem_trace.1 (hfor.done.subset ?_)⟩
    rw [hm.1]
    simp [Vouched.granted]
  · intro account day
    refine (issuances_le hstart hlog _).trans ?_
    rw [← hgranted]
    exact MemberKeys.daily_budget hip haccount hordered account day
  · intro ip hour
    refine (issuances_le hstart hlog _).trans ?_
    rw [← hgranted]
    exact MemberKeys.hourly_budget hip haccount hordered ip hour
  · intro t u e e' c d ht hu hne hmem hmem' hc hd hsame
    have hpairs := spaced_grants hip haccount hordered
    rw [hgranted, grants, List.pairwise_filterMap] at hpairs
    have hapart : late.Pairwise (Apart cfg) := hpairs.imp fun h c d hc hd hsame =>
      Or.inr (h c hc d hd hsame.symm)
    exact hapart.forall (mem_late hstart hlog hmem ht) (mem_late hstart hlog hmem' hu)
      (fun heq => hne (congrArg Prod.fst heq)) c d hc hd hsame

end Lifetime

section Samples

def annBody : Bytes := utf8 "\x7b\"sub\":\"ann\"\x7d"

def subjectFormat : JsonFormat where
  fromSlice body := if body = annBody then some (.object [("sub", .string "ann")]) else none
  toVec _ := none

theorem zero_nanos_lt : (0 : UInt32).toNat < 1000000000 := by decide

def sampleMemberKeys : MemberKeyConfig where
  accountMinInterval := ⟨0, 0, zero_nanos_lt⟩
  accountDailyMax := 1
  ipHourlyMax := 5
  userinfoUrl := "http://idp"
  quotaRps := 1
  dailyQuota := 300
  poolDaily := 50000
  maxConcurrent := 2
  baseUrl := "http://infer"
  model := "model"
  trustForwardedFor := false

def issuingConfig : Config :=
  { sampleConfig with
    state := sampleConfig.state.withMemberKeys sampleMemberKeys
    format := subjectFormat }

def askForKey : Job := .memberKey [("authorization", utf8 "Bearer token")]

/-- A request for a key up to the answer of the limiter. -/
def asked (t : Nat) (now : UInt64) : List (server issuingConfig).Action :=
  [.start askForKey, .exec t (.secs now), .exec t (.userinfo (.ok ⟨200, [some annBody]⟩)),
    .exec t (.secs now)]

/-- The caller is issued a key; on the same day it is not issued another. -/
def issuedRun : List (server issuingConfig).Action :=
  asked 0 5 ++ ([.exec 0 .ok] : List (server issuingConfig).Action) ++
  ([.ok, .ok, .uuid "1", .secs 5, .ok, .ok, .ok].map fun c => .world (.keys 0 c) : List (server issuingConfig).Action) ++
  ([.exec 0 .ok] : List (server issuingConfig).Action) ++ asked 1 6

def issuedToAnn : Response :=
  memberKeyResponse 200 (.issued "cgk_1" "http://infer" "model" 1 300)

def refusedToday : Response := tooMany 86394 "key issuance rate limit exceeded"

theorem issuance_of_run_sample : ∃ s,
    ServerRun issuingConfig KeyStore.emptyRows (fun _ _ => True) s ∧
      s.tasks[0]?.bind (·.prog) = some (.ret issuedToAnn) ∧
        s.tasks[1]?.bind (·.prog) = some (.ret refusedToday) ∧ Issuance issuingConfig s := by
  have hout : ((server issuingConfig).run (fun _ _ => true)
      ((server issuingConfig).init (.opened issuingConfig KeyStore.emptyRows)) issuedRun).map
        (fun s => (s.tasks[0]?.bind (·.prog), s.tasks[1]?.bind (·.prog))) =
      some (some (.ret issuedToAnn), some (.ret refusedToday)) := rfl
  obtain ⟨s, hs, hseen⟩ := Option.map_eq_some_iff.1 hout
  obtain ⟨hissued, hrefused⟩ := Prod.mk.inj hseen
  have hrun : ServerRun issuingConfig KeyStore.emptyRows (fun _ _ => True) s :=
    System.Reach.of_run (fun _ _ _ => trivial) hs
  exact ⟨s, hrun, hissued, hrefused, issuance_of_run KeyStore.unmapped_emptyRows hrun⟩

def goesOn (s : (server issuingConfig).State) : (server issuingConfig).Action → Bool
  | .world (.restart _) => false
  | .exec _ (.secs now) => (calls s.log).all (·.now ≤ now)
  | _ => true

theorem goesOn_of_check {s₀ s : (server issuingConfig).State} {act : (server issuingConfig).Action}
    (h : goesOn s act = true) : GoesOn s₀ s act := by
  cases act with
  | exec t c =>
    cases c with
    | secs now =>
      intro late hlog c hc
      have hall := List.all_eq_true.1 h c
      rw [hlog, calls, List.filterMap_append] at hall
      exact of_decide_eq_true (hall (List.mem_append_left _ hc))
    | _ => trivial
  | world w =>
    cases w with
    | restart mask => cases h
    | _ => trivial
  | _ => trivial

theorem issuanceLimited_of_run_sample : ∃ s,
    ServerRun issuingConfig KeyStore.emptyRows (fun _ _ => True) s ∧
      issuances 0 (Call.onDay "616e6e" 0) s = 1 ∧ IssuanceLimited sampleMemberKeys 0 s := by
  have hout : ((server issuingConfig).run goesOn
      ((server issuingConfig).init (.opened issuingConfig KeyStore.emptyRows)) issuedRun).map
        (issuances 0 (Call.onDay "616e6e" 0)) = some 1 := rfl
  obtain ⟨s, hs, hcount⟩ := Option.map_eq_some_iff.1 hout
  let s₀ := (server issuingConfig).init (.opened issuingConfig KeyStore.emptyRows)
  have hrun : System.Reach (server issuingConfig) (GoesOn s₀) s₀ s :=
    System.Reach.of_run (fun _ _ => goesOn_of_check) hs
  exact ⟨s, hrun.mono fun _ _ _ => trivial, hcount,
    issuanceLimited_of_run rfl (by decide) (by decide) .refl rfl hrun⟩

end Samples
end Gateway.LocalProxy
