import CitrateGateway.Gateway.ProxyCalls

/-!
# What is forwarded is paid for

Every request that was sent to an upstream was charged by a call of its own. So a key has no more
requests forwarded in a day than its quota, and the members together no more than their pool.
-/

namespace Gateway
set_option autoImplicit false
open Words Effects Durable

namespace KeyStore

section Pool
variable {hashKeyId : String → String} {rows₀ : Rows} {s : (proxyCalls hashKeyId).State}
variable {past : List Event} {day : String}

theorem cap_of_view {cap : UInt64} (h : (view past).cap = some cap) :
    (⟨.memberPoolDaily, cap⟩ : Event) ∈ past := by
  induction past with
  | nil => cases h
  | cons e past ih =>
    rw [view] at h
    unfold View.next at h
    split at h <;> first | exact List.mem_cons_of_mem _ (ih h) | skip
    cases h
    exact List.mem_cons_self

/-- The call succeeded and drew on the pool of the day. -/
def drewPool (day : String) (s : (proxyCalls hashKeyId).State) (n : Nat) : Bool :=
  match s.tasks[n]? with
  | some ⟨.tryConsume _, some (.ret ⟨.tryConsume _, .ok _⟩)⟩ =>
    (view (System.trace s.log n)).poolDays == [day]
  | _ => false

theorem last_charge {owner : QuotaOwner} {log : List (Nat × Event)}
    (h : charges owner day log ≠ 0) : ∃ late t n early,
      log = late ++ (t, (⟨.put ⟨.quota owner day, n⟩, .ok ()⟩ : Event)) :: early ∧
        charges owner day log = charges owner day early + 1 := by
  induction log with
  | nil => exact absurd rfl h
  | cons x log ih =>
    obtain ⟨t, e⟩ := x
    by_cases he : isCharge owner day e = true
    · obtain ⟨n, rfl⟩ : ∃ n, e = ⟨.put ⟨.quota owner day, n⟩, .ok ()⟩ := by
        unfold isCharge at he
        split at he
        · obtain ⟨rfl, rfl⟩ := of_decide_eq_true he
          exact ⟨_, rfl⟩
        · cases he
      exact ⟨[], t, n, log, rfl, List.countP_cons_of_pos he⟩
    · have hsame : charges owner day ((t, e) :: log) = charges owner day log :=
        List.countP_cons_of_neg he
      rw [hsame] at h ⊢
      obtain ⟨late, u, n, early, rfl, hcount⟩ := ih h
      exact ⟨(t, e) :: late, u, n, early, rfl, hcount⟩

variable (hrun : ProxyRun hashKeyId rows₀ QuotaStep s)
include hrun

theorem draws_le_charges : callCount (drewPool day s) s ≤ charges .memberPool day s.log := by
  rw [callCount_eq_sum, charges_eq_sum hrun]
  refine Finset.sum_le_sum fun n _ => ?_
  split
  · rename_i hdrew
    unfold drewPool at hdrew
    split at hdrew
    · rename_i keyId keyId' key htask
      have hsound := sound_of_run hrun (System.job_of_task htask)
      rw [hsound.charged .memberPool day (Or.inr rfl), View.charged, beq_iff_eq.1 hdrew]
      simp
    · cases hdrew
  · exact Nat.zero_le _

theorem successes_le {h : String} {r : KeyRecord} (hrecord : rows₀.get (.record h) = some r)
    (hquota : 0 < r.dailyQuota) (day : String) :
    successes h day s ≤ r.dailyQuota.toNat - (counterAt rows₀ (.key h) day).toNat := by
  have hI := quotaInv_of_run hrun
  have hcounted := hI.counted (.key h) day
  have hbounded := hI.bounded h day r hrecord
  rw [charges_eq hrun hrecord hquota] at hcounted
  omega

/-- A pool whose cap was never more than the bound was not charged more often. -/
theorem pool_charges_le {bound : UInt64}
    (hcap : ∀ n cap, (n, (⟨.memberPoolDaily, cap⟩ : Event)) ∈ s.log → cap ≤ bound) (day : String) :
    charges .memberPool day s.log ≤ bound.toNat - (counterAt rows₀ .memberPool day).toNat := by
  by_cases hzero : charges .memberPool day s.log = 0
  · rw [hzero]
    exact Nat.zero_le _
  · obtain ⟨late, t, n, early, hlog, hcount⟩ := last_charge hzero
    obtain ⟨hn, cap, hread, hle⟩ := charge_of_log hrun hlog
    have hmem : (t, (⟨.memberPoolDaily, cap⟩ : Event)) ∈ s.log := by
      rw [hlog]
      exact List.mem_append_right _
        (List.mem_cons_of_mem _ (System.mem_trace.1 (cap_of_view hread)))
    have hbound := UInt64.le_iff_toNat_le.1 (UInt64.le_trans hle (hcap t cap hmem))
    omega

end Pool
end KeyStore

namespace LocalProxy
open App (HeaderMap)
open KeyStore (ProxyMethod QuotaStep succeeded successes drewPool callCount counterAt isMemberLabel)

section Forwards
variable {config : Config} {rows₀ : Rows} {s : (server config).State}
variable {ok : (server config).State → (server config).Action → Prop}
variable {req : Request} {past : List Event} {h day : String} {t : Nat}

theorem key_of_sent (hkept : System.Kept (fun past e => Duty config req (view past) e) past)
    (hsent : (view past).sent ≠ []) : ∃ key, (view past).key = some key := by
  cases past with
  | nil => exact absurd rfl hsent
  | cons e past =>
    obtain ⟨hduty, _⟩ := hkept
    rw [view] at hsent ⊢
    generalize view past = v at hduty hsent ⊢
    cases hduty with
    | send n key => exact ⟨key, rfl⟩
    | stream n key => exact ⟨key, rfl⟩
    | _ => exact absurd rfl hsent

theorem sent_of_issue {headers : HeaderMap}
    (hkept : System.Kept (IssueDuty config headers) past) : (view past).sent = [] := by
  induction past with
  | nil => rfl
  | cons e past ih =>
    obtain ⟨hduty, hkept⟩ := hkept
    have hold := ih hkept
    cases hduty <;> exact hold

/-- A request that was sent to an upstream was charged. -/
theorem charged_of_sent (hrun : ServerRun config rows₀ ok s) (hsent : (viewOf s t).sent ≠ []) :
    ∃ req key, s.job t = some (.proxy req) ∧ (viewOf s t).key = some key := by
  obtain ⟨j, hj⟩ : ∃ j, s.job t = some j := by
    cases htrace : System.trace s.log t with
    | nil =>
      rw [viewOf, htrace] at hsent
      exact absurd rfl hsent
    | cons e past =>
      have hmem : (t, e) ∈ s.log := System.mem_trace.1 (by rw [htrace]; exact List.mem_cons_self)
      have hlt := hrun.log_lt hmem
      exact ⟨s.tasks[t].job, by simp [System.State.job, hlt]⟩
  have hkept := hrun.kept (contract config) (contract_served ok) hj
  cases j with
  | proxy req =>
    obtain ⟨key, hkey⟩ := key_of_sent hkept hsent
    exact ⟨req, key, hj, hkey⟩
  | memberKey headers => exact absurd (sent_of_issue hkept) hsent

/-- The request was sent to an upstream, by a call of this kind. -/
def sentBy (p : Nat → Bool) (s : (server config).State) (t : Nat) : Bool :=
  !(viewOf s t).sent.isEmpty && (viewOf s t).call.any p

/-- How many requests were sent to an upstream, by calls of a kind. -/
def forwards (p : Nat → Bool) (s : (server config).State) : Nat :=
  (List.range s.tasks.length).countP (sentBy p s)

theorem sentBy_iff {p : Nat → Bool} :
    sentBy p s t = true ↔ (viewOf s t).sent ≠ [] ∧ ∃ n, (viewOf s t).call = some n ∧ p n = true := by
  simp [sentBy, Option.any_eq_true]

/-- Requests do not share their calls. -/
theorem forwards_le (hrun : ServerRun config rows₀ ok s) (p : Nat → Bool) :
    forwards p s ≤ callCount p s.shared.keys := by
  have hjob : ∀ {t}, sentBy p s t = true → ∃ req, s.job t = some (.proxy req) := by
    intro t hsent
    obtain ⟨req, key, hj, _⟩ := charged_of_sent hrun (sentBy_iff.1 hsent).1
    exact ⟨req, hj⟩
  let call : Nat → Nat := fun t => (viewOf s t).call.getD 0
  rw [forwards, callCount, List.countP_eq_length_filter, List.countP_eq_length_filter,
    ← List.length_map call]
  apply List.Subperm.length_le
  apply List.Nodup.subperm
  · refine List.Nodup.map_on ?_ (List.nodup_range.filter _)
    intro t ht u hu heq
    obtain ⟨_, n, hn, _⟩ := sentBy_iff.1 (List.mem_filter.1 ht).2
    obtain ⟨_, m, hm, _⟩ := sentBy_iff.1 (List.mem_filter.1 hu).2
    obtain ⟨req, hj⟩ := hjob (List.mem_filter.1 ht).2
    obtain ⟨req', hj'⟩ := hjob (List.mem_filter.1 hu).2
    simp only [call, hn, hm, Option.getD_some] at heq
    subst heq
    exact call_apart hrun hj hj' hn hm
  · intro n hmem
    obtain ⟨t, ht, rfl⟩ := List.mem_map.1 hmem
    obtain ⟨_, n, hn, hp⟩ := sentBy_iff.1 (List.mem_filter.1 ht).2
    obtain ⟨req, hj⟩ := hjob (List.mem_filter.1 ht).2
    obtain ⟨keyId, _, hbegun⟩ := (called_of_run hrun hj).begun n hn
    have hlt := System.lt_of_job ((callsInv_of_run hrun).begun t _ n (System.mem_trace.1 hbegun))
    simp only [call, hn, Option.getD_some]
    exact List.mem_filter.2 ⟨List.mem_range.2 hlt, hp⟩

/-- What is forwarded is within the quotas and the pool. -/
structure Metered (rows₀ : Rows) (s : (server config).State) : Prop where
  charged : ∀ t, (viewOf s t).sent ≠ [] → ∃ req keyId r, s.job t = some (.proxy req) ∧
    extractBearer req.headers = some keyId ∧
      rows₀.get (.record (config.hashKeyId keyId)) = some r ∧
        (viewOf s t).key = some ⟨config.hashKeyId keyId, r.label⟩ ∧
          (0 < r.dailyQuota → ∃ day,
            sentBy (succeeded (config.hashKeyId keyId) day s.shared.keys) s t = true) ∧
          (isMemberLabel r.label = true → (∃ n, (n, ⟨.memberPoolDaily, 0⟩) ∈ s.shared.keys.log) ∨
            ∃ day, sentBy (drewPool day s.shared.keys) s t = true)
  within : ∀ h day r, rows₀.get (.record h) = some r → 0 < r.dailyQuota →
    forwards (succeeded h day s.shared.keys) s ≤
      r.dailyQuota.toNat - (counterAt rows₀ (.key h) day).toNat
  pooled : ∀ bound : UInt64,
    (∀ n cap, (n, ⟨.memberPoolDaily, cap⟩) ∈ s.shared.keys.log → cap ≤ bound) →
      ∀ day, forwards (drewPool day s.shared.keys) s ≤
        bound.toNat - (counterAt rows₀ .memberPool day).toNat

/-- Keys are used and not issued or revoked, the store does not fail, and it is restarted only when
no call is running, and loses nothing. -/
def MeteredStep (s : (server config).State) (act : (server config).Action) : Prop :=
  ∀ b, keyAction s act = some b → QuotaStep s.shared.keys b

end Forwards

section Samples

def meteredStep (s : (server sampleConfig).State) (act : (server sampleConfig).Action) : Bool :=
  (keyAction s act).all (KeyStore.quotaStep s.shared.keys)

theorem meteredStep_of_check {s : (server sampleConfig).State}
    {act : (server sampleConfig).Action} (h : meteredStep s act = true) : MeteredStep s act := by
  intro b hb
  rw [meteredStep, hb] at h
  exact KeyStore.quotaStep_of_check h

/-- The key store's part in one request, and the rest of a request that is served. -/
def chargedRun (t : Nat) : List (server sampleConfig).Action :=
  ([.start (listModels "one"), .exec t .ok] : List (server sampleConfig).Action) ++
  ([.ok, .ok, .day "day", .ok, .ok, .ok].map fun c => .world (.keys t c) : List (server sampleConfig).Action)

def servedRun (t : Nat) : List (server sampleConfig).Action :=
  [.ok, .ok, .ok, .body (.ok []), .ok, .ok, .upstream (.ok ⟨200, []⟩), .items []].map (.exec t)

end Samples
end LocalProxy
end Gateway
