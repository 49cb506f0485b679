import CitrateGateway.Gateway.ProxySlots

/-!
# The queue for the upstreams

Requests get their upstream permits in the order in which they asked, and no permit lies idle while
a request waits.
-/

namespace Gateway.LocalProxy
set_option autoImplicit false
open Words Effects

section Asking
variable {config : Config} {req : Request} {past : List Event} {log : List (Nat × Event)}
variable {t u : Nat}

abbrev asks : Event := ⟨.requestUpstream, ()⟩

/-- The one request asked for a permit before the other. -/
def AskedBefore (log : List (Nat × Event)) (t u : Nat) : Prop :=
  ∃ late early, log = late ++ (u, asks) :: early ∧ (t, asks) ∈ early

theorem AskedBefore.cons (h : AskedBefore log t u) (x : Nat × Event) :
    AskedBefore (x :: log) t u := by
  obtain ⟨late, early, rfl, hmem⟩ := h
  exact ⟨x :: late, early, rfl, hmem⟩

theorem asked_of_view (h : (view past).asked = true) : asks ∈ past := by
  obtain ⟨e, hmem, v, hold, hnew⟩ := event_of_view (P := (·.asked = true)) nofun h
  unfold View.next at hnew
  split at hnew <;> first | exact absurd hnew hold | skip
  exact hmem

theorem asked_of_mem (h : asks ∈ past) : (view past).asked = true := by
  induction past with
  | nil => cases h
  | cons e past ih =>
    rcases List.mem_cons.1 h with rfl | hmem
    · rfl
    · rw [view]
      unfold View.next
      split <;> first | exact ih hmem | rfl

/-- A request asks once. -/
theorem unasked_of_duty {j : Job} (h : j.Duty config past asks) : asks ∉ past := by
  intro hmem
  have hasked := asked_of_mem hmem
  cases j with
  | proxy req =>
    simp only [Job.Duty] at h
    generalize view past = v at h hasked
    cases h
    cases hasked
  | memberKey headers => cases h

end Asking

section Runs
variable {config : Config} {rows₀ : Rows} {s : (server config).State}
variable {ok : (server config).State → (server config).Action → Prop}

theorem asked_of_member (hrun : ServerRun config rows₀ ok s) {u : Nat}
    (h : u ∈ s.shared.upstreamSlots.members) : (u, asks) ∈ s.log := by
  have hasked := (((slotsHeld_of_run hrun).upstream.mem u).1 h).2
  simp only [View.inUpstream, Bool.and_eq_true] at hasked
  exact System.mem_trace.1 (asked_of_view hasked.1)

/-- The queue stands in the order of the asking, behind those who have a permit. -/
theorem ordered_of_run (hrun : ServerRun config rows₀ ok s) :
    Semaphore.Ordered (AskedBefore s.log) s.shared.upstreamSlots := by
  refine System.Reach.invariant (S := server config)
    (fun s => Semaphore.Ordered (AskedBefore s.log) s.shared.upstreamSlots) hrun
    (Semaphore.ordered_new _) ?_
  intro s s' act hr hI hok hT
  cases hT with
  | start j sh hstart =>
    cases hstart
    exact hI
  | exec t c j o k a sh htask hhandle =>
    have hold : Semaphore.Ordered (AskedBefore ((t, ⟨o, a⟩) :: s.log)) s.shared.upstreamSlots :=
      hI.mono fun _ _ _ _ h => h.cons _
    have hnext : Semaphore.Ordered (AskedBefore ((t, ⟨o, a⟩) :: s.log)) sh.upstreamSlots := by
      cases handle_cases hhandle with
      | request => exact hold.request fun u hu => ⟨[], s.log, rfl, asked_of_member hr hu⟩
      | timeout hnot => exact hold.leave t
      | _ => exact hold
    show Semaphore.Ordered _ ((server config).settle t (k a) sh).upstreamSlots
    cases k a with
    | ret r => exact hnext.leave t
    | op o' k' => exact hnext
  | drop t j o k htask => exact hI.leave t
  | world w sh hworld =>
    rcases turn_cases hworld with ⟨-, keys, rfl⟩ | ⟨-, keys, rfl⟩
    · exact hI
    · exact Semaphore.ordered_new _

theorem AskedBefore.asymm (hrun : ServerRun config rows₀ ok s) {t u : Nat}
    (h : AskedBefore s.log t u) : ¬ AskedBefore s.log u t := by
  intro h'
  have honce : ∀ {late early : List (Nat × Event)} {t : Nat}, s.log = late ++ (t, asks) :: early →
      (t, asks) ∉ early := by
    intro late early t hlog hmem
    obtain ⟨j, -, -, hduty⟩ := hrun.guar (contract config) (contract_served ok) hlog
    exact unasked_of_duty hduty (System.mem_trace.2 hmem)
  obtain ⟨late, early, hlog, hmem⟩ := h
  obtain ⟨late', early', hlog', hmem'⟩ := h'
  rcases List.append_eq_append_iff.1 (hlog.symm.trans hlog') with ⟨mid, -, hmid⟩ | ⟨mid, -, hmid⟩
  · cases mid with
    | nil =>
      cases hmid
      exact honce hlog hmem
    | cons x mid =>
      cases hmid
      exact honce hlog (List.mem_append_right _ (List.mem_cons_of_mem _ hmem'))
  · cases mid with
    | nil =>
      cases hmid
      exact honce hlog hmem
    | cons x mid =>
      cases hmid
      exact honce hlog' (List.mem_append_right _ (List.mem_cons_of_mem _ hmem))

/-- What holds of the requests that have a permit or wait for one. -/
structure Queued (s : (server config).State) : Prop where
  noOvertaking : ∀ t u, InFlight s View.inUpstream t → AskedBefore s.log t u →
    u ∈ s.shared.upstreamSlots.holders → t ∈ s.shared.upstreamSlots.holders
  noIdlePermit : ∀ t, InFlight s View.inUpstream t → t ∉ s.shared.upstreamSlots.holders →
    s.shared.upstreamSlots.holders.length = config.state.maxConcurrentUpstream

/-- Nobody is overtaken, and nobody waits without need. -/
theorem queued_of_run (hrun : ServerRun config rows₀ ok s) : Queued s := by
  have hheld := slotsHeld_of_run hrun
  have hqueue : ∀ {t}, InFlight s View.inUpstream t → t ∉ s.shared.upstreamSlots.holders →
      t ∈ s.shared.upstreamSlots.queue := by
    intro t hin hnot
    exact (List.mem_append.1 ((hheld.upstream.mem t).2 hin)).resolve_left hnot
  refine ⟨fun t u hin hbefore hu => ?_, fun t hin hnot => ?_⟩
  · by_contra hnot
    have hlater := (ordered_of_run hrun).holders u hu t (hqueue hin hnot)
    exact hbefore.asymm hrun hlater
  · have hidle := s.shared.upstreamSlots.idle (List.ne_nil_of_mem (hqueue hin hnot))
    have hcapacity := (sized_of_run hrun).upstream
    rwa [Semaphore.capacity, hidle, Nat.zero_add] at hcapacity

end Runs

section Samples

/-- The third request asked after the first, and waits until that one is dropped. -/
theorem queued_of_run_sample : ∃ s s' : (server sampleConfig).State,
    ServerRun sampleConfig sampleRows (fun _ _ => True) s ∧ s.shared.upstreamSlots.holders = [0] ∧ s.shared.upstreamSlots.queue = [2] ∧ Queued s ∧
      s'.shared.upstreamSlots.holders = [2] ∧ Queued s' := by
  obtain ⟨s, hs, hholders, hqueue, s', hs', hnext⟩ : ∃ s, (server sampleConfig).run (fun _ _ => true)
      ((server sampleConfig).init (.opened sampleConfig sampleRows)) busyRun = some s ∧
      s.shared.upstreamSlots.holders = [0] ∧ s.shared.upstreamSlots.queue = [2] ∧
      ∃ s', (server sampleConfig).step s (.drop 0) = some s' ∧
        s'.shared.upstreamSlots.holders = [2] := ⟨_, rfl, rfl, rfl, _, rfl, rfl⟩
  have hrun : ServerRun sampleConfig sampleRows (fun _ _ => True) s :=
    System.Reach.of_run (fun _ _ _ => trivial) hs
  exact ⟨s, s', hrun, hholders, hqueue, queued_of_run hrun, hnext,
    queued_of_run (hrun.step trivial hs')⟩

end Samples
end Gateway.LocalProxy
