import CitrateGateway.Gateway.Consumption

/-!
# The per-second limit under concurrency

A call reads the clock before it takes the lock of the rate map. The window of a key counts
the second it was last moved to, so the limit of a second holds as long as no call comes to a
window that has moved past its own second.
-/

namespace Gateway
set_option autoImplicit false
open Words Effects Durable

namespace RateWindow

/-- What the window has counted for a second. -/
def counted (entry : Option RateWindow) (now : UInt64) : UInt32 :=
  match entry with
  | some w => if w.windowStart = now then w.count else 0
  | none => 0

theorem check_eq (entry : Option RateWindow) (now : UInt64) (quotaRps : UInt32) :
    check entry now quotaRps =
      if quotaRps ≤ counted entry now then (false, ⟨now, counted entry now⟩)
      else (true, ⟨now, counted entry now + 1⟩) := by
  cases entry with
  | none => simp [check, counted]
  | some w =>
    obtain ⟨start, count⟩ := w
    by_cases h : start = now
    · subst h
      simp [check, counted]
    · simp [check, counted, h]

end RateWindow

namespace KeyStore

/-- The request passed the rate check of the key with that reading of the clock. -/
def isPass (h : String) (now : UInt64) : Event → Bool
  | ⟨.checkRate h' now' _, passed⟩ => passed && h' == h && now' == now
  | _ => false

def passed (h : String) (now : UInt64) (log : List (Nat × Event)) : Nat :=
  log.countP fun x => isPass h now x.2

section Runs
variable {hashKeyId : String → String} {rows₀ : Rows} {s : (proxyCalls hashKeyId).State}

/-- Calls come to the window of a key in the order of their clock readings, as far as the
window can tell: it has not moved past the reading. -/
def InOrder (s : (proxyCalls hashKeyId).State) (act : (proxyCalls hashKeyId).Action) : Prop :=
  ∀ (t : Nat) m h now quotaRps k w, act = .exec t .ok →
    s.tasks[t]? = some ⟨m, some (.op (.checkRate h now quotaRps) k)⟩ →
      s.shared.rate h = some w → w.windowStart ≤ now

/-- Concurrent consumptions of one open store. -/
def Consumptions (_ : (proxyCalls hashKeyId).State) : (proxyCalls hashKeyId).Action → Prop
  | .start m => m.isConsumer = true
  | .world _ => False
  | _ => True

def RateStep (s : (proxyCalls hashKeyId).State) (act : (proxyCalls hashKeyId).Action) : Prop :=
  Consumptions s act ∧ InOrder s act

theorem consumerStep_of_rateStep {act : (proxyCalls hashKeyId).Action} (h : RateStep s act) :
    ConsumerStep s act := by
  cases act with
  | start m => exact h.1
  | world w => exact h.1.elim
  | _ => trivial

/-- What the window of a key says about the calls that passed. -/
structure RateInv (h : String) (limit : Nat) (s : (proxyCalls hashKeyId).State) : Prop where
  bound : ∀ now, passed h now s.log ≤ limit
  later : ∀ now, (∀ w, s.shared.rate h = some w → w.windowStart < now) → passed h now s.log = 0
  current : ∀ w, s.shared.rate h = some w → passed h w.windowStart s.log ≤ w.count.toNat ∧
    w.count.toNat ≤ limit

theorem passed_cons_of_not {h : String} {now : UInt64} {t : Nat} {e : Event}
    {log : List (Nat × Event)} (he : isPass h now e = false) :
    passed h now ((t, e) :: log) = passed h now log :=
  List.countP_cons_of_neg (by simp [he])

theorem passed_cons_of {h : String} {now : UInt64} {t : Nat} {e : Event}
    {log : List (Nat × Event)} (he : isPass h now e = true) :
    passed h now ((t, e) :: log) = passed h now log + 1 :=
  List.countP_cons_of_pos he

/-- One check, at a window that has not moved past the reading. -/
theorem RateInv.check {h : String} {now : UInt64} {quotaRps : UInt32} {t : Nat}
    {s s' : (proxyCalls hashKeyId).State} (hI : RateInv h quotaRps.toNat s)
    (horder : ∀ w, s.shared.rate h = some w → w.windowStart ≤ now)
    (hlog : s'.log = (t, ⟨.checkRate h now quotaRps,
      (RateWindow.check (s.shared.rate h) now quotaRps).1⟩) :: s.log)
    (hrate : s'.shared.rate h = some (RateWindow.check (s.shared.rate h) now quotaRps).2) :
    RateInv h quotaRps.toNat s' := by
  -- what was counted for `now` so far
  have hcounted : passed h now s.log ≤ (RateWindow.counted (s.shared.rate h) now).toNat := by
    cases hentry : s.shared.rate h with
    | none => exact (hI.later now fun w hw => by simp [hentry] at hw).le.trans (Nat.zero_le _)
    | some w =>
      by_cases heq : w.windowStart = now
      · rw [RateWindow.counted, if_pos heq, ← heq]
        exact (hI.current w hentry).1
      · refine (hI.later now fun w' hw' => ?_).le.trans (Nat.zero_le _)
        rw [hentry] at hw'
        cases hw'
        exact UInt64.lt_of_le_of_ne (horder w hentry) heq
  have hlater : ∀ now', now < now' → passed h now' s.log = 0 := fun now' hlt =>
    hI.later now' fun w hw => UInt64.lt_of_le_of_lt (horder w hw) hlt
  rw [RateWindow.check_eq] at hlog hrate
  by_cases hfull : quotaRps ≤ RateWindow.counted (s.shared.rate h) now
  · rw [if_pos hfull] at hlog hrate
    have hsame : ∀ now', passed h now' s'.log = passed h now' s.log := fun now' => by
      rw [hlog]
      exact passed_cons_of_not rfl
    refine ⟨fun now' => (hsame now').le.trans (hI.bound now'), fun now' hlt => ?_, fun w hw => ?_⟩
    · rw [hsame]
      exact hlater now' (hlt _ hrate)
    · rw [hrate] at hw
      cases hw
      rw [hsame]
      refine ⟨hcounted, ?_⟩
      cases hentry : s.shared.rate h with
      | none => simp [RateWindow.counted]
      | some w =>
        simp only [RateWindow.counted]
        split
        · exact (hI.current w hentry).2
        · simp
  · rw [if_neg hfull] at hlog hrate
    have hlt : (RateWindow.counted (s.shared.rate h) now).toNat < quotaRps.toNat :=
      UInt32.lt_iff_toNat_lt.1 (UInt32.not_le.1 hfull)
    have hsucc : (RateWindow.counted (s.shared.rate h) now + 1).toNat =
        (RateWindow.counted (s.shared.rate h) now).toNat + 1 := by
      have := quotaRps.toNat_lt
      rw [UInt32.toNat_add, UInt32.toNat_one, Nat.mod_eq_of_lt (by omega)]
    have hnow : passed h now s'.log = passed h now s.log + 1 := by
      rw [hlog]
      exact passed_cons_of (by simp [isPass])
    have hother : ∀ now', now' ≠ now → passed h now' s'.log = passed h now' s.log := by
      intro now' hne
      rw [hlog]
      exact passed_cons_of_not (by simp [isPass, Ne.symm hne])
    refine ⟨fun now' => ?_, fun now' hlt' => ?_, fun w hw => ?_⟩
    · by_cases hne : now' = now
      · subst hne
        omega
      · rw [hother now' hne]
        exact hI.bound now'
    · have hgt := hlt' _ hrate
      rw [hother now' (UInt64.ne_of_lt hgt).symm]
      exact hlater now' hgt
    · rw [hrate] at hw
      cases hw
      simp only [hnow, hsucc]
      omega

/-- In every run in which no call comes to a window that has moved past its reading of the
clock, a key's limit holds for every second. -/
theorem passed_le_of_run (hrun : ProxyRun hashKeyId rows₀ RateStep s) {h : String} {r : KeyRecord}
    (hrecord : rows₀.get (.record h) = some r) (now : UInt64) :
    passed h now s.log ≤ r.quotaRps.toNat := by
  suffices hI : RateInv h r.quotaRps.toNat s from hI.bound now
  refine System.Reach.invariant (RateInv h r.quotaRps.toNat) hrun ?_ ?_
  · exact ⟨fun now => Nat.zero_le _, fun now _ => rfl, fun w hw => by cases hw⟩
  intro s s' act hr hI hok hT
  have hquiet : s'.log = s.log → s'.shared.rate = s.shared.rate →
      RateInv h r.quotaRps.toNat s' := fun hlog hrate =>
    ⟨by rw [hlog]; exact hI.bound, by rw [hlog, hrate]; exact hI.later,
      by rw [hlog, hrate]; exact hI.current⟩
  cases hT with
  | start m sh hstart =>
    cases hstart
    exact hquiet rfl rfl
  | drop t m o k htask => exact hquiet rfl rfl
  | world w sh hworld => exact hok.1.elim
  | exec t c m o k a sh htask hhandle =>
    have hcinv := consumerInv_of_run (fun _ _ => consumerStep_of_rateStep) hr
    have hduty := (proxyDuty_of_task hr htask a).2
    have hacc := handle_cases hhandle
    have hrate : (s.advance t m o k a sh).shared.rate = sh.rate := by
      simp only [System.State.advance, System.settle]
      split <;> rfl
    have hother : (∀ now', isPass h now' ⟨o, a⟩ = false) → sh.rate h = s.shared.rate h →
        RateInv h r.quotaRps.toNat (s.advance t m o k a sh) := by
      intro hnot hsame
      have hlog : ∀ now', passed h now' (s.advance t m o k a sh).log = passed h now' s.log :=
        fun now' => passed_cons_of_not (hnot now')
      refine ⟨fun now' => (hlog now').le.trans (hI.bound now'), fun now' hlt => ?_, fun w hw => ?_⟩
      · rw [hrate, hsame] at hlt
        rw [hlog]
        exact hI.later now' hlt
      · rw [hrate, hsame] at hw
        rw [hlog]
        exact hI.current w hw
    cases hacc with
    | rated h' now' quotaRps =>
      by_cases heq : h' = h
      · subst heq
        have hconsumer := hcinv.jobs t m (System.job_of_task htask)
        cases m with
        | tryConsume keyId =>
          obtain ⟨rfl, _, _, r', hview, rfl⟩ := hduty
          have hsame := hcinv.seen t keyId r' (System.job_of_task htask) hview
          rw [hrecord] at hsame
          cases hsame
          refine hI.check (fun w hw => ?_) rfl ?_
          · cases c <;> first | exact hok.2 t _ _ _ _ _ w rfl htask hw | cases hhandle
          · rw [hrate]
            exact Function.update_self _ _ _
        | setMemberPoolDaily cap => cases hduty
        | _ => cases hconsumer
      · refine hother (fun now'' => ?_) (Function.update_of_ne (Ne.symm heq) _ _)
        simp [isPass, heq]
    | _ => exact hother (fun _ => rfl) rfl

end Runs

section Samples

/-- The readings of the clock, newest first. -/
def readings (log : List (Nat × Event)) : List UInt64 :=
  log.filterMap fun
    | (_, ⟨.nowSecs, now⟩) => some now
    | _ => none

def MonotoneClock (log : List (Nat × Event)) : Prop :=
  (readings log).Pairwise fun late early => early ≤ late

def rateRecord : KeyRecord := ⟨"chat", 0, false, 1, 0⟩

def rateRows : Rows := ⟨[⟨.record "key", rateRecord⟩], []⟩

def rateInit : (proxyCalls id).State := (proxyCalls id).init (Shared.opened rateRows)

def rateScript (events : List (Nat × Input)) : List (proxyCalls id).Action :=
  System.script (S := proxyCalls id) (List.replicate 3 (.tryConsume "key")) events

def inOrder (s : (proxyCalls id).State) : (proxyCalls id).Action → Bool
  | .start m => m.isConsumer
  | .exec t _ =>
    match s.tasks[t]? with
    | some ⟨_, some (.op (.checkRate h now _) _)⟩ =>
      (s.shared.rate h).all fun w => decide (w.windowStart ≤ now)
    | _ => true
  | .drop _ => true
  | .world _ => false

theorem rateStep_of_inOrder {s : (proxyCalls id).State} {act : (proxyCalls id).Action}
    (h : inOrder s act = true) : RateStep s act := by
  refine ⟨?_, ?_⟩
  · cases act with
    | start m => exact h
    | world w => cases h
    | _ => trivial
  · rintro t m h' now quotaRps k w rfl htask hw
    simp only [inOrder, htask, hw, Option.all_some, decide_eq_true_eq] at h
    exact h

theorem passed_le_of_run_sample : ∃ s, ProxyRun id rateRows RateStep s ∧
    passed "key" 10 s.log = 1 ∧ passed "key" 11 s.log = 1 ∧
      passed "key" 10 s.log ≤ rateRecord.quotaRps.toNat := by
  obtain ⟨s, hs, h₁₀, h₁₁⟩ : ∃ s, (proxyCalls id).run inOrder rateInit (rateScript
      [(0, .ok), (0, .secs 10), (0, .ok), (1, .ok), (1, .secs 10), (2, .ok), (1, .ok),
        (2, .secs 11), (2, .ok)]) = some s ∧
      passed "key" 10 s.log = 1 ∧ passed "key" 11 s.log = 1 := ⟨_, rfl, rfl, rfl⟩
  have hrun : ProxyRun id rateRows RateStep s :=
    System.Reach.of_run (fun _ _ => rateStep_of_inOrder) hs
  exact ⟨s, hrun, h₁₀, h₁₁, passed_le_of_run hrun rfl 10⟩

/-- Call 1 reads second 10 and comes to the window after call 2 moved it to second 11: the
window starts over, and second 10 is counted anew. -/
theorem second_counted_anew : ∃ s, ProxyRun id rateRows Consumptions s ∧ MonotoneClock s.log ∧
    rateRows.get (.record "key") = some rateRecord ∧
      rateRecord.quotaRps.toNat < passed "key" 10 s.log := by
  obtain ⟨s, hs, hclock, hpassed⟩ : ∃ s, (proxyCalls id).run (fun _ a => match a with
        | .start m => m.isConsumer
        | .exec _ _ => true
        | _ => false) rateInit (rateScript
      [(0, .ok), (0, .secs 10), (0, .ok), (1, .ok), (1, .secs 10), (2, .ok), (2, .secs 11),
        (2, .ok), (1, .ok)]) = some s ∧
      readings s.log = [11, 10, 10] ∧ passed "key" 10 s.log = 2 := ⟨_, rfl, rfl, rfl⟩
  refine ⟨s, System.Reach.of_run (fun s a h => ?_) hs, ?_, rfl, ?_⟩
  · cases a with
    | start m => exact h
    | world w => cases h
    | _ => trivial
  · rw [MonotoneClock, hclock]
    decide
  · rw [hpassed]
    decide

end Samples
end KeyStore
end Gateway
