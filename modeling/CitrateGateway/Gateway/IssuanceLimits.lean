import CitrateGateway.Gateway.IssuanceLimiter

/-!
# What the issuance limiter promises

A limiter is run over calls that come with a clock that never goes back. The budgets of a day and
of an hour are kept, a refusal holds for as long as it says, and dropping windows changes nothing.
The spacing is compared in whole seconds.
-/

namespace Gateway.MemberKeys
set_option autoImplicit false

section Runs

/-- How a limiter serves a call. -/
abbrev Service := IssuanceLimiter → Call → Except UInt64 Unit × IssuanceLimiter

def reserving (cfg : MemberKeyConfig) : Service := fun l c => l.reserve c.account c.ip c.now cfg

def reservingUnpruned (cfg : MemberKeyConfig) : Service :=
  fun l c => l.reserveUnpruned c.account c.ip c.now cfg

/-- The limiter after the given calls, of which the newest is in front. -/
def state (serve : Service) : List Call → IssuanceLimiter
  | [] => .empty
  | c :: past => (serve (state serve past) c).2

def decision (serve : Service) (past : List Call) (c : Call) : Except UInt64 Unit :=
  (serve (state serve past) c).1

def isGrant : Except UInt64 Unit → Bool
  | .ok _ => true
  | .error _ => false

def granted (serve : Service) : List Call → List Call
  | [] => []
  | c :: past =>
    if isGrant (decision serve past c) then c :: granted serve past else granted serve past

/-- A service that refuses by the windows, leaving them, and charges them otherwise. -/
structure Serves (cfg : MemberKeyConfig) (serve : Service) : Prop where
  refused : ∀ l c retry, l.refusal c.account c.ip c.now cfg = some retry →
    serve l c = (.error retry, l)
  charged : ∀ l c, l.refusal c.account c.ip c.now cfg = none → ∃ l', serve l c = (.ok (), l') ∧
    ∀ grants, Tracks cfg c.now.toNat grants (l.charge c.account c.ip c.now) →
      Tracks cfg c.now.toNat grants l'

theorem serves_reserving (cfg : MemberKeyConfig) : Serves cfg (reserving cfg) := by
  constructor
  · intro l c retry hrefusal
    rw [reserving, IssuanceLimiter.reserve, hrefusal]
  · intro l c hrefusal
    refine ⟨(l.charge c.account c.ip c.now).prune c.now cfg, ?_, fun grants h => h.prune⟩
    rw [reserving, IssuanceLimiter.reserve, hrefusal]

theorem serves_reservingUnpruned (cfg : MemberKeyConfig) :
    Serves cfg (reservingUnpruned cfg) := by
  constructor
  · intro l c retry hrefusal
    rw [reservingUnpruned, IssuanceLimiter.reserveUnpruned, hrefusal]
  · intro l c hrefusal
    refine ⟨l.charge c.account c.ip c.now, ?_, fun grants h => h⟩
    rw [reservingUnpruned, IssuanceLimiter.reserveUnpruned, hrefusal]

/-- What a call is answered when the grants so far decide it. -/
def answer : Option UInt64 → Except UInt64 Unit
  | some retry => .error retry
  | none => .ok ()

variable {cfg : MemberKeyConfig} {serve : Service}

/-- One call: it is answered as the grants say, and the windows follow the grants. -/
theorem Serves.step (hserve : Serves cfg serve) (hip : 1 ≤ cfg.ipHourlyMax.toNat)
    (haccount : 1 ≤ cfg.accountDailyMax.toNat) {past : List Call} {c : Call}
    (h : Tracks cfg c.now.toNat (granted serve past) (state serve past)) :
    decision serve past c = answer (verdict cfg (granted serve past) c) ∧
      Tracks cfg c.now.toNat (granted serve (c :: past)) (state serve (c :: past)) := by
  have hrefusal := h.refusal_eq hip haccount
  cases hverdict : verdict cfg (granted serve past) c with
  | some retry =>
    rw [hverdict] at hrefusal
    have hserved := hserve.refused _ _ _ hrefusal
    have hdecision : decision serve past c = .error retry := by rw [decision, hserved]
    refine ⟨hdecision, ?_⟩
    rw [granted, hdecision, state, hserved]
    exact h
  | none =>
    rw [hverdict] at hrefusal
    obtain ⟨l', hserved, htracks⟩ := hserve.charged _ _ hrefusal
    have hdecision : decision serve past c = .ok () := by rw [decision, hserved]
    refine ⟨hdecision, ?_⟩
    rw [granted, hdecision, state, hserved]
    exact htracks _ (h.charge (permitted_of_verdict haccount h.sorted hverdict))

theorem Serves.run (hserve : Serves cfg serve) (hip : 1 ≤ cfg.ipHourlyMax.toNat)
    (haccount : 1 ≤ cfg.accountDailyMax.toNat) {past : List Call} (hordered : Ordered past)
    {now : Nat} (hnow : ∀ c ∈ past, c.now.toNat ≤ now) :
    Tracks cfg now (granted serve past) (state serve past) := by
  induction past generalizing now with
  | nil => exact (tracks_empty cfg).later (Nat.zero_le now)
  | cons c past ih =>
    obtain ⟨hle, hordered⟩ := List.pairwise_cons.1 hordered
    have hstep := hserve.step hip haccount (ih hordered hle)
    exact hstep.2.later (hnow c List.mem_cons_self)

theorem Serves.tracks (hserve : Serves cfg serve) (hip : 1 ≤ cfg.ipHourlyMax.toNat)
    (haccount : 1 ≤ cfg.accountDailyMax.toNat) {past : List Call} {c : Call}
    (hordered : Ordered (c :: past)) :
    Tracks cfg c.now.toNat (granted serve past) (state serve past) := by
  obtain ⟨hle, hordered⟩ := List.pairwise_cons.1 hordered
  exact hserve.run hip haccount hordered hle

/-- The grants decide, whatever windows are kept. -/
theorem Serves.decision_eq (hserve : Serves cfg serve) (hip : 1 ≤ cfg.ipHourlyMax.toNat)
    (haccount : 1 ≤ cfg.accountDailyMax.toNat) {past : List Call} {c : Call}
    (hordered : Ordered (c :: past)) :
    decision serve past c = answer (verdict cfg (granted serve past) c) :=
  (hserve.step hip haccount (hserve.tracks hip haccount hordered)).1

theorem granted_cons_of_ok {past : List Call} {c : Call} (h : decision serve past c = .ok ()) :
    granted serve (c :: past) = c :: granted serve past := by
  rw [granted, h]
  rfl

theorem granted_cons_of_error {past : List Call} {c : Call} {retry : UInt64}
    (h : decision serve past c = .error retry) :
    granted serve (c :: past) = granted serve past := by
  rw [granted, h]
  rfl

/-- A granted call had what it needs. -/
theorem Serves.permitted (hserve : Serves cfg serve) (hip : 1 ≤ cfg.ipHourlyMax.toNat)
    (haccount : 1 ≤ cfg.accountDailyMax.toNat) {past : List Call} {c : Call}
    (hordered : Ordered (c :: past)) (hgrant : decision serve past c = .ok ()) :
    Permitted cfg (granted serve past) c := by
  have htracks := hserve.tracks hip haccount hordered
  rw [hserve.decision_eq hip haccount hordered] at hgrant
  cases hverdict : verdict cfg (granted serve past) c with
  | some retry =>
    rw [hverdict] at hgrant
    cases hgrant
  | none => exact permitted_of_verdict haccount htracks.sorted hverdict

theorem Serves.held (hserve : Serves cfg serve) (hip : 1 ≤ cfg.ipHourlyMax.toNat)
    (haccount : 1 ≤ cfg.accountDailyMax.toNat) {past : List Call} {c : Call}
    (hordered : Ordered (c :: past)) {retry : UInt64}
    (hrefused : decision serve past c = .error retry) :
    1 ≤ retry.toNat ∧ Held cfg (granted serve past) c retry.toNat := by
  have htracks := hserve.tracks hip haccount hordered
  rw [hserve.decision_eq hip haccount hordered] at hrefused
  cases hverdict : verdict cfg (granted serve past) c with
  | some r =>
    rw [hverdict] at hrefused
    cases hrefused
    exact held_of_verdict htracks.past hverdict
  | none =>
    rw [hverdict] at hrefused
    cases hrefused

theorem granted_append (serve : Service) (later past : List Call) :
    ∃ more, granted serve (later ++ past) = more ++ granted serve past := by
  induction later with
  | nil => exact ⟨[], rfl⟩
  | cons c later ih =>
    obtain ⟨more, hmore⟩ := ih
    rw [List.cons_append, granted, hmore]
    split
    · exact ⟨c :: more, rfl⟩
    · exact ⟨more, rfl⟩

/-- A property of lists that every grant carries over holds of the grants of a run. -/
theorem Serves.induct (hserve : Serves cfg serve) (hip : 1 ≤ cfg.ipHourlyMax.toNat)
    (haccount : 1 ≤ cfg.accountDailyMax.toNat) {P : List Call → Prop} (hnil : P [])
    (hcons : ∀ c grants, P grants → Permitted cfg grants c → P (c :: grants))
    {past : List Call} (hordered : Ordered past) : P (granted serve past) := by
  induction past with
  | nil => exact hnil
  | cons c past ih =>
    have hrest := ih (List.pairwise_cons.1 hordered).2
    cases hdecision : decision serve past c with
    | ok u =>
      rw [granted_cons_of_ok hdecision]
      exact hcons c _ hrest (hserve.permitted hip haccount hordered hdecision)
    | error retry =>
      rw [granted_cons_of_error hdecision]
      exact hrest

theorem Serves.state_of_refused (hserve : Serves cfg serve) {past : List Call} {c : Call}
    {retry : UInt64} (hrefused : decision serve past c = .error retry) (later : List Call) :
    state serve (later ++ c :: past) = state serve (later ++ past) := by
  induction later with
  | nil =>
    cases hrefusal : (state serve past).refusal c.account c.ip c.now cfg with
    | some r =>
      rw [List.nil_append, state, hserve.refused _ _ _ hrefusal]
      rfl
    | none =>
      obtain ⟨l', hserved, -⟩ := hserve.charged _ _ hrefusal
      rw [decision, hserved] at hrefused
      cases hrefused
  | cons c' later ih =>
    rw [List.cons_append, List.cons_append, state, state, ih]

end Runs

section Limits
variable {cfg : MemberKeyConfig}

/-- What the limiter promises of the calls so far, and of those that follow them. -/
structure Limited (cfg : MemberKeyConfig) (calls : List Call) : Prop where
  daily : ∀ account day, (granted (reserving cfg) calls).countP (Call.onDay account day) ≤
    cfg.accountDailyMax.toNat
  spaced : (granted (reserving cfg) calls).Pairwise fun c earlier =>
    earlier.account = c.account →
      cfg.accountMinInterval.asNanos ≤ (c.now.toNat - earlier.now.toNat) * 1000000000
  hourly : ∀ ip hour, (granted (reserving cfg) calls).countP (Call.inHour ip hour) ≤
    cfg.ipHourlyMax.toNat
  refused : ∀ c retry, decision (reserving cfg) calls c = .error retry → ∀ later next,
    decision (reserving cfg) (later ++ c :: calls) next =
      decision (reserving cfg) (later ++ calls) next
  retry : ∀ c retry, Ordered (c :: calls) → decision (reserving cfg) calls c = .error retry →
    1 ≤ retry.toNat ∧ ∀ later c', Ordered (c' :: (later ++ c :: calls)) →
      c'.account = c.account → c'.ip = c.ip → c'.now.toNat < c.now.toNat + retry.toNat →
        ∃ retry', decision (reserving cfg) (later ++ c :: calls) c' = .error retry'
  pruned : ∀ c, Ordered (c :: calls) →
    decision (reserving cfg) calls c = decision (reservingUnpruned cfg) calls c

theorem daily_budget (hip : 1 ≤ cfg.ipHourlyMax.toNat) (haccount : 1 ≤ cfg.accountDailyMax.toNat)
    {calls : List Call} (hordered : Ordered calls) (account : String) (day : Nat) :
    (granted (reserving cfg) calls).countP (Call.onDay account day) ≤
      cfg.accountDailyMax.toNat := by
  apply (serves_reserving cfg).induct hip haccount (P := fun grants =>
    grants.countP (Call.onDay account day) ≤ cfg.accountDailyMax.toNat) (Nat.zero_le _) _ hordered
  intro c grants hkept hpermitted
  by_cases hon : Call.onDay account day c = true
  · rw [List.countP_cons_of_pos hon]
    simp only [Call.onDay, Bool.and_eq_true, beq_iff_eq] at hon
    obtain ⟨rfl, rfl⟩ := hon
    exact hpermitted.day
  · rw [List.countP_cons_of_neg hon]
    exact hkept

theorem hourly_budget (hip : 1 ≤ cfg.ipHourlyMax.toNat) (haccount : 1 ≤ cfg.accountDailyMax.toNat)
    {calls : List Call} (hordered : Ordered calls) (ip : String) (hour : Nat) :
    (granted (reserving cfg) calls).countP (Call.inHour ip hour) ≤ cfg.ipHourlyMax.toNat := by
  apply (serves_reserving cfg).induct hip haccount (P := fun grants =>
    grants.countP (Call.inHour ip hour) ≤ cfg.ipHourlyMax.toNat) (Nat.zero_le _) _ hordered
  intro c grants hkept hpermitted
  by_cases hin : Call.inHour ip hour c = true
  · rw [List.countP_cons_of_pos hin]
    simp only [Call.inHour, Bool.and_eq_true, beq_iff_eq] at hin
    obtain ⟨rfl, rfl⟩ := hin
    exact hpermitted.hour
  · rw [List.countP_cons_of_neg hin]
    exact hkept

/-- The configurations whose spacing is kept to the nanosecond. -/
def ExactSpacing (cfg : MemberKeyConfig) : Prop :=
  cfg.accountMinInterval.nanos = 0 ∨
    cfg.accountMinInterval.secs = 0 ∧ cfg.accountDailyMax = 1

theorem asNanos_le_of_permitted (hexact : ExactSpacing cfg) {grants : List Call} {c g : Call}
    (hpermitted : Permitted cfg grants c) (hpast : g.now.toNat ≤ c.now.toNat) (hg : g ∈ grants)
    (haccount : g.account = c.account) :
    cfg.accountMinInterval.asNanos ≤ (c.now.toNat - g.now.toNat) * 1000000000 := by
  have hspaced := hpermitted.spacing g hg haccount
  have hlt := cfg.accountMinInterval.nanos_lt
  rcases hexact with hwhole | ⟨hsecs, hone⟩
  · have hzero : cfg.accountMinInterval.nanos.toNat = 0 := congrArg UInt32.toNat hwhole
    rw [Duration.asNanos, hzero, Nat.add_zero]
    apply Nat.mul_le_mul_right
    omega
  · have hzero : cfg.accountMinInterval.secs.toNat = 0 := congrArg UInt64.toNat hsecs
    have hbudget : cfg.accountDailyMax.toNat = 1 := congrArg UInt32.toNat hone
    have hnone : grants.countP (Call.onDay c.account c.day) = 0 := by
      have := hpermitted.day
      omega
    have hday : g.day ≠ c.day := by
      intro heq
      apply List.countP_eq_zero.1 hnone g hg
      simp [Call.onDay, haccount, heq]
    have hlater : 1 ≤ c.now.toNat - g.now.toNat := by
      unfold Call.day at hday
      omega
    have hnanos : cfg.accountMinInterval.asNanos = cfg.accountMinInterval.nanos.toNat := by
      simp [Duration.asNanos, hzero]
    omega

theorem spacing_kept (hexact : ExactSpacing cfg) (hip : 1 ≤ cfg.ipHourlyMax.toNat)
    (haccount : 1 ≤ cfg.accountDailyMax.toNat) {calls : List Call} (hordered : Ordered calls) :
    (granted (reserving cfg) calls).Pairwise fun c earlier => earlier.account = c.account →
      cfg.accountMinInterval.asNanos ≤ (c.now.toNat - earlier.now.toNat) * 1000000000 := by
  induction calls with
  | nil => exact .nil
  | cons c past ih =>
    have hrest := ih (List.pairwise_cons.1 hordered).2
    cases hdecision : decision (reserving cfg) past c with
    | ok u =>
      rw [granted_cons_of_ok hdecision]
      have hpermitted := (serves_reserving cfg).permitted hip haccount hordered hdecision
      have htracks := (serves_reserving cfg).tracks hip haccount hordered
      refine List.pairwise_cons.2 ⟨fun g hg hsame => ?_, hrest⟩
      exact asNanos_le_of_permitted hexact hpermitted (htracks.past g hg) hg hsame
    | error retry =>
      rw [granted_cons_of_error hdecision]
      exact hrest

/-- A refusal holds until the time it names. -/
theorem retry_refused (hip : 1 ≤ cfg.ipHourlyMax.toNat) (haccount : 1 ≤ cfg.accountDailyMax.toNat)
    {calls later : List Call} {c c' : Call} {retry : UInt64} (hordered : Ordered (c :: calls))
    (hrefused : decision (reserving cfg) calls c = .error retry)
    (hlater : Ordered (c' :: (later ++ c :: calls))) (hsame : c'.account = c.account)
    (hsameIp : c'.ip = c.ip) (hsoon : c'.now.toNat < c.now.toNat + retry.toNat) :
    ∃ retry', decision (reserving cfg) (later ++ c :: calls) c' = .error retry' := by
  have hserve := serves_reserving cfg
  obtain ⟨-, hheld⟩ := hserve.held hip haccount hordered hrefused
  obtain ⟨more, hmore⟩ := granted_append (reserving cfg) later (c :: calls)
  have hle : c.now.toNat ≤ c'.now.toNat := (List.pairwise_cons.1 hlater).1 c (by simp)
  cases hdecision : decision (reserving cfg) (later ++ c :: calls) c' with
  | error retry' => exact ⟨retry', rfl⟩
  | ok u =>
    have hpermitted := hserve.permitted hip haccount hlater hdecision
    rw [hmore, granted_cons_of_error hrefused] at hpermitted
    exact absurd hpermitted (hheld.not_permitted hsame hsameIp hle hsoon)

theorem granted_unpruned (hip : 1 ≤ cfg.ipHourlyMax.toNat)
    (haccount : 1 ≤ cfg.accountDailyMax.toNat) {calls : List Call} (hordered : Ordered calls) :
    granted (reserving cfg) calls = granted (reservingUnpruned cfg) calls := by
  induction calls with
  | nil => rfl
  | cons c past ih =>
    have hrest := ih (List.pairwise_cons.1 hordered).2
    rw [granted, granted, (serves_reserving cfg).decision_eq hip haccount hordered,
      (serves_reservingUnpruned cfg).decision_eq hip haccount hordered, hrest]

/-- Dropping windows changes no decision. -/
theorem decision_unpruned (hip : 1 ≤ cfg.ipHourlyMax.toNat)
    (haccount : 1 ≤ cfg.accountDailyMax.toNat) {calls : List Call} {c : Call}
    (hordered : Ordered (c :: calls)) :
    decision (reserving cfg) calls c = decision (reservingUnpruned cfg) calls c := by
  rw [(serves_reserving cfg).decision_eq hip haccount hordered,
    (serves_reservingUnpruned cfg).decision_eq hip haccount hordered,
    granted_unpruned hip haccount (List.pairwise_cons.1 hordered).2]

theorem decision_of_refused {calls : List Call} {c : Call} {retry : UInt64}
    (hrefused : decision (reserving cfg) calls c = .error retry) (later : List Call)
    (next : Call) :
    decision (reserving cfg) (later ++ c :: calls) next =
      decision (reserving cfg) (later ++ calls) next := by
  rw [decision, decision, (serves_reserving cfg).state_of_refused hrefused later]

theorem limited_of_exact (hexact : ExactSpacing cfg) (hip : 1 ≤ cfg.ipHourlyMax.toNat)
    (haccount : 1 ≤ cfg.accountDailyMax.toNat) {calls : List Call} (hordered : Ordered calls) :
    Limited cfg calls := by
  constructor
  · exact daily_budget hip haccount hordered
  · exact spacing_kept hexact hip haccount hordered
  · exact hourly_budget hip haccount hordered
  · exact fun c retry hrefused later next => decision_of_refused hrefused later next
  · intro c retry hnext hrefused
    refine ⟨((serves_reserving cfg).held hip haccount hnext hrefused).1, ?_⟩
    intro later c' hlater hsame hsameIp hsoon
    exact retry_refused hip haccount hnext hrefused hlater hsame hsameIp hsoon
  · exact fun c hnext => decision_unpruned hip haccount hnext

/-- Two calls of one account, a whole number of seconds apart. -/
def twoCalls (first second : UInt64) : List Call :=
  [⟨"account", "ip2", second⟩, ⟨"account", "ip1", first⟩]

theorem granted_twoCalls (haccount : 1 ≤ cfg.accountDailyMax.toNat) {first second : UInt64}
    (hip : 1 ≤ cfg.ipHourlyMax.toNat) (hle : first.toNat ≤ second.toNat)
    (hspaced : first.toNat + cfg.accountMinInterval.secs.toNat ≤ second.toNat)
    (hbudget : 2 ≤ cfg.accountDailyMax.toNat ∨ first.toNat / 86400 ≠ second.toNat / 86400) :
    granted (reserving cfg) (twoCalls first second) = twoCalls first second := by
  have hserve := serves_reserving cfg
  have hordered : Ordered (twoCalls first second) := by
    refine List.pairwise_cons.2 ⟨fun c hc => ?_, List.pairwise_singleton _ _⟩
    obtain rfl := List.mem_singleton.1 hc
    exact hle
  have hverdict₁ : verdict cfg [] ⟨"account", "ip1", first⟩ = none := by
    simp only [verdict, List.countP_nil, List.find?_nil]
    exact if_neg (Nat.not_le.2 hip)
  have hverdict₂ : verdict cfg [⟨"account", "ip1", first⟩] ⟨"account", "ip2", second⟩ = none := by
    have hhour : ([⟨"account", "ip1", first⟩] : List Call).countP
        (Call.inHour "ip2" (Call.hour ⟨"account", "ip2", second⟩)) = 0 := by
      simp [Call.inHour]
    have hday : ¬ cfg.accountDailyMax.toNat ≤ ([⟨"account", "ip1", first⟩] : List Call).countP
        (Call.onDay "account" (Call.day ⟨"account", "ip2", second⟩)) := by
      rcases hbudget with htwo | hdays
      · have := List.countP_le_length (l := ([⟨"account", "ip1", first⟩] : List Call))
          (p := Call.onDay "account" (Call.day ⟨"account", "ip2", second⟩))
        simp only [List.length_singleton] at this
        omega
      · simp only [List.countP_singleton, Call.onDay, Call.day, Bool.and_eq_true, beq_iff_eq, hdays]
        simp
        omega
    simp only [verdict, hhour, if_neg (Nat.not_le.2 hip), List.find?_cons, beq_self_eq_true]
    rw [if_neg (Nat.not_lt.2 hspaced), if_neg hday]
  have hfirst : granted (reserving cfg) [⟨"account", "ip1", first⟩] =
      [⟨"account", "ip1", first⟩] := by
    apply granted_cons_of_ok
    rw [hserve.decision_eq hip haccount (List.pairwise_singleton _ _)]
    exact congrArg answer hverdict₁
  rw [twoCalls, granted_cons_of_ok, hfirst]
  rw [hserve.decision_eq hip haccount hordered, hfirst, hverdict₂]
  rfl

/-- Two calls can come just the whole seconds of the spacing apart, and both be in budget. -/
theorem exists_whole_seconds
    (hroom : 2 ≤ cfg.accountDailyMax.toNat ∨ cfg.accountMinInterval.secs.toNat ≠ 0) :
    ∃ first second : UInt64,
      first.toNat + cfg.accountMinInterval.secs.toNat = second.toNat ∧
      (2 ≤ cfg.accountDailyMax.toNat ∨ first.toNat / 86400 ≠ second.toNat / 86400) := by
  by_cases htwo : 2 ≤ cfg.accountDailyMax.toNat
  · exact ⟨0, cfg.accountMinInterval.secs, Nat.zero_add _, .inl htwo⟩
  · have hsecs := hroom.resolve_left htwo
    by_cases hlong : 86400 ≤ cfg.accountMinInterval.secs.toNat
    · refine ⟨0, cfg.accountMinInterval.secs, Nat.zero_add _, .inr ?_⟩
      have hzero : (0 : UInt64).toNat = 0 := rfl
      rw [hzero]
      omega
    · have hsize : UInt64.size = 18446744073709551616 := rfl
      have hsecond : (UInt64.ofNat (86399 + cfg.accountMinInterval.secs.toNat)).toNat =
          86399 + cfg.accountMinInterval.secs.toNat := UInt64.toNat_ofNat_of_lt' (by omega)
      have hfirst : (UInt64.ofNat 86399).toNat = 86399 := by decide
      refine ⟨UInt64.ofNat 86399,
        UInt64.ofNat (86399 + cfg.accountMinInterval.secs.toNat), ?_, .inr ?_⟩
      · rw [hsecond, hfirst]
      · rw [hsecond, hfirst]
        omega

theorem exact_of_limited (hip : 1 ≤ cfg.ipHourlyMax.toNat)
    (haccount : 1 ≤ cfg.accountDailyMax.toNat)
    (h : ∀ calls, Ordered calls → Limited cfg calls) : ExactSpacing cfg := by
  by_contra hnot
  have hnanos : cfg.accountMinInterval.nanos.toNat ≠ 0 := by
    intro hzero
    exact hnot (.inl (UInt32.toNat_inj.1 hzero))
  have hroom : 2 ≤ cfg.accountDailyMax.toNat ∨ cfg.accountMinInterval.secs.toNat ≠ 0 := by
    by_contra hsmall
    have hzero : cfg.accountMinInterval.secs.toNat = 0 := by omega
    have hone : cfg.accountDailyMax.toNat = 1 := by omega
    exact hnot (.inr ⟨UInt64.toNat_inj.1 hzero, UInt32.toNat_inj.1 hone⟩)
  obtain ⟨first, second, hapart, hbudget⟩ := exists_whole_seconds hroom
  have hordered : Ordered (twoCalls first second) := by
    refine List.pairwise_cons.2 ⟨fun c hc => ?_, List.pairwise_singleton _ _⟩
    obtain rfl := List.mem_singleton.1 hc
    show first.toNat ≤ second.toNat
    omega
  have hspaced := (h _ hordered).spaced
  rw [granted_twoCalls haccount hip (by omega) (by omega) hbudget] at hspaced
  have hnarrow := (List.pairwise_cons.1 hspaced).1 ⟨"account", "ip1", first⟩ (by simp) rfl
  have hdiff : second.toNat - first.toNat = cfg.accountMinInterval.secs.toNat := by omega
  simp only [Duration.asNanos, hdiff] at hnarrow
  omega

/-- The limiter keeps all it promises exactly when its spacing is whole seconds, or shorter than
one where only one key is issued a day. -/
theorem issuance_limits_iff (cfg : MemberKeyConfig) (hip : 1 ≤ cfg.ipHourlyMax.toNat)
    (haccount : 1 ≤ cfg.accountDailyMax.toNat) :
    (∀ calls, Ordered calls → Limited cfg calls) ↔ ExactSpacing cfg := by
  constructor
  · exact exact_of_limited hip haccount
  · exact fun hexact calls hordered => limited_of_exact hexact hip haccount hordered

end Limits

section Sample

/-- The policy of production. -/
def defaultConfig : MemberKeyConfig := ⟨⟨60, 0, by decide⟩, 20, 30⟩

theorem issuance_limits_default : Limited defaultConfig (twoCalls 0 60) :=
  (issuance_limits_iff defaultConfig (by decide) (by decide)).2 (.inl rfl) _
    (by simp [Ordered, twoCalls])

/-- A spacing of a second and a half. -/
def secondAndAHalf : MemberKeyConfig := ⟨⟨1, 500000000, by decide⟩, 20, 30⟩

theorem secondAndAHalf_not_kept : Ordered (twoCalls 0 1) ∧
    granted (reserving secondAndAHalf) (twoCalls 0 1) = twoCalls 0 1 ∧
    ¬ Limited secondAndAHalf (twoCalls 0 1) := by
  have hgranted : granted (reserving secondAndAHalf) (twoCalls 0 1) = twoCalls 0 1 :=
    granted_twoCalls (by decide) (by decide) (by decide) (by decide) (.inl (by decide))
  refine ⟨by simp [Ordered, twoCalls], hgranted, ?_⟩
  intro hlimited
  have hspaced := hlimited.spaced
  rw [hgranted] at hspaced
  have hnarrow := (List.pairwise_cons.1 hspaced).1 ⟨"account", "ip1", 0⟩ (by simp) rfl
  revert hnarrow
  decide

end Sample
end Gateway.MemberKeys
