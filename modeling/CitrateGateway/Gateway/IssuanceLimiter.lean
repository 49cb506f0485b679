import Mathlib.Algebra.Group.Nat.Defs
import Mathlib.Data.List.AList
import Mathlib.Order.Basic

/-!
# The issuance limiter

Keys are issued to an account no faster than its spacing and its daily budget, and to an address
no faster than its hourly budget. The limiter keeps one window for each account and address, and
drops the windows that can no longer refuse anything once there are many. What it decides is what
the grants so far decide.
-/

namespace Gateway.MemberKeys
set_option autoImplicit false

section Model

structure Duration where
  secs : UInt64
  nanos : UInt32
  nanos_lt : nanos.toNat < 1000000000

def Duration.asSecs (d : Duration) : UInt64 := d.secs

def Duration.asNanos (d : Duration) : Nat := d.secs.toNat * 1000000000 + d.nanos.toNat

structure MemberKeyConfig where
  accountMinInterval : Duration
  accountDailyMax : UInt32
  ipHourlyMax : UInt32

structure AccountWindow where
  last : UInt64
  day : UInt64
  countToday : UInt32

structure IpWindow where
  hour : UInt64
  count : UInt32

structure IssuanceLimiter where
  accounts : AList fun _ : String => AccountWindow
  ips : AList fun _ : String => IpWindow

def IssuanceLimiter.empty : IssuanceLimiter := ⟨∅, ∅⟩

def limiterPruneAt : Nat := 10000

def saturatingSubU64 (a b : UInt64) : UInt64 := if b ≤ a then a - b else 0

def saturatingAddU32 (a b : UInt32) : UInt32 := if a ≤ a + b then a + b else UInt32.ofNat (2 ^ 32 - 1)

def retain {W : Type} (m : AList fun _ : String => W) (p : W → Bool) : AList fun _ : String => W where
  entries := m.entries.filter fun e => p e.2
  nodupKeys := m.nodupKeys.sublist List.filter_sublist

namespace IssuanceLimiter

def ipBlocked (l : IssuanceLimiter) (ip : String) (now : UInt64) (cfg : MemberKeyConfig) :
    Option UInt64 :=
  match l.ips.lookup ip with
  | some w => if w.hour = now / 3600 ∧ cfg.ipHourlyMax ≤ w.count then some (3600 - now % 3600) else none
  | none => none

/-- The first limit that refuses, in the order in which they are checked. -/
def refusal (l : IssuanceLimiter) (account ip : String) (now : UInt64) (cfg : MemberKeyConfig) :
    Option UInt64 :=
  match l.ipBlocked ip now cfg with
  | some retry => some retry
  | none =>
    match l.accounts.lookup account with
    | none => none
    | some w =>
      let min := cfg.accountMinInterval.asSecs
      let since := saturatingSubU64 now w.last
      if since < min then some (min - since)
      else if w.day = now / 86400 ∧ cfg.accountDailyMax ≤ w.countToday then
        some (86400 - now % 86400)
      else none

def chargeAccount (w : Option AccountWindow) (now : UInt64) : AccountWindow :=
  let day := now / 86400
  let w := w.getD ⟨now, day, 0⟩
  let w := if w.day ≠ day then { w with day := day, countToday := 0 } else w
  { w with last := now, countToday := saturatingAddU32 w.countToday 1 }

def chargeIp (w : Option IpWindow) (now : UInt64) : IpWindow :=
  let hour := now / 3600
  let w := w.getD ⟨hour, 0⟩
  let w := if w.hour ≠ hour then ⟨hour, 0⟩ else w
  { w with count := saturatingAddU32 w.count 1 }

def charge (l : IssuanceLimiter) (account ip : String) (now : UInt64) : IssuanceLimiter where
  accounts := l.accounts.insert account (chargeAccount (l.accounts.lookup account) now)
  ips := l.ips.insert ip (chargeIp (l.ips.lookup ip) now)

def prune (l : IssuanceLimiter) (now : UInt64) (cfg : MemberKeyConfig) : IssuanceLimiter where
  accounts :=
    if limiterPruneAt < l.accounts.keys.length then
      retain l.accounts fun w =>
        w.day = now / 86400 ∨ saturatingSubU64 now w.last < cfg.accountMinInterval.asSecs
    else l.accounts
  ips :=
    if limiterPruneAt < l.ips.keys.length then retain l.ips fun w => w.hour = now / 3600 else l.ips

def reserve (l : IssuanceLimiter) (account ip : String) (now : UInt64) (cfg : MemberKeyConfig) :
    Except UInt64 Unit × IssuanceLimiter :=
  match l.refusal account ip now cfg with
  | some retry => (.error retry, l)
  | none => (.ok (), (l.charge account ip now).prune now cfg)

/-- The same limiter, with every window kept for ever. -/
def reserveUnpruned (l : IssuanceLimiter) (account ip : String) (now : UInt64)
    (cfg : MemberKeyConfig) : Except UInt64 Unit × IssuanceLimiter :=
  match l.refusal account ip now cfg with
  | some retry => (.error retry, l)
  | none => (.ok (), l.charge account ip now)

end IssuanceLimiter

theorem lookup_retain {W : Type} (m : AList fun _ : String => W) (p : W → Bool) (k : String) :
    (retain m p).lookup k = (m.lookup k).filter p := by
  have hentry : ∀ (m : AList fun _ : String => W) (w : W),
      m.lookup k = some w ↔ (⟨k, w⟩ : Sigma fun _ : String => W) ∈ m.entries :=
    fun _ _ => AList.mem_lookup_iff
  apply Option.ext
  intro w
  rw [hentry, Option.filter_eq_some_iff, hentry]
  exact List.mem_filter

end Model

section Grants

/-- A call of `reserve`. -/
structure Call where
  account : String
  ip : String
  now : UInt64

namespace Call

def day (c : Call) : Nat := c.now.toNat / 86400

def hour (c : Call) : Nat := c.now.toNat / 3600

def onDay (account : String) (day : Nat) (c : Call) : Bool := c.account == account && c.day == day

def inHour (ip : String) (hour : Nat) (c : Call) : Bool := c.ip == ip && c.hour == hour

end Call

/-- Calls come with a clock that never goes back; the newest is in front. -/
def Ordered (calls : List Call) : Prop := calls.Pairwise fun c past => past.now.toNat ≤ c.now.toNat

/-- What the grants so far refuse. -/
def verdict (cfg : MemberKeyConfig) (grants : List Call) (c : Call) : Option UInt64 :=
  if cfg.ipHourlyMax.toNat ≤ grants.countP (Call.inHour c.ip c.hour) then
    some (3600 - c.now % 3600)
  else
    match grants.find? (·.account == c.account) with
    | none => none
    | some last =>
      if c.now.toNat < last.now.toNat + cfg.accountMinInterval.secs.toNat then
        some (cfg.accountMinInterval.secs - (c.now - last.now))
      else if cfg.accountDailyMax.toNat ≤ grants.countP (Call.onDay c.account c.day) then
        some (86400 - c.now % 86400)
      else none

theorem le_of_find {grants : List Call} (hsorted : Ordered grants) {account : String} {last : Call}
    (hlast : grants.find? (·.account == account) = some last) {g : Call} (hg : g ∈ grants)
    (haccount : g.account = account) : g.now.toNat ≤ last.now.toNat := by
  induction grants with
  | nil => cases hg
  | cons c grants ih =>
    obtain ⟨hle, hsorted⟩ := List.pairwise_cons.1 hsorted
    rw [List.find?_cons] at hlast
    split at hlast
    · cases hlast
      rcases List.mem_cons.1 hg with rfl | hg
      · exact Nat.le_refl _
      · exact hle g hg
    · rename_i hne
      rcases List.mem_cons.1 hg with rfl | hg
      · simp [haccount] at hne
      · exact ih hsorted hlast hg

theorem countP_onDay_eq_zero {grants : List Call} {account : String} {day : Nat}
    (h : ∀ g ∈ grants, g.account = account → g.day ≠ day) :
    grants.countP (Call.onDay account day) = 0 := by
  rw [List.countP_eq_zero]
  intro g hg hon
  simp only [Call.onDay, Bool.and_eq_true, beq_iff_eq] at hon
  exact h g hg hon.1 hon.2

theorem countP_inHour_eq_zero {grants : List Call} {ip : String} {hour : Nat}
    (h : ∀ g ∈ grants, g.ip = ip → g.hour ≠ hour) :
    grants.countP (Call.inHour ip hour) = 0 := by
  rw [List.countP_eq_zero]
  intro g hg hin
  simp only [Call.inHour, Bool.and_eq_true, beq_iff_eq] at hin
  exact h g hg hin.1 hin.2

/-- What a call must find to be granted. -/
structure Permitted (cfg : MemberKeyConfig) (grants : List Call) (c : Call) : Prop where
  hour : grants.countP (Call.inHour c.ip c.hour) < cfg.ipHourlyMax.toNat
  spacing : ∀ g ∈ grants, g.account = c.account →
    g.now.toNat + cfg.accountMinInterval.secs.toNat ≤ c.now.toNat
  day : grants.countP (Call.onDay c.account c.day) < cfg.accountDailyMax.toNat

/-- What holds a call back until `retry` seconds after it. -/
inductive Held (cfg : MemberKeyConfig) (grants : List Call) (c : Call) (retry : Nat) : Prop
  | hour (h : cfg.ipHourlyMax.toNat ≤ grants.countP (Call.inHour c.ip c.hour))
      (huntil : c.now.toNat + retry = (c.hour + 1) * 3600)
  | spacing (g : Call) (hg : g ∈ grants) (haccount : g.account = c.account)
      (huntil : c.now.toNat + retry = g.now.toNat + cfg.accountMinInterval.secs.toNat)
  | day (h : cfg.accountDailyMax.toNat ≤ grants.countP (Call.onDay c.account c.day))
      (huntil : c.now.toNat + retry = (c.day + 1) * 86400)

theorem permitted_of_verdict {cfg : MemberKeyConfig} {grants : List Call} {c : Call}
    (hlimit : 1 ≤ cfg.accountDailyMax.toNat) (hsorted : Ordered grants)
    (h : verdict cfg grants c = none) : Permitted cfg grants c := by
  unfold verdict at h
  split at h
  · cases h
  · rename_i hhour
    split at h
    · rename_i hnone
      have hother : ∀ g ∈ grants, g.account ≠ c.account := by
        intro g hg haccount
        have hne := List.find?_eq_none.1 hnone g hg
        simp [haccount] at hne
      constructor
      · omega
      · exact fun g hg haccount => absurd haccount (hother g hg)
      · rw [countP_onDay_eq_zero fun g hg haccount => absurd haccount (hother g hg)]
        omega
    · rename_i last hlast
      split at h
      · cases h
      · split at h
        · cases h
        · constructor
          · omega
          · intro g hg haccount
            have hle := le_of_find hsorted hlast hg haccount
            omega
          · omega

theorem toNat_wait {now : UInt64} {period : UInt64} (hperiod : 0 < period.toNat) :
    (period - now % period).toNat = period.toNat - now.toNat % period.toNat := by
  have hlt := Nat.mod_lt now.toNat hperiod
  rw [UInt64.toNat_sub_of_le, UInt64.toNat_mod]
  rw [UInt64.le_iff_toNat_le, UInt64.toNat_mod]
  omega

theorem held_of_verdict {cfg : MemberKeyConfig} {grants : List Call} {c : Call} {retry : UInt64}
    (hpast : ∀ g ∈ grants, g.now.toNat ≤ c.now.toNat)
    (h : verdict cfg grants c = some retry) :
    1 ≤ retry.toNat ∧ Held cfg grants c retry.toNat := by
  unfold verdict at h
  split at h
  · rename_i hhour
    obtain rfl := Option.some.inj h
    have hwait : (3600 - c.now % 3600).toNat = 3600 - c.now.toNat % 3600 := toNat_wait (by decide)
    have hmod := Nat.mod_lt c.now.toNat (show 0 < 3600 by decide)
    have hdiv := Nat.div_add_mod c.now.toNat 3600
    refine ⟨by omega, .hour hhour ?_⟩
    rw [hwait, Call.hour]
    omega
  · split at h
    · cases h
    · rename_i last hlast
      have hmem := List.mem_of_find?_eq_some hlast
      have haccount : last.account = c.account := by
        simpa using List.find?_some hlast
      split at h
      · rename_i hsoon
        cases h
        have hle := hpast last hmem
        have hsince : (c.now - last.now).toNat = c.now.toNat - last.now.toNat :=
          UInt64.toNat_sub_of_le _ _ (UInt64.le_iff_toNat_le.2 hle)
        have hwait : (cfg.accountMinInterval.secs - (c.now - last.now)).toNat =
            cfg.accountMinInterval.secs.toNat - (c.now.toNat - last.now.toNat) := by
          rw [UInt64.toNat_sub_of_le, hsince]
          rw [UInt64.le_iff_toNat_le, hsince]
          omega
        refine ⟨by omega, .spacing last hmem haccount ?_⟩
        omega
      · split at h
        · rename_i hday
          obtain rfl := Option.some.inj h
          have hwait : (86400 - c.now % 86400).toNat = 86400 - c.now.toNat % 86400 :=
            toNat_wait (by decide)
          have hmod := Nat.mod_lt c.now.toNat (show 0 < 86400 by decide)
          have hdiv := Nat.div_add_mod c.now.toNat 86400
          refine ⟨by omega, .day hday ?_⟩
          rw [hwait, Call.day]
          omega
        · cases h

/-- A call that is held back stays so until the time has passed, whatever is granted meanwhile. -/
theorem Held.not_permitted {cfg : MemberKeyConfig} {grants more : List Call} {c c' : Call}
    {retry : Nat} (h : Held cfg grants c retry) (haccount : c'.account = c.account)
    (hip : c'.ip = c.ip) (hle : c.now.toNat ≤ c'.now.toNat)
    (hsoon : c'.now.toNat < c.now.toNat + retry) : ¬ Permitted cfg (more ++ grants) c' := by
  intro hpermitted
  cases h with
  | hour h huntil =>
    have hhour : c'.hour = c.hour := by
      unfold Call.hour at huntil ⊢
      omega
    have hlt := hpermitted.hour
    rw [hip, hhour, List.countP_append] at hlt
    omega
  | spacing g hg hgaccount huntil =>
    have hspaced := hpermitted.spacing g (List.mem_append_right _ hg) (by rw [haccount, hgaccount])
    omega
  | day h huntil =>
    have hday : c'.day = c.day := by
      unfold Call.day at huntil ⊢
      omega
    have hlt := hpermitted.day
    rw [haccount, hday, List.countP_append] at hlt
    omega

end Grants

section Tracking
variable {cfg : MemberKeyConfig} {grants : List Call} {l : IssuanceLimiter}

/-- What the windows say of the grants. A window that is missing has nothing to refuse. -/
structure Tracks (cfg : MemberKeyConfig) (now : Nat) (grants : List Call)
    (l : IssuanceLimiter) : Prop where
  past : ∀ g ∈ grants, g.now.toNat ≤ now
  sorted : Ordered grants
  account : ∀ a w, l.accounts.lookup a = some w →
    ∃ g, grants.find? (·.account == a) = some g ∧ w.last = g.now ∧ w.day.toNat = g.day ∧
      w.countToday.toNat = grants.countP (Call.onDay a g.day)
  noAccount : ∀ a, l.accounts.lookup a = none → ∀ g ∈ grants, g.account = a →
    g.day < now / 86400 ∧ g.now.toNat + cfg.accountMinInterval.secs.toNat ≤ now
  ip : ∀ i w, l.ips.lookup i = some w → w.hour.toNat ≤ now / 3600 ∧
    w.count.toNat = grants.countP (Call.inHour i w.hour.toNat) ∧
      ∀ g ∈ grants, g.ip = i → g.hour ≤ w.hour.toNat
  noIp : ∀ i, l.ips.lookup i = none → ∀ g ∈ grants, g.ip = i → g.hour < now / 3600

theorem tracks_empty (cfg : MemberKeyConfig) : Tracks cfg 0 [] .empty := by
  constructor
  · nofun
  · exact .nil
  · intro a w hw
    cases hw
  · nofun
  · intro i w hw
    cases hw
  · nofun

theorem Tracks.later {now now' : Nat} (h : Tracks cfg now grants l) (hle : now ≤ now') :
    Tracks cfg now' grants l := by
  have hday : now / 86400 ≤ now' / 86400 := Nat.div_le_div_right hle
  have hhour : now / 3600 ≤ now' / 3600 := Nat.div_le_div_right hle
  constructor
  · exact fun g hg => (h.past g hg).trans hle
  · exact h.sorted
  · exact h.account
  · intro a hnone g hg haccount
    obtain ⟨hold, hspaced⟩ := h.noAccount a hnone g hg haccount
    exact ⟨hold.trans_le hday, hspaced.trans hle⟩
  · intro i w hw
    obtain ⟨hold, hrest⟩ := h.ip i w hw
    exact ⟨hold.trans hhour, hrest⟩
  · exact fun i hnone g hg hip => (h.noIp i hnone g hg hip).trans_le hhour

/-- What a window counts on a day. -/
def AccountWindow.counted (w : Option AccountWindow) (day : UInt64) : Nat :=
  match w with
  | some w => if w.day = day then w.countToday.toNat else 0
  | none => 0

def IpWindow.counted (w : Option IpWindow) (hour : UInt64) : Nat :=
  match w with
  | some w => if w.hour = hour then w.count.toNat else 0
  | none => 0

theorem AccountWindow.le_counted_iff {w : AccountWindow} {day : UInt64} {limit : UInt32}
    (hlimit : 1 ≤ limit.toNat) :
    limit.toNat ≤ counted (some w) day ↔ w.day = day ∧ limit ≤ w.countToday := by
  simp only [counted]
  split
  · rename_i heq
    simp only [heq, true_and, UInt32.le_iff_toNat_le]
  · rename_i hne
    simp only [hne, false_and, iff_false]
    omega

theorem IpWindow.le_counted_iff {w : IpWindow} {hour : UInt64} {limit : UInt32}
    (hlimit : 1 ≤ limit.toNat) :
    limit.toNat ≤ counted (some w) hour ↔ w.hour = hour ∧ limit ≤ w.count := by
  simp only [counted]
  split
  · rename_i heq
    simp only [heq, true_and, UInt32.le_iff_toNat_le]
  · rename_i hne
    simp only [hne, false_and, iff_false]
    omega

theorem toNat_div_eq_iff {x now k : UInt64} : x = now / k ↔ x.toNat = now.toNat / k.toNat := by
  rw [← UInt64.toNat_inj, UInt64.toNat_div]

theorem Tracks.countP_onDay {c : Call} (h : Tracks cfg c.now.toNat grants l) :
    grants.countP (Call.onDay c.account c.day) =
      AccountWindow.counted (l.accounts.lookup c.account) (c.now / 86400) := by
  have hzero : (∀ g ∈ grants, g.account = c.account → g.day < c.day) →
      grants.countP (Call.onDay c.account c.day) = 0 :=
    fun hday => countP_onDay_eq_zero fun g hg haccount => Nat.ne_of_lt (hday g hg haccount)
  cases hw : l.accounts.lookup c.account with
  | none => exact hzero fun g hg haccount => (h.noAccount _ hw g hg haccount).1
  | some w =>
    obtain ⟨last, hlast, -, hday, hcount⟩ := h.account _ w hw
    simp only [AccountWindow.counted]
    split
    · rename_i heq
      have htoday : last.day = c.day := by
        rw [← hday, toNat_div_eq_iff.1 heq]
        rfl
      rw [hcount, htoday]
    · rename_i hne
      apply hzero
      intro g hg haccount
      have hle := le_of_find h.sorted hlast hg haccount
      have hpast := h.past last (List.mem_of_find?_eq_some hlast)
      have hdays : last.day ≠ c.day := by
        rw [← hday]
        exact fun heq => hne (toNat_div_eq_iff.2 heq)
      unfold Call.day at hdays ⊢
      omega

theorem Tracks.countP_inHour {c : Call} (h : Tracks cfg c.now.toNat grants l) :
    grants.countP (Call.inHour c.ip c.hour) =
      IpWindow.counted (l.ips.lookup c.ip) (c.now / 3600) := by
  cases hw : l.ips.lookup c.ip with
  | none =>
    exact countP_inHour_eq_zero fun g hg hip => Nat.ne_of_lt (h.noIp _ hw g hg hip)
  | some w =>
    obtain ⟨hold, hcount, hhours⟩ := h.ip _ w hw
    simp only [IpWindow.counted]
    split
    · rename_i heq
      have hhour : w.hour.toNat = c.hour := toNat_div_eq_iff.1 heq
      rw [hcount, hhour]
    · rename_i hne
      have hhour : w.hour.toNat ≠ c.hour := fun heq => hne (toNat_div_eq_iff.2 heq)
      apply countP_inHour_eq_zero
      intro g hg hip
      have hle := hhours g hg hip
      have hnow : w.hour.toNat ≤ c.hour := hold
      omega

theorem Tracks.ipBlocked_eq {c : Call} (h : Tracks cfg c.now.toNat grants l)
    (hlimit : 1 ≤ cfg.ipHourlyMax.toNat) :
    l.ipBlocked c.ip c.now cfg =
      if cfg.ipHourlyMax.toNat ≤ grants.countP (Call.inHour c.ip c.hour) then
        some (3600 - c.now % 3600) else none := by
  rw [h.countP_inHour, IssuanceLimiter.ipBlocked]
  cases l.ips.lookup c.ip with
  | none => exact (if_neg (Nat.not_le.2 hlimit)).symm
  | some w =>
    simp only [IpWindow.le_counted_iff hlimit]

theorem lt_iff_since_lt {now last min : UInt64} (hle : last.toNat ≤ now.toNat) :
    saturatingSubU64 now last < min ↔ now.toNat < last.toNat + min.toNat := by
  have hle' : last ≤ now := UInt64.le_iff_toNat_le.2 hle
  rw [saturatingSubU64, if_pos hle', UInt64.lt_iff_toNat_lt, UInt64.toNat_sub_of_le _ _ hle']
  omega

/-- The limiter decides as the grants do. -/
theorem Tracks.refusal_eq {c : Call} (h : Tracks cfg c.now.toNat grants l)
    (hip : 1 ≤ cfg.ipHourlyMax.toNat) (haccount : 1 ≤ cfg.accountDailyMax.toNat) :
    l.refusal c.account c.ip c.now cfg = verdict cfg grants c := by
  rw [IssuanceLimiter.refusal, h.ipBlocked_eq hip, verdict]
  by_cases hblocked : cfg.ipHourlyMax.toNat ≤ grants.countP (Call.inHour c.ip c.hour)
  · simp only [if_pos hblocked]
  · simp only [if_neg hblocked]
    cases hw : l.accounts.lookup c.account with
    | none =>
      have hgrants := h.noAccount _ hw
      have hzero : ¬ cfg.accountDailyMax.toNat ≤ grants.countP (Call.onDay c.account c.day) := by
        rw [h.countP_onDay, hw]
        exact Nat.not_le.2 haccount
      cases hlast : grants.find? (·.account == c.account) with
      | none => rfl
      | some last =>
        have hmatch : last.account = c.account := by
          simpa using List.find?_some hlast
        obtain ⟨-, hspaced⟩ := hgrants last (List.mem_of_find?_eq_some hlast) hmatch
        simp only [if_neg (Nat.not_lt.2 hspaced), if_neg hzero]
    | some w =>
      obtain ⟨last, hlast, hsame, -, -⟩ := h.account _ w hw
      have hle := h.past last (List.mem_of_find?_eq_some hlast)
      have hle' : last.now ≤ c.now := UInt64.le_iff_toNat_le.2 hle
      have hcount := h.countP_onDay
      rw [hw] at hcount
      simp only [hlast, hsame, Duration.asSecs, lt_iff_since_lt hle, hcount,
        AccountWindow.le_counted_iff haccount]
      rw [saturatingSubU64, if_pos hle']

theorem saturatingAddU32_one {n : UInt32} (h : n.toNat + 1 < 2 ^ 32) :
    (saturatingAddU32 n 1).toNat = n.toNat + 1 := by
  have hsum : (n + 1).toNat = n.toNat + 1 := by
    rw [UInt32.toNat_add]
    exact Nat.mod_eq_of_lt h
  have hle : n ≤ n + 1 := by
    rw [UInt32.le_iff_toNat_le, hsum]
    omega
  rw [saturatingAddU32, if_pos hle, hsum]

open IssuanceLimiter in
theorem chargeAccount_spec (w : Option AccountWindow) (now : UInt64)
    (h : AccountWindow.counted w (now / 86400) + 1 < 2 ^ 32) :
    (chargeAccount w now).last = now ∧ (chargeAccount w now).day = now / 86400 ∧
      (chargeAccount w now).countToday.toNat =
        AccountWindow.counted w (now / 86400) + 1 := by
  have hone : (saturatingAddU32 0 1).toNat = 1 := by decide
  cases w with
  | none => simp [chargeAccount, AccountWindow.counted, hone]
  | some w =>
    simp only [AccountWindow.counted] at h ⊢
    by_cases hday : w.day = now / 86400
    · rw [if_pos hday] at h ⊢
      simp [chargeAccount, hday, saturatingAddU32_one h]
    · rw [if_neg hday]
      simp [chargeAccount, hday, hone]

open IssuanceLimiter in
theorem chargeIp_spec (w : Option IpWindow) (now : UInt64)
    (h : IpWindow.counted w (now / 3600) + 1 < 2 ^ 32) :
    (chargeIp w now).hour = now / 3600 ∧
      (chargeIp w now).count.toNat = IpWindow.counted w (now / 3600) + 1 := by
  have hone : (saturatingAddU32 0 1).toNat = 1 := by decide
  cases w with
  | none => simp [chargeIp, IpWindow.counted, hone]
  | some w =>
    simp only [IpWindow.counted] at h ⊢
    by_cases hhour : w.hour = now / 3600
    · rw [if_pos hhour] at h ⊢
      simp [chargeIp, hhour, saturatingAddU32_one h]
    · rw [if_neg hhour]
      simp [chargeIp, hhour, hone]

theorem countP_onDay_cons (c : Call) (grants : List Call) :
    (c :: grants).countP (Call.onDay c.account c.day) =
      grants.countP (Call.onDay c.account c.day) + 1 :=
  List.countP_cons_of_pos (by simp [Call.onDay])

theorem countP_onDay_cons_ne {c : Call} {account : String} (hne : account ≠ c.account) (day : Nat)
    (grants : List Call) :
    (c :: grants).countP (Call.onDay account day) = grants.countP (Call.onDay account day) :=
  List.countP_cons_of_neg (by simp [Call.onDay, Ne.symm hne])

theorem countP_inHour_cons (c : Call) (grants : List Call) :
    (c :: grants).countP (Call.inHour c.ip c.hour) =
      grants.countP (Call.inHour c.ip c.hour) + 1 :=
  List.countP_cons_of_pos (by simp [Call.inHour])

theorem countP_inHour_cons_ne {c : Call} {ip : String} (hne : ip ≠ c.ip) (hour : Nat)
    (grants : List Call) :
    (c :: grants).countP (Call.inHour ip hour) = grants.countP (Call.inHour ip hour) :=
  List.countP_cons_of_neg (by simp [Call.inHour, Ne.symm hne])

theorem Tracks.charge {c : Call} (h : Tracks cfg c.now.toNat grants l)
    (hpermitted : Permitted cfg grants c) :
    Tracks cfg c.now.toNat (c :: grants) (l.charge c.account c.ip c.now) := by
  have hday : grants.countP (Call.onDay c.account c.day) + 1 < 2 ^ 32 := by
    have := cfg.accountDailyMax.toNat_lt
    have := hpermitted.day
    omega
  have hhour : grants.countP (Call.inHour c.ip c.hour) + 1 < 2 ^ 32 := by
    have := cfg.ipHourlyMax.toNat_lt
    have := hpermitted.hour
    omega
  have hdays := h.countP_onDay
  have hhours := h.countP_inHour
  rw [hdays] at hday
  rw [hhours] at hhour
  obtain ⟨hlast, htoday, hcount⟩ := chargeAccount_spec _ _ hday
  obtain ⟨hnow, hipCount⟩ := chargeIp_spec _ _ hhour
  constructor
  · intro g hg
    rcases List.mem_cons.1 hg with rfl | hg
    · exact Nat.le_refl _
    · exact h.past g hg
  · exact List.pairwise_cons.2 ⟨h.past, h.sorted⟩
  · intro a w hw
    by_cases ha : a = c.account
    · subst ha
      rw [IssuanceLimiter.charge, AList.lookup_insert] at hw
      obtain rfl := Option.some.inj hw
      refine ⟨c, List.find?_cons_of_pos (by simp), hlast, ?_, ?_⟩
      · rw [htoday, UInt64.toNat_div]
        rfl
      · rw [hcount, countP_onDay_cons, hdays]
    · rw [IssuanceLimiter.charge, AList.lookup_insert_ne ha] at hw
      obtain ⟨g, hg, hrest, hgday, hgcount⟩ := h.account a w hw
      refine ⟨g, ?_, hrest, hgday, ?_⟩
      · rw [List.find?_cons_of_neg (by simp [Ne.symm ha])]
        exact hg
      · rw [countP_onDay_cons_ne ha]
        exact hgcount
  · intro a hnone g hg haccount
    by_cases ha : a = c.account
    · rw [ha, IssuanceLimiter.charge, AList.lookup_insert] at hnone
      cases hnone
    · rw [IssuanceLimiter.charge, AList.lookup_insert_ne ha] at hnone
      rcases List.mem_cons.1 hg with rfl | hg
      · exact absurd haccount.symm ha
      · exact h.noAccount a hnone g hg haccount
  · intro i w hw
    by_cases hi : i = c.ip
    · subst hi
      rw [IssuanceLimiter.charge, AList.lookup_insert] at hw
      obtain rfl := Option.some.inj hw
      have hthis : (IssuanceLimiter.chargeIp (l.ips.lookup c.ip) c.now).hour.toNat = c.hour := by
        rw [hnow, UInt64.toNat_div]
        rfl
      refine ⟨Nat.le_of_eq hthis, ?_, fun g hg _ => ?_⟩
      · rw [hthis, hipCount, countP_inHour_cons, hhours]
      · rw [hthis]
        rcases List.mem_cons.1 hg with rfl | hg
        · exact Nat.le_refl _
        · exact Nat.div_le_div_right (h.past g hg)
    · rw [IssuanceLimiter.charge, AList.lookup_insert_ne hi] at hw
      obtain ⟨hold, hwcount, hwhours⟩ := h.ip i w hw
      refine ⟨hold, ?_, fun g hg hip => ?_⟩
      · rw [countP_inHour_cons_ne hi]
        exact hwcount
      · rcases List.mem_cons.1 hg with rfl | hg
        · exact absurd hip.symm hi
        · exact hwhours g hg hip
  · intro i hnone g hg hip
    by_cases hi : i = c.ip
    · rw [hi, IssuanceLimiter.charge, AList.lookup_insert] at hnone
      cases hnone
    · rw [IssuanceLimiter.charge, AList.lookup_insert_ne hi] at hnone
      rcases List.mem_cons.1 hg with rfl | hg
      · exact absurd hip.symm hi
      · exact h.noIp i hnone g hg hip

theorem lookup_prune_accounts (l : IssuanceLimiter) (now : UInt64) (cfg : MemberKeyConfig)
    (a : String) :
    (l.prune now cfg).accounts.lookup a = l.accounts.lookup a ∨
      (l.prune now cfg).accounts.lookup a = (l.accounts.lookup a).filter fun w =>
        w.day = now / 86400 ∨ saturatingSubU64 now w.last < cfg.accountMinInterval.asSecs := by
  rw [IssuanceLimiter.prune]
  simp only
  split
  · exact .inr (lookup_retain _ _ _)
  · exact .inl rfl

theorem lookup_prune_ips (l : IssuanceLimiter) (now : UInt64) (cfg : MemberKeyConfig)
    (i : String) :
    (l.prune now cfg).ips.lookup i = l.ips.lookup i ∨
      (l.prune now cfg).ips.lookup i = (l.ips.lookup i).filter fun w => w.hour = now / 3600 := by
  rw [IssuanceLimiter.prune]
  simp only
  split
  · exact .inr (lookup_retain _ _ _)
  · exact .inl rfl

/-- A window that is dropped could refuse nothing any more. -/
theorem Tracks.prune {now : UInt64} (h : Tracks cfg now.toNat grants l) :
    Tracks cfg now.toNat grants (l.prune now cfg) := by
  constructor
  · exact h.past
  · exact h.sorted
  · intro a w hw
    apply h.account a w
    rcases lookup_prune_accounts l now cfg a with hsame | hfilter
    · rw [← hsame]
      exact hw
    · rw [hfilter] at hw
      exact (Option.filter_eq_some_iff.1 hw).1
  · intro a hnone g hg haccount
    cases hw : l.accounts.lookup a with
    | none => exact h.noAccount a hw g hg haccount
    | some w =>
      obtain ⟨last, hlast, hsame, hday, -⟩ := h.account a w hw
      rcases lookup_prune_accounts l now cfg a with hkept | hfilter
      · rw [hkept, hw] at hnone
        cases hnone
      · rw [hfilter, hw, Option.filter_eq_none_iff] at hnone
        have hdropped := hnone w rfl
        have hpast := h.past last (List.mem_of_find?_eq_some hlast)
        rw [decide_eq_true_iff, hsame, lt_iff_since_lt hpast, toNat_div_eq_iff, hday] at hdropped
        have hle := le_of_find h.sorted hlast hg haccount
        have hold : last.day ≠ now.toNat / 86400 ∧
            last.now.toNat + cfg.accountMinInterval.secs.toNat ≤ now.toNat := by
          simpa [Duration.asSecs] using hdropped
        unfold Call.day at hold ⊢
        omega
  · intro i w hw
    apply h.ip i w
    rcases lookup_prune_ips l now cfg i with hsame | hfilter
    · rw [← hsame]
      exact hw
    · rw [hfilter] at hw
      exact (Option.filter_eq_some_iff.1 hw).1
  · intro i hnone g hg hip
    cases hw : l.ips.lookup i with
    | none => exact h.noIp i hw g hg hip
    | some w =>
      obtain ⟨hold, -, hhours⟩ := h.ip i w hw
      rcases lookup_prune_ips l now cfg i with hkept | hfilter
      · rw [hkept, hw] at hnone
        cases hnone
      · rw [hfilter, hw, Option.filter_eq_none_iff] at hnone
        have hdropped := hnone w rfl
        have hne : w.hour.toNat ≠ now.toNat / 3600 := by
          simpa [toNat_div_eq_iff] using hdropped
        have hle := hhours g hg hip
        omega

end Tracking
end Gateway.MemberKeys
