import CitrateGateway.Gateway.Consumption

/-!
# Daily quotas and the member pool

A call charges a counter at most once, under the counter's lock and from the value it read
there. So a counter is what it was, and one more for every charge, for all interleavings of
the single accesses; and a call charges exactly when it succeeds.
-/

namespace Gateway.KeyStore
set_option autoImplicit false
open Words Effects Durable

section Charges

/-- A counter row; an absent one reads as 0. -/
def counterAt (rows : Rows) (owner : QuotaOwner) (day : String) : UInt64 :=
  (rows.get (.quota owner day) : Option UInt64).getD 0

def isCharge (owner : QuotaOwner) (day : String) : Event → Bool
  | ⟨.put ⟨.quota owner' day', _⟩, .ok ()⟩ => decide (owner' = owner ∧ day' = day)
  | _ => false

/-- How often a counter was charged. -/
def charges (owner : QuotaOwner) (day : String) (log : List (Nat × Event)) : Nat :=
  log.countP fun x => isCharge owner day x.2

/-- What the history of a consumption shows. -/
structure Sound (h : String) (past : List Event) : Prop where
  day : ∀ owner, (view past).counter owner ≠ none → (view past).day ≠ none
  limit : ∀ owner, (view past).counter owner ≠ none → (view past).limit owner ≠ none
  member : (view past).cap ≠ none → ∃ r, (view past).record = some r ∧ isMemberLabel r.label = true
  once : ∀ owner, ((view past).charged owner).length ≤ 1
  charged : ∀ owner day, owner = .key h ∨ owner = .memberPool →
    past.countP (isCharge owner day) = ((view past).charged owner).count day
  others : ∀ h' day, h' ≠ h → past.countP (isCharge (.key h') day) = 0

variable {h : String} {past : List Event} {e : Event}

/-- Events that charge nothing. -/
theorem Sound.seen (hs : Sound h past) (hcharge : ∀ owner day, isCharge owner day e = false)
    (hcharged : ∀ owner, (view (e :: past)).charged owner = (view past).charged owner)
    (hday : ∀ owner, (view (e :: past)).counter owner ≠ none → (view (e :: past)).day ≠ none)
    (hlimit : ∀ owner, (view (e :: past)).counter owner ≠ none →
      (view (e :: past)).limit owner ≠ none)
    (hmember : (view (e :: past)).cap ≠ none →
      ∃ r, (view (e :: past)).record = some r ∧ isMemberLabel r.label = true) :
    Sound h (e :: past) where
  day := hday
  limit := hlimit
  member := hmember
  once owner := by
    rw [hcharged]
    exact hs.once owner
  charged owner day how := by
    rw [List.countP_cons_of_neg (by simp [hcharge]), hcharged]
    exact hs.charged owner day how
  others h' day hne := by
    rw [List.countP_cons_of_neg (by simp [hcharge])]
    exact hs.others h' day hne

theorem Sound.quiet (hs : Sound h past) (hview : (view past).next e = view past)
    (hcharge : ∀ owner day, isCharge owner day e = false) : Sound h (e :: past) := by
  have hv : view (e :: past) = view past := hview
  refine hs.seen hcharge (fun _ => by rw [hv]) ?_ ?_ ?_
  · rw [hv]; exact hs.day
  · rw [hv]; exact hs.limit
  · rw [hv]; exact hs.member

theorem Sound.charge {owner : QuotaOwner} {day : String} {n : UInt64} (hs : Sound h past)
    (hcount : Counting h past owner day) :
    Sound h (⟨.put ⟨.quota owner day, n⟩, .ok ()⟩ :: past) := by
  have hchargedAll : ∀ owner' day', (⟨.put ⟨.quota owner day, n⟩, .ok ()⟩ :: past).countP
      (isCharge owner' day') = past.countP (isCharge owner' day') +
        if owner = owner' ∧ day = day' then 1 else 0 := by
    intro owner' day'
    rw [List.countP_cons]
    simp [isCharge]
  have hnone := hcount.uncharged
  refine ⟨?_, ?_, ?_, ?_, ?_, ?_⟩
  · rintro (h' | _)
    · cases owner <;> exact hs.day (.key h')
    · cases owner <;> exact hs.day .memberPool
  · rintro (h' | _)
    · cases owner <;> exact hs.limit (.key h')
    · cases owner <;> exact hs.limit .memberPool
  · cases owner <;> exact hs.member
  · intro owner'
    have hold := hs.once owner'
    cases owner <;> cases owner' <;> simp_all [view, View.next, View.charged]
  · intro owner' day' how
    rw [hchargedAll, hs.charged owner' day' how]
    have hown := hcount.own
    cases owner <;> cases owner' <;> simp_all [view, View.next, View.charged, List.count_cons]
  · intro h' day' hne
    rw [hchargedAll, hs.others h' day' hne]
    have hown := hcount.own
    rcases hown with rfl | rfl <;> simp [Ne.symm hne]

/-- A consumption that does its duty has a sound history. -/
theorem sound_of_kept (hkept : System.Kept (ConsumeDuty h) past) : Sound h past := by
  induction past with
  | nil =>
    refine ⟨?_, ?_, ?_, ?_, ?_, ?_⟩
    · intro owner hne
      cases owner <;> exact absurd rfl hne
    · intro owner hne
      cases owner <;> exact absurd rfl hne
    · exact fun hne => absurd rfl hne
    · intro owner
      cases owner <;> exact Nat.zero_le _
    · intro owner day how
      cases owner <;> rfl
    · exact fun _ _ _ => rfl
  | cons e past ih =>
    obtain ⟨hduty, hkept⟩ := hkept
    have hs := ih hkept
    obtain ⟨o, a⟩ := e
    cases o with
    | get k =>
      cases k with
      | record h' =>
        rcases a with e | _ | r
        · exact hs.quiet rfl fun _ _ => rfl
        · exact hs.quiet rfl fun _ _ => rfl
        · obtain ⟨rfl, hnone⟩ := hduty
          refine hs.seen (fun _ _ => rfl) (fun owner => by cases owner <;> rfl) ?_ ?_ ?_
          · rintro (h' | _)
            · exact hs.day (.key h')
            · exact hs.day .memberPool
          · rintro (h' | _) hne
            · simp [view, View.next, View.limit]
            · exact hs.limit .memberPool hne
          · intro hne
            obtain ⟨r', hr', _⟩ := hs.member hne
            rw [hnone] at hr'
            cases hr'
      | quota owner day =>
        cases a with
        | error e => cases owner <;> exact hs.quiet rfl fun _ _ => rfl
        | ok n =>
          obtain ⟨hcount, _⟩ := hduty
          obtain ⟨limit, hlimit, _⟩ := hcount.limited
          have hday := hcount.day
          refine hs.seen (fun _ _ => rfl) (fun owner' => ?_) (fun owner' _ => ?_)
            (fun owner' hne => ?_) ?_
          · cases owner <;> cases owner' <;> rfl
          · cases owner <;> simp [view, View.next, hday]
          · cases owner with
            | key h' =>
              cases owner' with
              | key h'' => exact Option.ne_none_iff_exists'.2 ⟨limit, hlimit⟩
              | memberPool => exact hs.limit .memberPool hne
            | memberPool =>
              cases owner' with
              | key h'' => exact hs.limit (.key h'') hne
              | memberPool => exact Option.ne_none_iff_exists'.2 ⟨limit, hlimit⟩
          · cases owner <;> exact hs.member
      | _ => exact hduty.elim
    | put row =>
      obtain ⟨k, v⟩ := row
      cases k with
      | quota owner day =>
        cases a with
        | error e => cases owner <;> exact hs.quiet rfl fun _ _ => rfl
        | ok u => exact hs.charge hduty.1
      | _ => exact hduty.elim
    | memberPoolDaily =>
      obtain ⟨hnone, r, hrecord, hmember⟩ := hduty
      refine hs.seen (fun _ _ => rfl) (fun owner => by cases owner <;> rfl) ?_ ?_
        fun _ => ⟨r, hrecord, hmember⟩
      · rintro (h' | _)
        · exact hs.day (.key h')
        · exact hs.day .memberPool
      · rintro (h' | _) hne
        · exact hs.limit (.key h') hne
        · simp [view, View.next, View.limit]
    | today =>
      refine hs.seen (fun _ _ => rfl) (fun owner => by cases owner <;> rfl) ?_ ?_ hs.member
      · intro owner _
        simp [view, View.next]
      · rintro (h' | _)
        · exact hs.limit (.key h')
        · exact hs.limit .memberPool
    | _ => first | exact hduty.elim | exact hs.quiet rfl fun _ _ => rfl

variable {owner : QuotaOwner} {day : String} {cur : UInt64}

theorem Counting.back (hcount : Counting h (e :: past) owner day)
    (hview : view (e :: past) = view past)
    (hdepth : depth (lockOf owner) (e :: past) ≤ depth (lockOf owner) past) :
    Counting h past owner day := by
  have hheld := hcount.held
  refine ⟨hcount.own, by omega, ?_, ?_, ?_⟩
  · rw [← hview]; exact hcount.day
  · rw [← hview]; exact hcount.uncharged
  · rw [← hview]; exact hcount.limited

/-- A call that stands at a counter it has read stood there before, or it just read it. -/
theorem counting_cons (hs : Sound h past) (hduty : ConsumeDuty h past e)
    (hcount : Counting h (e :: past) owner day)
    (hcur : (view (e :: past)).counter owner = some cur) :
    (Counting h past owner day ∧ (view past).counter owner = some cur) ∨
      ∃ n : Option UInt64, e = ⟨.get (.quota owner day), .ok n⟩ ∧ cur = n.getD 0 := by
  have hback : view (e :: past) = view past →
      depth (lockOf owner) (e :: past) ≤ depth (lockOf owner) past →
        Counting h past owner day ∧ (view past).counter owner = some cur := fun hview hdepth =>
    ⟨hcount.back hview hdepth, hview ▸ hcur⟩
  obtain ⟨o, a⟩ := e
  cases o with
  | get k =>
    cases k with
    | record h' =>
      rcases a with e | _ | r
      · exact Or.inl (hback rfl le_rfl)
      · exact Or.inl (hback rfl le_rfl)
      · -- the record is read before any counter
        have hnone : (view past).record = none := hduty.2
        cases owner with
        | key h'' =>
          have hread : (view past).counter (.key h'') = some cur := hcur
          refine absurd ?_ (hs.limit (.key h'') (by simp [hread]))
          simp [View.limit, hnone]
        | memberPool =>
          have hread : (view past).counter .memberPool = some cur := hcur
          have hcap := hs.limit .memberPool (by simp [hread])
          obtain ⟨r', hr', _⟩ := hs.member hcap
          rw [hnone] at hr'
          cases hr'
    | quota owner' day' =>
      cases a with
      | error e => cases owner' <;> exact Or.inl (hback rfl le_rfl)
      | ok n =>
        obtain ⟨hcount', hnew⟩ := hduty
        have hown := hcount.own
        have hown' := hcount'.own
        by_cases heq : owner' = owner
        · subst heq
          have hday := hcount.day
          have : (view (⟨.get (.quota owner' day'), .ok n⟩ :: past)).day = some day' := by
            rw [← hcount'.day]
            cases owner' <;> rfl
          rw [this] at hday
          cases hday
          refine Or.inr ⟨n, rfl, ?_⟩
          cases owner' <;> exact (Option.some.inj hcur).symm
        · refine Or.inl ⟨⟨hown, hcount.held, ?_, ?_, ?_⟩, ?_⟩
          · rw [← hcount.day]
            cases owner' <;> rfl
          · rw [← hcount.uncharged]
            cases owner' <;> cases owner <;> rfl
          · have := hcount.limited
            cases owner' <;> cases owner <;> exact this
          · rw [← hcur]
            cases owner' <;> cases owner <;> simp_all [view, View.next, View.counter]
    | _ => exact hduty.elim
  | put row =>
    obtain ⟨k, v⟩ := row
    cases k with
    | quota owner' day' =>
      cases a with
      | error e => cases owner' <;> exact Or.inl (hback rfl le_rfl)
      | ok u =>
        have hown := hcount.own
        have hown' := hduty.1.own
        have hfree := hcount.uncharged
        have hold := hcount.limited
        have hday := hcount.day
        refine Or.inl ⟨⟨hown, hcount.held, ?_, ?_, ?_⟩, ?_⟩
        · rw [← hday]
          cases owner' <;> rfl
        · cases owner' <;> cases owner <;> simp_all [view, View.next, View.charged]
        · cases owner' <;> cases owner <;> exact hold
        · rw [← hcur]
          cases owner' <;> cases owner <;> rfl
    | _ => exact hduty.elim
  | memberPoolDaily =>
    cases owner with
    | key h' =>
      exact Or.inl ⟨⟨hcount.own, hcount.held, hcount.day, hcount.uncharged, hcount.limited⟩, hcur⟩
    | memberPool =>
      have hread : (view past).counter .memberPool = some cur := hcur
      exact absurd hduty.1 (hs.limit .memberPool (by simp [hread]))
  | today =>
    have hread : (view past).counter owner = some cur := by
      rw [← hcur]
      cases owner <;> rfl
    exact absurd hduty (hs.day owner (by simp [hread]))
  | lock h' =>
    by_cases hlock : lockOf owner = .key h'
    · cases owner with
      | key h'' =>
        have hread : (view past).keyCounter = some cur := hcur
        have hnone : (view past).keyCounter = none := hduty
        rw [hnone] at hread
        cases hread
      | memberPool => cases hlock
    · exact Or.inl (hback rfl (by simp [depth, hlock]))
  | lockPool =>
    cases owner with
    | key h' => exact Or.inl (hback rfl (by simp [depth, lockOf]))
    | memberPool =>
      have hread : (view past).poolCounter = some cur := hcur
      have hnone : (view past).poolCounter = none := hduty
      rw [hnone] at hread
      cases hread
  | unlock h' => exact Or.inl (hback rfl (by simp [depth]))
  | unlockPool => exact Or.inl (hback rfl (by simp [depth]))
  | _ => first | exact hduty.elim | exact Or.inl (hback rfl le_rfl)

end Charges

section Runs
variable {hashKeyId : String → String} {rows₀ : Rows} {s : (proxyCalls hashKeyId).State}
variable {ok : (proxyCalls hashKeyId).State → (proxyCalls hashKeyId).Action → Prop}

/-- Consumptions and changes of the cap, run to their end without a failure of the store; it is
restarted only when no call is running, and loses nothing. -/
def QuotaStep (s : (proxyCalls hashKeyId).State) : (proxyCalls hashKeyId).Action → Prop
  | .start m => m.isConsumer = true
  | .exec _ c => ∀ e, c ≠ .fail e
  | .drop _ => False
  | .world (.restart mask) => (∀ t, s.running t = false) ∧
      keep mask (proxyRows s).pending = (proxyRows s).pending

theorem consumerStep_of_quotaStep {act : (proxyCalls hashKeyId).Action} (h : QuotaStep s act) :
    ConsumerStep s act := by
  cases act with
  | start m => exact h
  | world w => exact h.2
  | _ => trivial

theorem unfailed_of_run (hrun : ProxyRun hashKeyId rows₀ QuotaStep s) :
    ∀ x ∈ s.log, failed x.2 = false := by
  refine System.Reach.invariant (fun s => ∀ x ∈ s.log, failed x.2 = false) hrun
    (fun x hx => by cases hx) ?_
  intro s s' act hr hI hok hT
  cases hT with
  | exec t c m o k a sh htask hhandle =>
    intro x hx
    rcases List.mem_cons.1 hx with rfl | hx
    · cases o with
      | get | contains | put | putSynced | writeBatch | scanBatches | scanBudgets =>
        cases c <;> cases hhandle <;> first | rfl | exact absurd rfl (hok _)
      | _ => rfl
    · exact hI x hx
  | _ => exact hI

theorem sound_of_run (hr : ProxyRun hashKeyId rows₀ ok s) {t : Nat} {keyId : String}
    (hjob : s.job t = some (.tryConsume keyId)) :
    Sound (hashKeyId keyId) (System.trace s.log t) :=
  sound_of_kept ((hr.kept (consumeContract hashKeyId) (consume_served ok) hjob).mono
    fun _ _ h => h.2)

theorem counterAt_put (rows : Rows) (owner owner' : QuotaOwner) (day day' : String) (n : UInt64) :
    counterAt (rows.put ⟨.quota owner day, n⟩) owner' day' =
      if owner = owner' ∧ day = day' then n else counterAt rows owner' day' := by
  split
  · rename_i h
    obtain ⟨rfl, rfl⟩ := h
    rw [counterAt, DurableStore.get_put_self, Option.getD_some]
  · rename_i h
    rw [counterAt, DurableStore.get_put_ne _ (fun heq => h ?_), counterAt]
    cases heq
    exact ⟨rfl, rfl⟩

/-- A consumer charges a counter, or leaves them all. -/
theorem charge_or_quiet {m : ProxyMethod} {past : List Event} {e : Event} {sh sh' : Shared}
    {t : Nat} (hcons : m.isConsumer = true) (hduty : m.Duty hashKeyId past e)
    (hacc : Accessed hashKeyId sh t e sh') :
    (∃ keyId owner day n, m = .tryConsume keyId ∧ e = ⟨.put ⟨.quota owner day, n⟩, .ok ()⟩ ∧
      sh'.store.rows = sh.store.rows.put ⟨.quota owner day, n⟩) ∨
    ((∀ owner day, isCharge owner day e = false) ∧ sh'.store.rows = sh.store.rows) := by
  cases m with
  | tryConsume keyId =>
    cases hacc with
    | put row =>
      obtain ⟨k, v⟩ := row
      cases k with
      | quota owner day => exact Or.inl ⟨keyId, owner, day, v, rfl, rfl, rfl⟩
      | _ => exact hduty.elim
    | putSynced row => exact hduty.elim
    | writeBatch group => exact hduty.elim
    | putFailed row e =>
      obtain ⟨k, v⟩ := row
      cases k <;> exact Or.inr ⟨fun _ _ => rfl, rfl⟩
    | _ => exact Or.inr ⟨fun _ _ => rfl, rfl⟩
  | setMemberPoolDaily cap =>
    cases hacc <;> first | exact Or.inr ⟨fun _ _ => rfl, rfl⟩ | cases hduty
  | _ => cases hcons

/-- A counter is what it was and one more for each charge, at every moment of a run, and a call
that stands at it has read what it is. -/
structure QuotaInv (rows₀ : Rows) (s : (proxyCalls hashKeyId).State) : Prop where
  read : ∀ t keyId owner day cur, s.job t = some (.tryConsume keyId) → s.running t = true →
    Counting (hashKeyId keyId) (System.trace s.log t) owner day →
      (view (System.trace s.log t)).counter owner = some cur →
        counterAt (proxyRows s) owner day = cur
  counted : ∀ owner day, (counterAt (proxyRows s) owner day).toNat =
    (counterAt rows₀ owner day).toNat + charges owner day s.log
  bounded : ∀ h day r, rows₀.get (.record h) = some r →
    (counterAt (proxyRows s) (.key h) day).toNat ≤
      max (counterAt rows₀ (.key h) day).toNat r.dailyQuota.toNat

theorem toNat_succ_of_lt {cur limit : UInt64} (h : cur < limit) :
    (cur + 1).toNat = cur.toNat + 1 ∧ cur.toNat + 1 ≤ limit.toNat := by
  have hlt := UInt64.lt_iff_toNat_lt.1 h
  have hmax := limit.toNat_lt
  rw [UInt64.toNat_add, UInt64.toNat_one, Nat.mod_eq_of_lt (by omega)]
  omega

theorem charges_cons (owner : QuotaOwner) (day : String) (t : Nat) (e : Event)
    (log : List (Nat × Event)) :
    charges owner day ((t, e) :: log) =
      charges owner day log + if isCharge owner day e then 1 else 0 :=
  List.countP_cons

section Exec
variable {t : Nat} {m : ProxyMethod} {o : Op} {k : o.Ans → M ((m : ProxyMethod) × m.Ans)}
variable {a : o.Ans} {sh : Shared} (hI : QuotaInv rows₀ s) (hok : ∀ s a, ok s a → ConsumerStep s a)
variable (hr : ProxyRun hashKeyId rows₀ ok s)
variable (htask : s.tasks[t]? = some ⟨m, some (.op o k)⟩)
variable (hduty : m.Duty hashKeyId (System.trace s.log t) ⟨o, a⟩)
variable (hacc : Accessed hashKeyId s.shared t ⟨o, a⟩ sh)
include hI hok hr htask hduty hacc

omit hok hr hacc in
/-- A charge is made by the call that stands at the counter, and goes one beyond it. -/
theorem charge_of_duty {keyId : String} {owner : QuotaOwner} {day : String} {n : UInt64}
    (hm : m = .tryConsume keyId) (he : (⟨o, a⟩ : Event) = ⟨.put ⟨.quota owner day, n⟩, .ok ()⟩) :
    Counting (hashKeyId keyId) (System.trace s.log t) owner day ∧
      ∃ limit, (view (System.trace s.log t)).limit owner = some limit ∧
        counterAt (proxyRows s) owner day < limit ∧
          n = counterAt (proxyRows s) owner day + 1 := by
  subst hm
  cases he
  obtain ⟨hcount, cur, limit, hcur, hlimit, hlt, rfl⟩ := hduty
  have hrow := hI.read t keyId owner day cur (System.job_of_task htask)
    (System.running_of_task htask) hcount hcur
  exact ⟨hcount, limit, hlimit, by rw [hrow]; exact hlt, by rw [hrow]⟩

theorem counterRead_advance {u : Nat} {keyId : String} {owner : QuotaOwner} {day : String}
    {cur : UInt64} (hu : s.job u = some (.tryConsume keyId))
    (hur : (s.advance t m o k a sh).running u = true)
    (hcount : Counting (hashKeyId keyId) (System.trace (s.advance t m o k a sh).log u) owner day)
    (hcur : (view (System.trace (s.advance t m o k a sh).log u)).counter owner = some cur) :
    counterAt (proxyRows (s.advance t m o k a sh)) owner day = cur := by
  have hjob := System.job_of_task htask
  rw [proxyRows, advance_store]
  have hchange : counterAt sh.store.rows owner day = counterAt (proxyRows s) owner day ∨
      ∃ keyId' n, m = .tryConsume keyId' ∧
        (⟨o, a⟩ : Event) = ⟨.put ⟨.quota owner day, n⟩, .ok ()⟩ := by
    rcases charge_or_quiet ((consumerInv_of_run hok hr).jobs t m hjob) hduty hacc with
      ⟨keyId', owner', day', n, hm, he, hput⟩ | ⟨_, hsame⟩
    · rw [hput, counterAt_put]
      split
      · rename_i heq
        obtain ⟨rfl, rfl⟩ := heq
        exact Or.inr ⟨keyId', n, hm, he⟩
      · exact Or.inl rfl
    · rw [hsame]
      exact Or.inl rfl
  by_cases hut : u = t
  · subst hut
    rw [hjob] at hu
    cases hu
    rw [System.trace_advance_self] at hcount hcur
    rcases counting_cons (sound_of_run hr hjob) hduty hcount hcur with
      ⟨hbefore, hread⟩ | ⟨n, he, rfl⟩
    · have hrow := hI.read u keyId owner day cur hjob (System.running_of_task htask) hbefore hread
      rcases hchange with hsame | ⟨_, n, _, he⟩
      · rw [hsame, hrow]
      · rw [he] at hcount
        have hcharged := hcount.uncharged
        cases owner <;> simp [view, View.next, View.charged] at hcharged
    · rw [he] at hacc
      rw [shared_of_read hacc, counterAt, get_of_accessed hacc]
  · rw [System.trace_advance_ne s hut] at hcount hcur
    have hold := hr.running_advance hut hur (ne_nil_of_depth hcount.held)
    have hrow := hI.read u keyId owner day cur hu hold hcount hcur
    rcases hchange with hsame | ⟨keyId', n, hm, he⟩
    · rw [hsame, hrow]
    · -- both calls would hold the lock of the counter
      obtain ⟨hcount', _⟩ := charge_of_duty hI htask hduty hm he
      have hheld := proxyHeld_of_run hr
      have := hheld.holder t _ (System.running_of_task htask) hcount'.held
      rw [hheld.holder u _ hold hcount.held] at this
      exact absurd (Option.some.inj this) hut

theorem QuotaInv.advance
    (hjobs : ∀ u m', (s.advance t m o k a sh).job u = some m' → s.job u = some m') :
    QuotaInv rows₀ (s.advance t m o k a sh) := by
  have hcinv := consumerInv_of_run hok hr
  have hjob := System.job_of_task htask
  have hlog : (s.advance t m o k a sh).log = (t, ⟨o, a⟩) :: s.log := rfl
  have hrows : proxyRows (s.advance t m o k a sh) = sh.store.rows := by
    rw [proxyRows, advance_store]
  have hread := fun u keyId owner day cur hu hur hcount hcur =>
    @counterRead_advance _ _ _ _ _ _ _ _ _ _ hI hok hr htask hduty hacc u keyId owner day cur
      (hjobs u _ hu) hur hcount hcur
  rcases charge_or_quiet (hcinv.jobs t m hjob) hduty hacc with
    ⟨keyId, owner, day, n, hm, he, hput⟩ | ⟨hquiet, hsame⟩
  · obtain ⟨hcount, limit, hlimit, hlt, hn⟩ := charge_of_duty hI htask hduty hm he
    obtain ⟨hsucc, hle⟩ := toNat_succ_of_lt hlt
    have hat : ∀ owner' day', counterAt (proxyRows (s.advance t m o k a sh)) owner' day' =
        if owner = owner' ∧ day = day' then n else counterAt (proxyRows s) owner' day' := by
      intro owner' day'
      rw [hrows, hput]
      exact counterAt_put _ _ _ _ _ _
    refine ⟨hread, fun owner' day' => ?_, fun h day' r hrecord => ?_⟩
    · rw [hat, hlog, charges_cons, he]
      have hold := hI.counted owner' day'
      by_cases heq : owner = owner' ∧ day = day'
      · obtain ⟨rfl, rfl⟩ := heq
        simp only [isCharge, and_self, if_true, decide_true]
        rw [hn, hsucc, hold]
        omega
      · simp only [isCharge, if_neg heq, decide_eq_false heq, Bool.false_eq_true, if_false]
        omega
    · rw [hat]
      split
      · rename_i heq
        obtain ⟨rfl, rfl⟩ := heq
        subst hm
        have hown : h = hashKeyId keyId := by
          rcases hcount.own with hown | hown <;> cases hown
          rfl
        subst hown
        obtain ⟨r', hr', hquota⟩ := Option.map_eq_some_iff.1 hlimit
        have hseen := hcinv.seen t keyId r' hjob hr'
        rw [hrecord] at hseen
        cases hseen
        subst hquota
        rw [hn, hsucc]
        omega
      · exact hI.bounded h day' r hrecord
  · refine ⟨hread, fun owner day => ?_, fun h day r hrecord => ?_⟩
    · rw [hrows, hsame, hlog, charges_cons, hquiet]
      exact hI.counted owner day
    · rw [hrows, hsame]
      exact hI.bounded h day r hrecord

end Exec

theorem quotaInv_of_run (hrun : ProxyRun hashKeyId rows₀ QuotaStep s) : QuotaInv rows₀ s := by
  refine System.Reach.invariant (QuotaInv rows₀) hrun ?_ ?_
  · refine ⟨fun t keyId owner day cur hjob => ?_, fun owner day => ?_, fun h day r _ => ?_⟩
    · simp [System.State.job, System.init] at hjob
    · simp [charges, System.init, Shared.opened]
    · exact Nat.le_max_left _ _
  intro s s' act hr hI hact hT
  have hjobs : ∀ u m, s'.job u = some m → s.job u = some m ∨ act = .start m := by
    intro u m hj
    rcases System.job_cases hT hj with hold | ⟨-, hstart | ⟨_, ho⟩⟩
    · exact Or.inl hold
    · exact Or.inr hstart
    · cases ho
  cases hT with
  | start m sh hstart =>
    cases hstart
    refine ⟨fun u keyId owner day cur hj hur hcount hcur => ?_, hI.counted, hI.bounded⟩
    have hne := ne_nil_of_depth hcount.held
    have hold := hr.running_begin hur hne
    rcases System.job_cases (System.Transition.start m s.shared rfl) hj with hj | ⟨hge, _⟩
    · exact hI.read u keyId owner day cur hj hold hcount hcur
    · exact absurd (hr.trace_eq_nil hge) hne
  | exec t c m o k a sh htask hhandle =>
    refine hI.advance (fun _ _ => consumerStep_of_quotaStep) hr htask
      (proxyDuty_of_task hr htask a).2 (handle_cases hhandle) fun u m' hj => ?_
    exact (hjobs u m' hj).resolve_right fun h => by cases h
  | drop t m o k htask => exact hact.elim
  | world w sh hworld =>
    obtain ⟨mask⟩ := w
    cases hworld
    have hrow : ∀ owner day, counterAt ((proxyRows s).crash mask) owner day =
        counterAt (proxyRows s) owner day := fun owner day => by
      rw [counterAt, get_crash_of_kept hact.2, counterAt]
    refine ⟨fun u keyId owner day cur hj hur => ?_, fun owner day => ?_, fun h day r hrecord => ?_⟩
    · rw [System.running_of_halted rfl] at hur
      cases hur
    · exact (congrArg UInt64.toNat (hrow owner day)).trans (hI.counted owner day)
    · exact (congrArg UInt64.toNat (hrow _ day)).trans_le (hI.bounded h day r hrecord)

/-- The call of the key succeeded, on the day that it read. -/
def succeeded (h day : String) (s : (proxyCalls hashKeyId).State) (t : Nat) : Bool :=
  match s.tasks[t]? with
  | some ⟨.tryConsume keyId, some (.ret ⟨.tryConsume _, .ok _⟩)⟩ =>
    hashKeyId keyId == h && (view (System.trace s.log t)).day == some day
  | _ => false

/-- The call charged its key for the day and has yet to give back its lock and to return. -/
def unreturned (h day : String) (s : (proxyCalls hashKeyId).State) (t : Nat) : Bool :=
  match s.tasks[t]? with
  | some ⟨.tryConsume keyId, some (.op _ _)⟩ =>
    hashKeyId keyId == h && (view (System.trace s.log t)).keyDays == [day]
  | _ => false

/-- How many of the calls so far are of a kind. -/
def callCount (p : Nat → Bool) (s : (proxyCalls hashKeyId).State) : Nat :=
  (List.range s.tasks.length).countP p

def successes (h day : String) (s : (proxyCalls hashKeyId).State) : Nat :=
  callCount (succeeded h day s) s

/-- The rows that an operation reads or writes. -/
def Op.keys : Op → List RowKey
  | .get k | .contains k => [k]
  | .put row | .putSynced row => [row.1]
  | .writeBatch group => group.keys
  | _ => []

/-- What the quotas and the pool promise at any moment of a run. -/
structure QuotasExact (rows₀ : Rows) (s : (proxyCalls hashKeyId).State) : Prop where
  within : ∀ h day r, rows₀.get (.record h) = some r → 0 < r.dailyQuota →
    successes h day s ≤ r.dailyQuota.toNat - (counterAt rows₀ (.key h) day).toNat
  persisted : ∀ h day r, rows₀.get (.record h) = some r → 0 < r.dailyQuota →
    (counterAt (proxyRows s) (.key h) day).toNat =
      (counterAt rows₀ (.key h) day).toNat + successes h day s + callCount (unreturned h day s) s
  drawn : ∀ (t : Nat) keyId key,
    s.tasks[t]? = some ⟨.tryConsume keyId, some (.ret ⟨.tryConsume keyId, .ok key⟩)⟩ →
      isMemberLabel key.label = true → ∃ cap, (view (System.trace s.log t)).cap = some cap ∧
        (0 < cap → ∃ day, (view (System.trace s.log t)).day = some day ∧
          (System.trace s.log t).countP (isCharge .memberPool day) = 1)
  raised : ∀ late t day n early,
    s.log = late ++ (t, ⟨.put ⟨.quota .memberPool day, n⟩, .ok ()⟩) :: early →
      n.toNat = (counterAt rows₀ .memberPool day).toNat + charges .memberPool day early + 1 ∧
        ∃ cap, (view (System.trace early t)).cap = some cap ∧ n ≤ cap
  pooled : ∀ day, (counterAt (proxyRows s) .memberPool day).toNat =
    (counterAt rows₀ .memberPool day).toNat + charges .memberPool day s.log
  refused : ∀ (t : Nat) keyId e,
    s.tasks[t]? = some ⟨.tryConsume keyId, some (.ret ⟨.tryConsume keyId, .error e⟩)⟩ →
      ∀ owner day, (System.trace s.log t).countP (isCharge owner day) = 0
  apart : ∀ t keyId r, s.job t = some (.tryConsume keyId) →
    rows₀.get (.record (hashKeyId keyId)) = some r → isMemberLabel r.label = false →
      ∀ e ∈ System.trace s.log t, ∀ day, RowKey.quota .memberPool day ∉ e.1.keys

variable (hrun : ProxyRun hashKeyId rows₀ QuotaStep s)
include hrun

theorem consumed_of_return {t : Nat} {keyId : String} {a : Except ConsumeError ConsumedKey}
    (htask : s.tasks[t]? = some ⟨.tryConsume keyId, some (.ret ⟨.tryConsume keyId, a⟩)⟩) :
    Consumed (hashKeyId keyId) (System.trace s.log t) a := by
  obtain ⟨b, heq, hret⟩ := hrun.meets (consumeContract hashKeyId) (consume_served _) htask
  cases heq
  exact hret

theorem uncharged_of_error {t : Nat} {keyId : String} {e : ConsumeError}
    (htask : s.tasks[t]? = some ⟨.tryConsume keyId, some (.ret ⟨.tryConsume keyId, .error e⟩)⟩)
    (owner : QuotaOwner) (day : String) :
    (System.trace s.log t).countP (isCharge owner day) = 0 := by
  have hsound := sound_of_run hrun (System.job_of_task htask)
  rcases (consumed_of_return hrun htask).of_error e rfl with hfailed | ⟨hkey, hpool⟩
  · obtain ⟨x, hx, hxf⟩ := List.any_eq_true.1 hfailed
    rw [unfailed_of_run hrun _ (System.mem_trace.1 hx)] at hxf
    cases hxf
  · cases owner with
    | key h' =>
      by_cases heq : h' = hashKeyId keyId
      · rw [hsound.charged (.key h') day (Or.inl (by rw [heq])), View.charged, hkey]
        rfl
      · exact hsound.others h' day heq
    | memberPool =>
      rw [hsound.charged .memberPool day (Or.inr rfl), View.charged, hpool]
      rfl

/-- Every call is running or has returned: none is dropped, none killed by a restart. -/
theorem alive_of_run : ∀ (t : Nat) k, s.tasks[t]? = some k → k.prog ≠ none := by
  refine System.Reach.invariant (fun s => ∀ (t : Nat) k, s.tasks[t]? = some k → k.prog ≠ none)
    hrun (fun t k h => by simp [System.init] at h) ?_
  intro s s' act hr hI hok hT t k' ht
  cases hT with
  | start m sh hstart =>
    simp only [System.State.begin, List.getElem?_append] at ht
    split at ht
    · exact hI t k' ht
    · rw [List.mem_singleton.1 (List.mem_of_getElem? ht)]
      simp
  | exec u c m o k a sh htask hhandle =>
    simp only [System.State.advance, Option.toList_none, List.map_nil, List.append_nil,
      List.getElem?_set] at ht
    split at ht
    · split at ht
      · cases ht
        simp
      · cases ht
    · exact hI t k' ht
  | drop u m o k htask => exact hok.elim
  | world w sh hworld =>
    obtain ⟨mask⟩ := w
    simp only [System.State.turned, if_true, List.getElem?_map, Option.map_eq_some_iff] at ht
    obtain ⟨k, hk, rfl⟩ := ht
    have hstopped := hok.1 t
    have halive := hI t k hk
    obtain ⟨j, p⟩ := k
    cases p with
    | none => exact absurd rfl halive
    | some p =>
      cases p with
      | ret r => simp [System.Task.kill]
      | op o f => simp [System.State.running, hk] at hstopped

/-- What a call that succeeded charged to its key. -/
theorem charged_of_success {t : Nat} {keyId : String} {key : ConsumedKey} {r : KeyRecord}
    (htask : s.tasks[t]? = some ⟨.tryConsume keyId, some (.ret ⟨.tryConsume keyId, .ok key⟩)⟩)
    (hrecord : rows₀.get (.record (hashKeyId keyId)) = some r) (hquota : 0 < r.dailyQuota) :
    ∃ day, (view (System.trace s.log t)).day = some day ∧
      (view (System.trace s.log t)).keyDays = [day] := by
  obtain ⟨r', hr', _, hkey, _⟩ := (consumed_of_return hrun htask).of_ok key rfl
  have hseen := (consumerInv_of_run (fun _ _ => consumerStep_of_quotaStep) hrun).seen t keyId r'
    (System.job_of_task htask) hr'
  rw [hrecord] at hseen
  cases hseen
  exact hkey hquota

theorem succeeded_iff {t : Nat} {h day : String} : succeeded h day s t = true ↔
    ∃ keyId key, s.tasks[t]? = some ⟨.tryConsume keyId, some (.ret ⟨.tryConsume keyId, .ok key⟩)⟩ ∧
      hashKeyId keyId = h ∧ (view (System.trace s.log t)).day = some day := by
  constructor
  · intro hs
    unfold succeeded at hs
    split at hs
    · rename_i keyId keyId' key htask
      obtain ⟨b, heq, _⟩ := hrun.meets (consumeContract hashKeyId) (consume_served _) htask
      cases heq
      simp only [Bool.and_eq_true, beq_iff_eq] at hs
      exact ⟨keyId, key, htask, hs⟩
    · cases hs
  · rintro ⟨keyId, key, htask, rfl, hday⟩
    simp [succeeded, htask, hday]

theorem charges_eq_sum (owner : QuotaOwner) (day : String) : charges owner day s.log =
    ∑ t ∈ Finset.range s.tasks.length, (System.trace s.log t).countP (isCharge owner day) :=
  System.countP_eq_sum (fun _ => isCharge owner day) fun _ hx => hrun.log_lt hx

omit hrun in
theorem callCount_eq_sum (p : Nat → Bool) :
    callCount p s = ∑ t ∈ Finset.range s.tasks.length, if p t then 1 else 0 := by
  rw [callCount]
  induction s.tasks.length with
  | zero => rfl
  | succ n ih => rw [List.range_succ, List.countP_append, ih, Finset.sum_range_succ,
      List.countP_singleton]

omit hrun in
theorem countP_of_single {days : List String} (hle : days.length ≤ 1) (day : String) :
    days.count day = if days == [day] then 1 else 0 := by
  match days, hle with
  | [], _ => rfl
  | [d], _ =>
    by_cases hd : d = day
    · simp [hd]
    · simp [hd]

/-- A call has charged its key for a day exactly if it succeeded on the day, or is about to. -/
theorem charged_eq {t : Nat} (ht : t < s.tasks.length) {h day : String} {r : KeyRecord}
    (hrecord : rows₀.get (.record h) = some r) (hquota : 0 < r.dailyQuota) :
    (System.trace s.log t).countP (isCharge (.key h) day) =
      (if succeeded h day s t then 1 else 0) + if unreturned h day s t then 1 else 0 := by
  obtain ⟨⟨m, p⟩, htask⟩ : ∃ k, s.tasks[t]? = some k := ⟨_, List.getElem?_eq_getElem ht⟩
  have hjob := System.job_of_task htask
  have hcinv := consumerInv_of_run (fun _ _ => consumerStep_of_quotaStep) hrun
  match m with
  | .tryConsume keyId =>
    have hsound := sound_of_run hrun hjob
    by_cases hkey : hashKeyId keyId = h
    · subst hkey
      have hsingle := countP_of_single (hsound.once (.key (hashKeyId keyId))) day
      rw [hsound.charged (.key (hashKeyId keyId)) day (Or.inl rfl)]
      match p with
      | none => exact absurd rfl (alive_of_run hrun t _ htask)
      | some (.op o k) =>
        rw [hsingle]
        simp [succeeded, unreturned, htask, View.charged]
      | some (.ret ⟨m', a⟩) =>
        obtain ⟨b, heq, _⟩ := hrun.meets (consumeContract hashKeyId) (consume_served _) htask
        cases heq
        cases b with
        | error e =>
          have hnone := uncharged_of_error hrun htask (.key (hashKeyId keyId)) day
          rw [hsound.charged (.key (hashKeyId keyId)) day (Or.inl rfl)] at hnone
          simp [succeeded, unreturned, htask, hnone]
        | ok key =>
          obtain ⟨day', hday', hdays⟩ := charged_of_success hrun htask hrecord hquota
          rw [View.charged, hdays]
          by_cases heq : day' = day
          · simp [succeeded, unreturned, htask, hday', heq]
          · simp [succeeded, unreturned, htask, hday', heq]
    · rw [hsound.others h day fun heq => hkey heq.symm]
      match p with
      | none => simp [succeeded, unreturned, htask]
      | some (.op o k) => simp [succeeded, unreturned, htask, hkey]
      | some (.ret ⟨m', a⟩) =>
        obtain ⟨b, heq, _⟩ := hrun.meets (consumeContract hashKeyId) (consume_served _) htask
        cases heq
        cases b <;> simp [succeeded, unreturned, htask, hkey]
  | .setMemberPoolDaily cap =>
    have hnone : (System.trace s.log t).countP (isCharge (.key h) day) = 0 := by
      refine (hrun.kept (consumeContract hashKeyId) (consume_served _) hjob).countP_eq_zero
        fun past e hguar => ?_
      obtain ⟨o, a⟩ := e
      cases hguar.2
      rfl
    rw [hnone]
    simp [succeeded, unreturned, htask]
  | .createKey _ _ _ | .revoke _ | .revokeHash _ | .rotateMemberKey _ _ _ =>
    cases hcinv.jobs t _ hjob

theorem charges_eq {h day : String} {r : KeyRecord}
    (hrecord : rows₀.get (.record h) = some r) (hquota : 0 < r.dailyQuota) :
    charges (.key h) day s.log = successes h day s + callCount (unreturned h day s) s := by
  rw [charges_eq_sum hrun, successes, callCount_eq_sum, callCount_eq_sum, ← Finset.sum_add_distrib]
  exact Finset.sum_congr rfl fun t ht => charged_eq hrun (Finset.mem_range.1 ht) hrecord hquota

/-- The moment of a charge. -/
theorem charge_of_log {late early : List (Nat × Event)} {t : Nat} {owner : QuotaOwner}
    {day : String} {n : UInt64}
    (hlog : s.log = late ++ (t, ⟨.put ⟨.quota owner day, n⟩, .ok ()⟩) :: early) :
    n.toNat = (counterAt rows₀ owner day).toNat + charges owner day early + 1 ∧
      ∃ limit, (view (System.trace early t)).limit owner = some limit ∧ n ≤ limit := by
  obtain ⟨s₁, c, m, k, sh, hr, rfl, _, htask, hhandle, _⟩ := hrun.event hlog
  have hcinv := consumerInv_of_run (fun _ _ => consumerStep_of_quotaStep) hr
  have hduty := (proxyDuty_of_task hr htask (.ok ())).2
  have hcons := hcinv.jobs t m (System.job_of_task htask)
  cases m with
  | tryConsume keyId =>
    obtain ⟨_, limit, hlimit, hlt, rfl⟩ := charge_of_duty (quotaInv_of_run hr) htask hduty rfl rfl
    obtain ⟨hsucc, hle⟩ := toNat_succ_of_lt hlt
    refine ⟨by rw [hsucc, (quotaInv_of_run hr).counted], limit, hlimit, ?_⟩
    rw [UInt64.le_iff_toNat_le]
    omega
  | setMemberPoolDaily cap => cases hduty
  | _ => cases hcons

/-- Only a consumption with a member's record comes to the pool. -/
theorem member_of_pool {t : Nat} {keyId : String} {e : Event} {day : String}
    (hjob : s.job t = some (.tryConsume keyId)) (he : e ∈ System.trace s.log t)
    (hpool : RowKey.quota .memberPool day ∈ e.1.keys) :
    ∃ r, rows₀.get (.record (hashKeyId keyId)) = some r ∧ isMemberLabel r.label = true := by
  obtain ⟨late, early, hlog⟩ := List.append_of_mem (System.mem_trace.1 he)
  obtain ⟨o, a⟩ := e
  obtain ⟨s₁, c, m, k, sh, hr, rfl, _, htask, _, hrest⟩ := hrun.event hlog
  have hm : m = .tryConsume keyId := by
    have := hrest.job_mono (System.job_advance htask)
    rw [hjob] at this
    exact (Option.some.inj this).symm
  subst hm
  have hsound := sound_of_run hr (System.job_of_task htask)
  have hcinv := consumerInv_of_run (fun _ _ => consumerStep_of_quotaStep) hr
  have hduty := (proxyDuty_of_task hr htask a).2
  have hlimited : ∃ limit, (view (System.trace s₁.log t)).limit .memberPool = some limit := by
    cases o with
    | get key =>
      cases List.mem_singleton.1 hpool
      obtain ⟨limit, hlimit, _⟩ := hduty.1.limited
      exact ⟨limit, hlimit⟩
    | put row =>
      obtain ⟨key, v⟩ := row
      cases List.mem_singleton.1 hpool
      obtain ⟨limit, hlimit, _⟩ := hduty.1.limited
      exact ⟨limit, hlimit⟩
    | contains | putSynced | writeBatch => exact hduty.elim
    | _ => cases hpool
  obtain ⟨limit, hlimit⟩ := hlimited
  have hcap : (view (System.trace s₁.log t)).cap = some limit := hlimit
  obtain ⟨r, hr', hmember⟩ := hsound.member (by simp [hcap])
  exact ⟨r, hcinv.seen t keyId r (System.job_of_task htask) hr', hmember⟩

/-- In every run of consumptions, changes of the pool's cap and clean restarts, the daily quotas
and the pool are exact. -/
theorem quotasExact_of_run : QuotasExact rows₀ s where
  within h day r hrecord hquota := by
    have hI := quotaInv_of_run hrun
    have hcounted := hI.counted (.key h) day
    have hbounded := hI.bounded h day r hrecord
    rw [charges_eq hrun hrecord hquota] at hcounted
    omega
  persisted h day r hrecord hquota := by
    rw [(quotaInv_of_run hrun).counted, charges_eq hrun hrecord hquota]
    omega
  drawn t keyId key htask hmember := by
    obtain ⟨r, _, rfl, _, hpool⟩ := (consumed_of_return hrun htask).of_ok key rfl
    obtain ⟨cap, hcap, hdraw⟩ := hpool hmember
    refine ⟨cap, hcap, fun hpos => ?_⟩
    obtain ⟨day, hday, hdays⟩ := hdraw hpos
    refine ⟨day, hday, ?_⟩
    rw [(sound_of_run hrun (System.job_of_task htask)).charged .memberPool day (Or.inr rfl),
      View.charged, hdays, List.count_singleton_self]
  raised late t day n early hlog := charge_of_log hrun hlog
  pooled day := (quotaInv_of_run hrun).counted .memberPool day
  refused t keyId e htask owner day := uncharged_of_error hrun htask owner day
  apart t keyId r hjob hrecord hlabel e he day hpool := by
    obtain ⟨r', hr', hmember⟩ := member_of_pool hrun hjob he hpool
    rw [hrecord] at hr'
    cases hr'
    rw [hlabel] at hmember
    cases hmember

end Runs

section Samples

def quotaRecord : KeyRecord := ⟨"member:a", 0, false, 0, 2⟩

def quotaRows : Rows := ⟨[⟨.record "key", quotaRecord⟩], []⟩

def quotaStep (s : (proxyCalls id).State) : (proxyCalls id).Action → Bool
  | .start m => m.isConsumer
  | .exec _ (.fail _) | .drop _ => false
  | .exec _ _ => true
  | .world (.restart mask) =>
    ((List.range s.tasks.length).all fun t => !s.running t) &&
      decide (keep mask (proxyRows s).pending = (proxyRows s).pending)

theorem quotaStep_of_check {s : (proxyCalls id).State} {act : (proxyCalls id).Action}
    (h : quotaStep s act = true) : QuotaStep s act := by
  cases act with
  | start m => exact h
  | drop t => cases h
  | exec t c =>
    rintro e rfl
    cases h
  | world w =>
    obtain ⟨mask⟩ := w
    simp only [quotaStep, Bool.and_eq_true, List.all_eq_true, List.mem_range,
      Bool.not_eq_true', decide_eq_true_eq] at h
    refine ⟨fun t => ?_, h.2⟩
    by_cases ht : t < s.tasks.length
    · exact h.1 t ht
    · simp [System.State.running, Nat.le_of_not_lt ht]

/-- The first call fills the pool of the day, the second is refused; the counters survive the
restart. -/
theorem quotasExact_of_run_sample : ∃ s, ProxyRun id quotaRows QuotaStep s ∧
    successes "key" "day" s = 1 ∧ (counterAt (proxyRows s) (.key "key") "day").toNat = 1 ∧
      (counterAt (proxyRows s) .memberPool "day").toNat = 1 ∧ QuotasExact quotaRows s := by
  obtain ⟨s, hs, hsucc, hkey, hpool⟩ : ∃ s, (proxyCalls id).run quotaStep
      ((proxyCalls id).init (Shared.opened quotaRows))
      (System.script (S := proxyCalls id)
        [.setMemberPoolDaily 1, .tryConsume "key", .tryConsume "key"]
        ([(0, .ok), (1, .ok), (1, .ok), (2, .ok), (2, .ok), (1, .ok), (1, .day "day")] ++
          List.replicate 7 (1, .ok) ++ [(2, .ok), (2, .day "day")] ++
          List.replicate 3 (2, .ok) ++ [(2, .secs 60), (2, .ok), (2, .ok)]) ++
        [.world (.restart [true, true])]) = some s ∧
      successes "key" "day" s = 1 ∧ (counterAt (proxyRows s) (.key "key") "day").toNat = 1 ∧
        (counterAt (proxyRows s) .memberPool "day").toNat = 1 := ⟨_, rfl, rfl, rfl, rfl⟩
  have hrun : ProxyRun id quotaRows QuotaStep s :=
    System.Reach.of_run (fun _ _ => quotaStep_of_check) hs
  exact ⟨s, hrun, hsucc, hkey, hpool, quotasExact_of_run hrun⟩

end Samples
end Gateway.KeyStore
