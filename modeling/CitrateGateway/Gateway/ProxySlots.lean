import CitrateGateway.Gateway.ProxyCalls

/-!
# Slots of the proxy

The slots of a key, and the upstream slots, are held by the requests in flight and by nobody else,
in every state that is reached: through refusals, timeouts, failed upstreams, dropped requests and
restarts no slot is lost and none is given twice.
-/

namespace Gateway.LocalProxy
set_option autoImplicit false
open Words Effects
open KeyStore (ProxyMethod)

section Moves
variable {config : Config} {v : View}

/-- The operations that move slots. -/
def Op.movesSlots : Op → Bool
  | .tryAcquireOwned _ | .requestUpstream | .awaitUpstream => true
  | _ => false

/-- What an event means for the slots of the request that performs it. -/
inductive Move (v : View) : Event → Prop where
  | acquire (key : ConsumedKey) (b : Bool) (hkey : v.key = some key) (hfree : v.slot = none) :
      Move v ⟨.tryAcquireOwned key.hash, b⟩
  | request (hnew : v.asked = false) (hpermit : v.permit = none) : Move v ⟨.requestUpstream, ()⟩
  | wait (b : Bool) (hasked : v.asked = true) (hpermit : v.permit = none) :
      Move v ⟨.awaitUpstream, b⟩
  | still (e : Event) (hmoves : e.1.movesSlots = false)
      (hslot : ∀ h, (v.next e).inSlot h = v.inSlot h) (hasked : (v.next e).asked = v.asked)
      (hpermit : (v.next e).permit = v.permit) : Move v e

theorem move_of_duty {j : Job} {past : List Event} {e : Event} (h : j.Duty config past e) :
    Move (view past) e := by
  cases j with
  | proxy req =>
    simp only [Job.Duty] at h
    generalize view past = v at h ⊢
    cases h with
    | acquire n key b => exact .acquire key b rfl rfl
    | request n key bytes body hbody => exact .request rfl rfl
    | wait n key bytes body b hbody => exact .wait b rfl rfl
    | _ => exact .still _ rfl (fun _ => rfl) rfl rfl
  | memberKey headers => cases h <;> exact .still _ rfl (fun _ => rfl) rfl rfl

end Moves

section Operations
variable {config : Config} {sh sh' : Shared config} {t : Nat} {c : Input}

theorem handle_tryAcquireOwned {x : String} {b : Bool}
    (h : handle sh t (.tryAcquireOwned x) c = some (b, sh')) :
    ∃ slots, sh.perKeySlots x = some slots ∧
      ((∃ slots', slots.tryAcquire t = some slots' ∧ b = true ∧
          sh' = { sh with perKeySlots := Function.update sh.perKeySlots x (some slots') }) ∨
        (slots.tryAcquire t = none ∧ b = false ∧ sh' = sh)) := by
  cases handle_cases h with
  | acquire _ slots slots' hslots hsome => exact ⟨slots, hslots, Or.inl ⟨slots', hsome, rfl, rfl⟩⟩
  | full _ slots hslots hnone => exact ⟨slots, hslots, Or.inr ⟨hnone, rfl, rfl⟩⟩

theorem handle_requestUpstream {u : Unit} (h : handle sh t .requestUpstream c = some (u, sh')) :
    sh' = { sh with upstreamSlots := sh.upstreamSlots.request t } := by
  cases handle_cases h with
  | request => rfl

theorem handle_awaitUpstream {b : Bool} (h : handle sh t .awaitUpstream c = some (b, sh')) :
    (t ∈ sh.upstreamSlots.holders ∧ b = true ∧ sh' = sh) ∨
      (t ∉ sh.upstreamSlots.holders ∧ b = false ∧
        sh' = { sh with upstreamSlots := sh.upstreamSlots.leave t }) := by
  cases handle_cases h with
  | permit hheld => exact Or.inl ⟨hheld, rfl, rfl⟩
  | timeout hnot => exact Or.inr ⟨hnot, rfl, rfl⟩

/-- Every other operation moves no slot, but it may open the slots of a key. -/
theorem handle_still {o : Op} {a : o.Ans} (hmoves : o.movesSlots = false)
    (h : handle sh t o c = some (a, sh')) : sh'.upstreamSlots = sh.upstreamSlots ∧
      (sh'.perKeySlots = sh.perKeySlots ∨ ∃ x limit, o = .keySlots x limit ∧
        sh.perKeySlots x = none ∧
        sh'.perKeySlots = Function.update sh.perKeySlots x (some (.new limit))) := by
  cases handle_cases h with
  | openSlots x limit hnone => exact ⟨rfl, Or.inr ⟨x, limit, rfl, hnone, rfl⟩⟩
  | acquire | full | request | permit | timeout => cases hmoves
  | _ => exact ⟨rfl, Or.inl rfl⟩

end Operations

section Occupied
variable {config : Config}

/-- The slots are held by these requests, and by nobody else. -/
structure Occupied (sh : Shared config) (holds : String → Nat → Prop) (asks sends : Nat → Prop) :
    Prop where
  keys : ∀ h slots, sh.perKeySlots h = some slots → slots.queue = [] ∧ slots.Tracks (holds h)
  opened : ∀ h t, holds h t → (sh.perKeySlots h).isSome = true
  upstream : sh.upstreamSlots.Tracks asks
  permits : ∀ t, sends t → t ∈ sh.upstreamSlots.holders

variable {sh sh' : Shared config} {holds holds' : String → Nat → Prop}
variable {asks sends asks' sends' : Nat → Prop}

theorem Occupied.congr (h : Occupied sh holds asks sends) (hholds : ∀ x t, holds x t ↔ holds' x t)
    (hasks : ∀ t, asks t ↔ asks' t) (hsends : ∀ t, sends' t → sends t) :
    Occupied sh holds' asks' sends' where
  keys x slots hslots := ⟨(h.keys x slots hslots).1, (h.keys x slots hslots).2.congr (hholds x)⟩
  opened x t ht := h.opened x t ((hholds x t).2 ht)
  upstream := h.upstream.congr hasks
  permits t ht := h.permits t (hsends t ht)

theorem Occupied.booted (keys : (KeyStore.proxyCalls config.hashKeyId).State) :
    Occupied (.booted config keys) (fun _ _ => False) (fun _ => False) (fun _ => False) where
  keys x slots hslots := by cases hslots
  opened x t ht := ht.elim
  upstream := Semaphore.tracks_new _
  permits t ht := ht.elim

theorem Occupied.leave (h : Occupied sh holds asks sends) (t : Nat) :
    Occupied (sh.leave t) (fun x u => u ≠ t ∧ holds x u) (fun u => u ≠ t ∧ asks u)
      (fun u => u ≠ t ∧ sends u) where
  keys x slots hslots := by
    obtain ⟨old, hold, rfl⟩ := Option.map_eq_some_iff.1 hslots
    obtain ⟨hqueue, htracks⟩ := h.keys x old hold
    exact ⟨Semaphore.queue_leave_of_nil hqueue t, htracks.leave t⟩
  opened x u hu := by
    rw [Shared.leave, Option.isSome_map]
    exact h.opened x u hu.2
  upstream := h.upstream.leave t
  permits u hu := Semaphore.holders_leave_of_ne hu.1 (h.permits u hu.2)

theorem Occupied.acquire (h : Occupied sh holds asks sends) {x : String} {t : Nat}
    {slots slots' : Semaphore Nat} (hslots : sh.perKeySlots x = some slots)
    (hsome : slots.tryAcquire t = some slots') (hnot : ¬ holds x t) :
    Occupied { sh with perKeySlots := Function.update sh.perKeySlots x (some slots') }
      (fun y u => y = x ∧ u = t ∨ holds y u) asks sends where
  keys y found hfound := by
    by_cases hy : y = x
    · subst hy
      simp only [Function.update_self, Option.some.injEq] at hfound
      subst hfound
      refine ⟨Semaphore.queue_tryAcquire hsome, ?_⟩
      refine ((h.keys y slots hslots).2.tryAcquire hnot hsome).congr fun u => ?_
      rw [eq_self, true_and]
    · simp only [Function.update_of_ne hy] at hfound
      refine ⟨(h.keys y found hfound).1, (h.keys y found hfound).2.congr fun u => ?_⟩
      simp [hy]
  opened y u hu := by
    by_cases hy : y = x
    · simp [hy]
    · simp only [Function.update_of_ne hy]
      exact h.opened y u (hu.resolve_left fun hl => hy hl.1)
  upstream := h.upstream
  permits := h.permits

theorem Occupied.openSlots (h : Occupied sh holds asks sends) {x : String}
    (hnone : sh.perKeySlots x = none) (limit : Nat) :
    Occupied { sh with perKeySlots := Function.update sh.perKeySlots x (some (.new limit)) }
      holds asks sends where
  keys y found hfound := by
    by_cases hy : y = x
    · subst hy
      simp only [Function.update_self, Option.some.injEq] at hfound
      subst hfound
      refine ⟨rfl, (Semaphore.tracks_new limit).congr fun u => ⟨False.elim, fun hu => ?_⟩⟩
      have hsome := h.opened y u hu
      rw [hnone] at hsome
      cases hsome
    · simp only [Function.update_of_ne hy] at hfound
      exact h.keys y found hfound
  opened y u hu := by
    by_cases hy : y = x
    · simp [hy]
    · simp only [Function.update_of_ne hy]
      exact h.opened y u hu
  upstream := h.upstream
  permits := h.permits

theorem Occupied.request (h : Occupied sh holds asks sends) {t : Nat} (hnot : ¬ asks t) :
    Occupied { sh with upstreamSlots := sh.upstreamSlots.request t } holds
      (fun u => u = t ∨ asks u) sends where
  keys := h.keys
  opened := h.opened
  upstream := h.upstream.request hnot
  permits u hu := Semaphore.mem_holders_request (h.permits u hu)

theorem Occupied.grant (h : Occupied sh holds asks sends) {t : Nat}
    (hheld : t ∈ sh.upstreamSlots.holders) : Occupied sh holds asks fun u => u = t ∨ sends u where
  keys := h.keys
  opened := h.opened
  upstream := h.upstream
  permits u hu := by
    rcases hu with rfl | hu
    · exact hheld
    · exact h.permits u hu

theorem Occupied.timeout (h : Occupied sh holds asks sends) (t : Nat) :
    Occupied { sh with upstreamSlots := sh.upstreamSlots.leave t } holds
      (fun u => u ≠ t ∧ asks u) (fun u => u ≠ t ∧ sends u) where
  keys := h.keys
  opened := h.opened
  upstream := h.upstream.leave t
  permits u hu := Semaphore.holders_leave_of_ne hu.1 (h.permits u hu.2)

/-- One operation: its request is where its view says, and everybody else is where they were. -/
theorem Occupied.handle (h : Occupied sh holds asks sends) {t : Nat} {o : Op} {c : Input}
    {a : o.Ans} {v : View} (hmove : Move v ⟨o, a⟩)
    (hhandle : LocalProxy.handle sh t o c = some (a, sh'))
    (hholds : ∀ x, holds x t ↔ v.inSlot x = true) (hasks : asks t ↔ v.inUpstream = true)
    (hsends : v.sending = true → sends t) :
    Occupied sh' (fun x u => if u = t then (v.next ⟨o, a⟩).inSlot x = true else holds x u)
      (fun u => if u = t then (v.next ⟨o, a⟩).inUpstream = true else asks u)
      (fun u => if u = t then (v.next ⟨o, a⟩).sending = true else sends u) := by
  cases hmove with
  | acquire key b hkey hfree =>
    have hslot : ∀ x, (v.next ⟨.tryAcquireOwned key.hash, b⟩).inSlot x = (b && key.hash == x) := by
      intro x
      have hkey' : (v.next ⟨.tryAcquireOwned key.hash, b⟩).key = some key := hkey
      simp only [View.inSlot, hkey', Option.any_some]
      cases b <;> rfl
    have hnot : ∀ x, ¬ holds x t := by
      intro x hx
      have hslot' := (hholds x).1 hx
      simp [View.inSlot, hfree] at hslot'
    have hup : (v.next ⟨.tryAcquireOwned key.hash, b⟩).inUpstream = v.inUpstream := rfl
    have hsend : (v.next ⟨.tryAcquireOwned key.hash, b⟩).sending = v.sending := rfl
    obtain ⟨slots, hslots, ⟨slots', hsome, rfl, rfl⟩ | ⟨hnone, rfl, rfl⟩⟩ :=
      handle_tryAcquireOwned hhandle
    · refine (h.acquire hslots hsome (hnot _)).congr ?_ ?_ ?_
      · intro x u
        by_cases hu : u = t
        · rw [if_pos hu, hslot, Bool.true_and, beq_iff_eq, hu]
          constructor
          · rintro (⟨heq, -⟩ | hx)
            · exact heq.symm
            · exact absurd hx (hnot x)
          · exact fun heq => Or.inl ⟨heq.symm, rfl⟩
        · simp [hu]
      · intro u
        by_cases hu : u = t <;> simp [hu, hup, hasks]
      · intro u hu
        by_cases hut : u = t
        · rw [hut]
          exact hsends (by simpa [hut, hsend] using hu)
        · simpa [hut] using hu
    · refine h.congr ?_ ?_ ?_
      · intro x u
        by_cases hu : u = t <;> simp [hu, hslot, hnot]
      · intro u
        by_cases hu : u = t <;> simp [hu, hup, hasks]
      · intro u hu
        by_cases hut : u = t
        · rw [hut]
          exact hsends (by simpa [hut, hsend] using hu)
        · simpa [hut] using hu
  | request hnew hpermit =>
    have hslot : ∀ x, (v.next ⟨.requestUpstream, ()⟩).inSlot x = v.inSlot x := fun _ => rfl
    have hnot : ¬ asks t := by
      rw [hasks]
      simp [View.inUpstream, hnew]
    have hup : (v.next ⟨.requestUpstream, ()⟩).inUpstream = true := by
      have hpermit' : (v.next ⟨.requestUpstream, ()⟩).permit = none := hpermit
      simp only [View.inUpstream, hpermit']
      rfl
    have hsend : (v.next ⟨.requestUpstream, ()⟩).sending = v.sending := rfl
    rw [handle_requestUpstream hhandle]
    refine (h.request hnot).congr ?_ ?_ ?_
    · intro x u
      by_cases hu : u = t <;> simp [hu, hslot, hholds]
    · intro u
      by_cases hu : u = t <;> simp [hu, hup]
    · intro u hu
      by_cases hut : u = t
      · rw [hut]
        exact hsends (by simpa [hut, hsend] using hu)
      · simpa [hut] using hu
  | wait b hasked hpermit =>
    have hslot : ∀ x, (v.next ⟨.awaitUpstream, b⟩).inSlot x = v.inSlot x := fun _ => rfl
    have hup : v.inUpstream = true := by
      simp only [View.inUpstream, hasked, hpermit]
      rfl
    have hup' : (v.next ⟨.awaitUpstream, b⟩).inUpstream = b := by
      have hasked' : (v.next ⟨.awaitUpstream, b⟩).asked = true := hasked
      have hpermit' : (v.next ⟨.awaitUpstream, b⟩).permit = some b := rfl
      simp only [View.inUpstream, hasked', hpermit']
      cases b <;> rfl
    have hsend : (v.next ⟨.awaitUpstream, b⟩).sending = b := by cases b <;> rfl
    rcases handle_awaitUpstream hhandle with ⟨hheld, rfl, rfl⟩ | ⟨hheld, rfl, rfl⟩
    · refine (h.grant hheld).congr ?_ ?_ ?_
      · intro x u
        by_cases hu : u = t <;> simp [hu, hslot, hholds]
      · intro u
        by_cases hu : u = t <;> simp [hu, hup', hasks, hup]
      · intro u hu
        by_cases hut : u = t
        · exact Or.inl hut
        · exact Or.inr (by simpa [hut] using hu)
    · refine (h.timeout t).congr ?_ ?_ ?_
      · intro x u
        by_cases hu : u = t <;> simp [hu, hslot, hholds]
      · intro u
        by_cases hu : u = t <;> simp [hu, hup']
      · intro u hu
        by_cases hut : u = t
        · simp [hut, hsend] at hu
        · exact ⟨hut, by simpa [hut] using hu⟩
  | still e hmoves hslot hasked hpermit =>
    have hup : (v.next ⟨o, a⟩).inUpstream = v.inUpstream := by
      simp only [View.inUpstream, hasked, hpermit]
    have hsend : (v.next ⟨o, a⟩).sending = v.sending := by simp only [View.sending, hpermit]
    have hmoved : Occupied sh' holds asks sends := by
      obtain ⟨hupstream, hsame | ⟨x, limit, -, hnone, hopen⟩⟩ := handle_still hmoves hhandle
      · exact ⟨by rw [hsame]; exact h.keys, by rw [hsame]; exact h.opened,
          by rw [hupstream]; exact h.upstream, by rw [hupstream]; exact h.permits⟩
      · have hnew := h.openSlots hnone limit
        exact ⟨by rw [hopen]; exact hnew.keys, by rw [hopen]; exact hnew.opened,
          by rw [hupstream]; exact hnew.upstream, by rw [hupstream]; exact hnew.permits⟩
    refine hmoved.congr ?_ ?_ ?_
    · intro x u
      by_cases hu : u = t <;> simp [hu, hslot, hholds]
    · intro u
      by_cases hu : u = t <;> simp [hu, hup, hasks]
    · intro u hu
      by_cases hut : u = t
      · rw [hut]
        exact hsends (by simpa [hut, hsend] using hu)
      · simpa [hut] using hu

end Occupied

section InFlight
variable {config : Config} {rows₀ : Rows} {s : (server config).State}
variable {ok : (server config).State → (server config).Action → Prop}

/-- The request has not ended, and what it has done so far satisfies `P`. -/
def InFlight (s : (server config).State) (P : View → Bool) (t : Nat) : Prop :=
  s.running t = true ∧ P (viewOf s t) = true

instance (s : (server config).State) (P : View → Bool) (t : Nat) : Decidable (InFlight s P t) :=
  inferInstanceAs (Decidable (_ ∧ _))

variable {P : View → Bool} {t u : Nat} {j : Job} {o : Op} {k : o.Ans → M Response} {a : o.Ans}
variable {sh : Shared config}

theorem InFlight.trace_ne (hP : P {} = false) (h : P (viewOf s u) = true) :
    System.trace s.log u ≠ [] := by
  intro hnil
  rw [viewOf, hnil, view, hP] at h
  cases h

theorem inFlight_begin (hr : ServerRun config rows₀ ok s) (hP : P {} = false) :
    InFlight (s.begin j sh) P u ↔ InFlight s P u := by
  constructor
  · intro ⟨hrunning, hview⟩
    exact ⟨hr.running_begin hrunning (InFlight.trace_ne hP hview), hview⟩
  · intro ⟨hrunning, hview⟩
    exact ⟨System.running_begin_of hrunning _ _, hview⟩

theorem viewOf_advance_self :
    viewOf (s.advance t j o k a sh) t = (viewOf s t).next ⟨o, a⟩ := by
  rw [viewOf, System.trace_advance_self]
  rfl

theorem viewOf_advance_ne (hne : u ≠ t) : viewOf (s.advance t j o k a sh) u = viewOf s u := by
  rw [viewOf, System.trace_advance_ne s hne, viewOf]

theorem inFlight_advance_ne (hr : ServerRun config rows₀ ok s) (hP : P {} = false) (hne : u ≠ t) :
    InFlight (s.advance t j o k a sh) P u ↔ InFlight s P u := by
  rw [InFlight, InFlight, viewOf_advance_ne hne]
  constructor
  · intro ⟨hrunning, hview⟩
    exact ⟨hr.running_advance hne hrunning (InFlight.trace_ne hP hview), hview⟩
  · intro ⟨hrunning, hview⟩
    exact ⟨System.running_advance_of hrunning hne a sh, hview⟩

theorem inFlight_advance_self (ht : t < s.tasks.length) :
    InFlight (s.advance t j o k a sh) P t ↔
      (k a).result? = none ∧ P ((viewOf s t).next ⟨o, a⟩) = true := by
  rw [InFlight, System.running_advance_self ht, viewOf_advance_self, Option.isNone_iff_eq_none]

theorem inFlight_dropped : InFlight (s.dropped t j) P u ↔ u ≠ t ∧ InFlight s P u := by
  constructor
  · intro ⟨hrunning, hview⟩
    obtain ⟨hne, hold⟩ := System.running_of_dropped hrunning
    exact ⟨hne, hold, hview⟩
  · intro ⟨hne, hrunning, hview⟩
    exact ⟨System.running_dropped_of hrunning hne, hview⟩

theorem inFlight_halted {w : World} (hw : (server config).halts w = true) :
    ¬ InFlight (s.turned w sh) P u := by
  intro ⟨hrunning, _⟩
  rw [System.running_of_halted hw] at hrunning
  cases hrunning

theorem inFlight_turned {w : World} (hw : (server config).halts w = false) :
    InFlight (s.turned w sh) P u ↔ InFlight s P u := by
  rw [InFlight, InFlight, System.State.running, System.State.running, System.tasks_turned hw]
  rfl

end InFlight

section Runs
variable {config : Config} {rows₀ : Rows} {s : (server config).State}
variable {ok : (server config).State → (server config).Action → Prop}

/-- The slots of a state are held by its requests in flight. -/
abbrev SlotsHeld (s : (server config).State) : Prop :=
  Occupied s.shared (fun x => InFlight s (·.inSlot x)) (InFlight s View.inUpstream)
    (InFlight s View.sending)

theorem SlotsHeld.advance {t : Nat} {j : Job} {o : Op} {k : o.Ans → M Response} {a : o.Ans}
    {c : Input} {sh : Shared config} (hI : SlotsHeld s) (hr : ServerRun config rows₀ ok s)
    (htask : s.tasks[t]? = some ⟨j, some (.op o k)⟩)
    (hhandle : handle s.shared t o c = some (a, sh)) : SlotsHeld (s.advance t j o k a sh) := by
  have ht := (List.getElem?_eq_some_iff.1 htask).1
  have hrunning := System.running_of_task htask
  have hself : ∀ P : View → Bool, InFlight s P t ↔ P (viewOf s t) = true := fun P =>
    ⟨fun h => h.2, fun h => ⟨hrunning, h⟩⟩
  have hmoved := hI.handle (move_of_duty (duty_of_task hr htask a)) hhandle
    (fun x => hself _) (hself _) (hself _).2
  have hsettle : (s.advance t j o k a sh).shared =
      (server config).settle t (k a) sh := rfl
  cases hk : k a with
  | ret r =>
    have hshared : (s.advance t j o k a sh).shared = sh.leave t := by rw [hsettle, hk]; rfl
    have hgone : ∀ {P : View → Bool}, P {} = false → ∀ u,
        (u ≠ t ∧ if u = t then P ((viewOf s t).next ⟨o, a⟩) = true else InFlight s P u) ↔
          InFlight (s.advance t j o k a sh) P u := by
      intro P hP u
      by_cases hu : u = t
      · subst hu
        simp [inFlight_advance_self ht, hk]
      · simp [hu, inFlight_advance_ne hr hP hu]
    rw [SlotsHeld, hshared]
    exact (hmoved.leave t).congr (fun x => hgone rfl) (hgone rfl) fun u => (hgone rfl u).2
  | op o' k' =>
    have hshared : (s.advance t j o k a sh).shared = sh := by rw [hsettle, hk]; rfl
    have hstill : ∀ {P : View → Bool}, P {} = false → ∀ u,
        (if u = t then P ((viewOf s t).next ⟨o, a⟩) = true else InFlight s P u) ↔
          InFlight (s.advance t j o k a sh) P u := by
      intro P hP u
      by_cases hu : u = t
      · subst hu
        simp [inFlight_advance_self ht, hk]
      · simp [hu, inFlight_advance_ne hr hP hu]
    rw [SlotsHeld, hshared]
    exact hmoved.congr (fun x => hstill rfl) (hstill rfl) fun u => (hstill rfl u).2

/-- What the world changes: the key store, or everything. -/
theorem turn_cases {sh sh' : Shared config} {w : World} (h : turn sh w = some sh') :
    ((server config).halts w = false ∧ ∃ keys, sh' = { sh with keys := keys }) ∨
      ((server config).halts w = true ∧ ∃ keys, sh' = .booted config keys) := by
  cases w with
  | keys n c =>
    obtain ⟨keys, -, heq⟩ := Option.map_eq_some_iff.1 h
    exact Or.inl ⟨rfl, keys, heq.symm⟩
  | operator m =>
    simp only [turn] at h
    split at h
    · cases h
      exact Or.inl ⟨rfl, _, rfl⟩
    · cases h
  | restart mask =>
    unfold turn at h
    obtain ⟨keys, -, heq⟩ := Option.map_eq_some_iff.1 h
    exact Or.inr ⟨rfl, keys, heq.symm⟩

theorem slotsHeld_of_run (hrun : ServerRun config rows₀ ok s) : SlotsHeld s := by
  refine System.Reach.invariant SlotsHeld hrun ?_ ?_
  · have hnone : ∀ {P : View → Bool} {u : Nat},
        ¬ InFlight ((server config).init (.opened config rows₀)) P u := by
      intro P u ⟨hrunning, _⟩
      simp [System.State.running, System.init] at hrunning
    exact (Occupied.booted _).congr (fun x u => ⟨False.elim, hnone⟩)
      (fun u => ⟨False.elim, hnone⟩) fun u => hnone
  intro s s' act hr hI hok hT
  cases hT with
  | start j sh hstart =>
    cases hstart
    exact hI.congr (fun x u => (inFlight_begin hr rfl).symm) (fun u => (inFlight_begin hr rfl).symm)
      fun u => (inFlight_begin hr rfl).1
  | exec t c j o k a sh htask hhandle => exact hI.advance hr htask hhandle
  | drop t j o k htask =>
    exact (hI.leave t).congr (fun x u => inFlight_dropped.symm) (fun u => inFlight_dropped.symm)
      fun u => inFlight_dropped.1
  | world w sh hworld =>
    rcases turn_cases hworld with ⟨hw, keys, rfl⟩ | ⟨hw, keys, rfl⟩
    · have hI' : Occupied { s.shared with keys := keys } _ _ _ :=
        ⟨hI.keys, hI.opened, hI.upstream, hI.permits⟩
      exact hI'.congr (fun x u => (inFlight_turned hw).symm) (fun u => (inFlight_turned hw).symm)
        fun u => (inFlight_turned hw).1
    · exact (Occupied.booted _).congr (fun x u => ⟨False.elim, inFlight_halted hw⟩)
        (fun u => ⟨False.elim, inFlight_halted hw⟩) fun u => inFlight_halted hw

end Runs

section Sizes
variable {config : Config} {sh sh' : Shared config} {told told' : ConsumedKey → Prop}

/-- A key has the slots that its label allows, and the upstreams have theirs. -/
structure Sized (told : ConsumedKey → Prop) (sh : Shared config) : Prop where
  keys : ∀ h slots, sh.perKeySlots h = some slots → ∃ key, told key ∧ key.hash = h ∧
    slots.capacity = config.state.concurrencyLimitFor key.label
  upstream : sh.upstreamSlots.capacity = config.state.maxConcurrentUpstream

theorem Sized.mono (h : Sized told sh) (himp : ∀ key, told key → told' key) :
    Sized told' sh where
  keys x slots hslots := by
    obtain ⟨key, htold, hrest⟩ := h.keys x slots hslots
    exact ⟨key, himp key htold, hrest⟩
  upstream := h.upstream

theorem sized_booted (keys : (KeyStore.proxyCalls config.hashKeyId).State) :
    Sized told (.booted config keys) :=
  ⟨fun _ _ h => (by cases h), rfl⟩

theorem Sized.leave (h : Sized told sh) (t : Nat) : Sized told (sh.leave t) where
  keys x slots hslots := by
    obtain ⟨old, hold, rfl⟩ := Option.map_eq_some_iff.1 hslots
    rw [Semaphore.capacity_leave]
    exact h.keys x old hold
  upstream := by
    rw [Shared.leave, Semaphore.capacity_leave]
    exact h.upstream

theorem Sized.update (h : Sized told sh) {x : String} {slots : Semaphore Nat}
    (hsize : ∃ key, told key ∧ key.hash = x ∧
      slots.capacity = config.state.concurrencyLimitFor key.label) :
    Sized told { sh with perKeySlots := Function.update sh.perKeySlots x (some slots) } where
  keys y found hfound := by
    by_cases hy : y = x
    · subst hy
      simp only [Function.update_self, Option.some.injEq] at hfound
      subst hfound
      exact hsize
    · simp only [Function.update_of_ne hy] at hfound
      exact h.keys y found hfound
  upstream := h.upstream

theorem Sized.handle (h : Sized told sh) {t : Nat} {o : Op} {c : Input} {a : o.Ans}
    (hhandle : LocalProxy.handle sh t o c = some (a, sh'))
    (hopens : ∀ x limit, o = .keySlots x limit → ∃ key, told key ∧ key.hash = x ∧
      limit = config.state.concurrencyLimitFor key.label) : Sized told sh' := by
  cases handle_cases hhandle with
  | openSlots x limit hnone => exact h.update (hopens x limit rfl)
  | acquire x slots slots' hslots hsome =>
    obtain ⟨key, htold, hkey, hcapacity⟩ := h.keys x slots hslots
    exact h.update ⟨key, htold, hkey, (Semaphore.capacity_tryAcquire hsome).trans hcapacity⟩
  | request => exact ⟨h.keys, (Semaphore.capacity_request _ _).trans h.upstream⟩
  | timeout hnot => exact ⟨h.keys, (Semaphore.capacity_leave _ _).trans h.upstream⟩
  | _ => exact ⟨h.keys, h.upstream⟩

theorem opens_of_duty {j : Job} {past : List Event} {e : Event} (h : j.Duty config past e)
    {x : String} {limit : Nat} (he : e.1 = .keySlots x limit) :
    ∃ key, (view past).key = some key ∧ key.hash = x ∧
      limit = config.state.concurrencyLimitFor key.label := by
  cases j with
  | proxy req =>
    simp only [Job.Duty] at h
    generalize view past = v at h ⊢
    cases h with
    | slots n key =>
      cases he
      exact ⟨key, rfl, rfl, rfl⟩
    | _ => cases he
  | memberKey headers => cases h <;> cases he

variable {rows₀ : Rows} {s : (server config).State}
variable {ok : (server config).State → (server config).Action → Prop}

theorem sized_of_run (hrun : ServerRun config rows₀ ok s) : Sized (Told s) s.shared := by
  refine System.Reach.invariant (fun s => Sized (Told s) s.shared) hrun (sized_booted _) ?_
  intro s s' act hr hI hok hT
  cases hT with
  | start j sh hstart =>
    cases hstart
    exact hI
  | exec t c j o k a sh htask hhandle =>
    have htold : ∀ key, Told s key → Told (s.advance t j o k a sh) key := by
      intro key ⟨u, keyId, n, hmem⟩
      exact ⟨u, keyId, n, List.mem_cons_of_mem _ hmem⟩
    have hnext : Sized (Told s) sh := by
      refine hI.handle hhandle fun x limit ho => ?_
      obtain ⟨key, hkey, hrest⟩ := opens_of_duty (duty_of_task hr htask a) ho
      exact ⟨key, told_of_view (t := t) hkey, hrest⟩
    refine Sized.mono ?_ htold
    show Sized (Told s) ((server config).settle t (k a) sh)
    cases k a with
    | ret r => exact hnext.leave t
    | op o' k' => exact hnext
  | drop t j o k htask => exact hI.leave t
  | world w sh hworld =>
    rcases turn_cases hworld with ⟨-, keys, rfl⟩ | ⟨-, keys, rfl⟩
    · exact ⟨hI.keys, hI.upstream⟩
    · exact sized_booted _

end Sizes

section Limits
variable {config : Config} {rows₀ : Rows} {s : (server config).State}
variable {ok : (server config).State → (server config).Action → Prop}

/-- The requests in flight with the property. -/
def inFlight (s : (server config).State) (P : View → Bool) : List Nat :=
  (List.range s.tasks.length).filter fun t => InFlight s P t

theorem mem_inFlight {P : View → Bool} {t : Nat} : t ∈ inFlight s P ↔ InFlight s P t := by
  rw [inFlight, List.mem_filter, List.mem_range, decide_eq_true_eq, and_iff_right_iff_imp]
  exact fun h => System.lt_of_running h.1

theorem nodup_inFlight (P : View → Bool) : (inFlight s P).Nodup :=
  List.nodup_range.filter _

/-- What holds of the requests in flight at any moment. -/
structure Limited (s : (server config).State) : Prop where
  keys : ∀ key, Told s key →
    (inFlight s (·.inSlot key.hash)).length ≤ config.state.concurrencyLimitFor key.label
  upstream : (inFlight s View.sending).length ≤ config.state.maxConcurrentUpstream
  slots : ∀ key slots, Told s key → s.shared.perKeySlots key.hash = some slots →
    slots.available + (inFlight s (·.inSlot key.hash)).length =
      config.state.concurrencyLimitFor key.label
  permits : s.shared.upstreamSlots.available +
    min (inFlight s View.inUpstream).length config.state.maxConcurrentUpstream =
      config.state.maxConcurrentUpstream

theorem length_inFlight_key (hrun : ServerRun config rows₀ ok s) {h : String}
    {slots : Semaphore Nat} (hslots : s.shared.perKeySlots h = some slots) :
    (inFlight s (·.inSlot h)).length = slots.holders.length := by
  obtain ⟨hqueue, htracks⟩ := (slotsHeld_of_run hrun).keys h slots hslots
  rw [htracks.length_eq (nodup_inFlight _) fun t => mem_inFlight, Semaphore.members, hqueue,
    List.append_nil]

/-- The slots of a key that are free and those in use make up the limit of its label. -/
theorem slots_in_use (hopen : rows₀.pending = []) (hrun : ServerRun config rows₀ ok s)
    {key : ConsumedKey} {slots : Semaphore Nat} (htold : Told s key)
    (hfound : s.shared.perKeySlots key.hash = some slots) :
    slots.available + (inFlight s (·.inSlot key.hash)).length =
      config.state.concurrencyLimitFor key.label := by
  obtain ⟨key', htold', hhash, hcapacity⟩ := (sized_of_run hrun).keys key.hash slots hfound
  rw [length_inFlight_key hrun hfound, label_of_hash hopen hrun htold htold' hhash.symm]
  exact hcapacity

/-- A key has no more requests in flight than its label allows, the upstreams have no more than
they are configured for, and no slot is ever lost. -/
theorem limited_of_run (hopen : rows₀.pending = []) (hrun : ServerRun config rows₀ ok s) :
    Limited s := by
  have hheld := slotsHeld_of_run hrun
  have hmembers : (inFlight s View.inUpstream).length = s.shared.upstreamSlots.members.length :=
    hheld.upstream.length_eq (nodup_inFlight _) fun t => mem_inFlight
  have hcapacity := (sized_of_run hrun).upstream
  refine ⟨fun key htold => ?_, ?_, fun key slots => slots_in_use hopen hrun, ?_⟩
  · cases hfound : s.shared.perKeySlots key.hash with
    | some slots =>
      rw [← slots_in_use hopen hrun htold hfound]
      exact Nat.le_add_left _ _
    | none =>
      -- a key whose slots were never opened has no request in flight
      have hnil : inFlight s (·.inSlot key.hash) = [] := by
        refine List.eq_nil_iff_forall_not_mem.2 fun t hmem => ?_
        have hsome := hheld.opened key.hash t (mem_inFlight.1 hmem)
        rw [hfound] at hsome
        cases hsome
      rw [hnil]
      exact Nat.zero_le _
  · have hsub : (inFlight s View.sending).length ≤ s.shared.upstreamSlots.holders.length :=
      ((nodup_inFlight _).subperm fun t hmem => hheld.permits t (mem_inFlight.1 hmem)).length_le
    rw [← hcapacity]
    exact hsub.trans (Semaphore.length_holders_le _)
  · rw [hmembers, ← hcapacity, Semaphore.members, List.length_append, Semaphore.capacity]
    cases hqueue : s.shared.upstreamSlots.queue with
    | nil => simp
    | cons u queue =>
      have hidle := s.shared.upstreamSlots.idle (by rw [hqueue]; exact List.cons_ne_nil _ _)
      rw [hidle]
      simp

end Limits

section Refusals
variable {config : Config} {rows₀ : Rows} {s : (server config).State}
variable {ok : (server config).State → (server config).Action → Prop}
variable {past : List Event} {b : Bool}

theorem slot_of_view (h : (view past).slot = some b) :
    ∃ x, (⟨.tryAcquireOwned x, b⟩ : Event) ∈ past := by
  obtain ⟨e, hmem, v, hold, hnew⟩ := event_of_view (P := (·.slot = some b)) nofun h
  unfold View.next at hnew
  split at hnew <;> first | exact absurd hnew hold | skip
  cases hnew
  exact ⟨_, hmem⟩

theorem permit_of_view (h : (view past).permit = some b) :
    (⟨.awaitUpstream, b⟩ : Event) ∈ past := by
  obtain ⟨e, hmem, v, hold, hnew⟩ := event_of_view (P := (·.permit = some b)) nofun h
  unfold View.next at hnew
  split at hnew <;> first | exact absurd hnew hold | skip
  cases hnew
  exact hmem

/-- An earlier state of the run. -/
def Earlier (config : Config) (rows₀ : Rows)
    (ok : (server config).State → (server config).Action → Prop)
    (s₁ s : (server config).State) : Prop :=
  ServerRun config rows₀ ok s₁ ∧ System.Reach (server config) ok s₁ s

/-- The moment at which a request performed an operation. -/
theorem moment (hrun : ServerRun config rows₀ ok s) {t : Nat} {o : Op} {a : o.Ans}
    (hmem : (⟨o, a⟩ : Event) ∈ System.trace s.log t) :
    ∃ s₁ sh, Earlier config rows₀ ok s₁ s ∧ s₁.running t = true ∧ Handled s₁.shared t ⟨o, a⟩ sh ∧
      ∃ j, s.job t = some j ∧ j.Duty config (System.trace s₁.log t) ⟨o, a⟩ := by
  obtain ⟨late, early, hlog⟩ := List.append_of_mem (System.mem_trace.1 hmem)
  obtain ⟨s₁, c, j, k, sh, hr, -, hok, htask, hhandle, hrest⟩ := hrun.event hlog
  have hstep := System.step_of_transition
    (System.Transition.exec (S := server config) t c j o k a sh htask hhandle)
  exact ⟨s₁, sh, ⟨hr, (System.Reach.refl.step hok hstep).trans hrest⟩, System.running_of_task htask,
    handle_cases hhandle, j, hrest.job_mono (System.job_advance htask), duty_of_task hr htask a⟩

/-- When a request is told that something is busy. -/
structure BusyOnlyIfFull (config : Config) (rows₀ : Rows)
    (ok : (server config).State → (server config).Action → Prop) (s : (server config).State) :
    Prop where
  /-- All the slots of the key were held by other requests. -/
  key : ∀ t req, s.tasks[t]? = some ⟨.proxy req, some (.ret
      (rateLimited 1 "too many concurrent requests for this api key"))⟩ →
    ∃ (s₁ : (server config).State) (key : ConsumedKey), Earlier config rows₀ ok s₁ s ∧
      (viewOf s₁ t).key = some key ∧ t ∉ inFlight s₁ (·.inSlot key.hash) ∧
        (inFlight s₁ (·.inSlot key.hash)).length = config.state.concurrencyLimitFor key.label
  /-- All the permits were held by other requests. -/
  upstream : ∀ t req, s.tasks[t]? = some ⟨.proxy req, some (.ret
      (jsonError 503 "upstream busy"))⟩ →
    ∃ (s₁ : (server config).State) (others : List Nat), Earlier config rows₀ ok s₁ s ∧
      others.length = config.state.maxConcurrentUpstream ∧ others.Nodup ∧ t ∉ others ∧
        ∀ u ∈ others, u ∈ s₁.shared.upstreamSlots.holders ∧ InFlight s₁ View.inUpstream u

theorem slot_of_keyBusy {req : Request} {v : View} (h : Answered config req v
    (rateLimited 1 "too many concurrent requests for this api key")) : v.slot = some false := by
  generalize hr : rateLimited 1 "too many concurrent requests for this api key" = r at h
  cases h with
  | keyBusy n key => rfl
  | refused n e => cases e <;> simp [refusal, rateLimited, jsonError] at hr
  | _ => simp [rateLimited, jsonError, sttUnavailable] at hr

theorem permit_of_upstreamBusy {req : Request} {v : View}
    (h : Answered config req v (jsonError 503 "upstream busy")) : v.permit = some false := by
  generalize hr : jsonError 503 "upstream busy" = r at h
  cases h with
  | busy n key bytes => rfl
  | refused n e => cases e <;> simp [refusal, rateLimited, jsonError] at hr
  | _ => simp [rateLimited, jsonError, sttUnavailable] at hr

end Refusals

section Samples

/-- The second request finds the slot of its key taken; the third, with another key, asks for a
permit and waits. -/
def busyRun : List (server sampleConfig).Action :=
  ([.start (listModels "one"), .start (listModels "one"), .start (listModels "two"),
    .exec 0 .ok, .exec 1 .ok, .exec 2 .ok] : List (server sampleConfig).Action) ++
  ([.ok, .ok, .day "day", .ok, .ok, .ok].map fun c => .world (.keys 0 c) : List (server sampleConfig).Action) ++
  ([.ok, .ok, .day "day", .ok, .ok, .ok].map fun c => .world (.keys 1 c) : List (server sampleConfig).Action) ++
  ([.world (.keys 2 .ok)] : List (server sampleConfig).Action) ++
  ([0, 1, 2].flatMap fun t => [.exec t .ok, .exec t .ok, .exec t .ok] : List (server sampleConfig).Action) ++
  ([.exec 0 (.body (.ok [])), .exec 0 .ok, .exec 0 .ok, .exec 2 (.body (.ok [])),
    .exec 2 .ok] : List (server sampleConfig).Action)

theorem limited_of_run_sample : ∃ s, ServerRun sampleConfig sampleRows (fun _ _ => True) s ∧
    inFlight s (·.inSlot "one") = [0] ∧ inFlight s View.inUpstream = [0, 2] ∧ Limited s := by
  have hout : ((server sampleConfig).run (fun _ _ => true)
      ((server sampleConfig).init (.opened sampleConfig sampleRows)) busyRun).map
        (fun s => (inFlight s (·.inSlot "one"), inFlight s View.inUpstream)) =
      some ([0], [0, 2]) := rfl
  obtain ⟨s, hs, hseen⟩ := Option.map_eq_some_iff.1 hout
  obtain ⟨hkey, hupstream⟩ := Prod.mk.inj hseen
  have hrun : ServerRun sampleConfig sampleRows (fun _ _ => True) s :=
    System.Reach.of_run (fun _ _ _ => trivial) hs
  exact ⟨s, hrun, hkey, hupstream, limited_of_run rfl hrun⟩

end Samples
end Gateway.LocalProxy
