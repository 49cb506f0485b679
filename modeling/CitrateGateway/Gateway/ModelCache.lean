import CitrateGateway.Gateway.ModelListing

/-!
# The negative entries of the name cache

Lookups and listings run side by side over one pair of caches; who enumerates the registry
holds the refresh lock. A refresh replaces the whole map, and with it the name that was
remembered as unknown. As long as this does not happen to an entry that is still good, an
unknown name is enumerated once in a window shorter than the lifetime of an entry.
-/

namespace Gateway.Models
set_option autoImplicit false
open Words Effects
open Effects.System (trace Transition)

section Machine

inductive Call where
  | resolve (name : String)
  | list
  deriving DecidableEq

inductive Reply where
  | hash (r : Except GatewayError H256)
  | models (r : Except GatewayError (List ModelInfo))

def Call.prog : Call → M Reply
  | .resolve name => do return .hash (← resolveModelName name)
  | .list => do return .models (← listModels)

structure Lookups where
  caches : Caches
  /-- Who holds the refresh lock. -/
  holder : Option Nat := none

def Lookups.leave (sh : Lookups) (t : Nat) : Lookups :=
  if sh.holder = some t then { sh with holder := none } else sh

def Lookups.tick (sh : Lookups) (elapsed : Nat) : Lookups :=
  { sh with caches := { sh.caches with now := sh.caches.now + elapsed } }

abbrev lookups (reg : Registry) : System ModelSig where
  Shared := Lookups
  Job := Call
  Res := Reply
  Input := Unit
  World := Nat
  prog := Call.prog
  onStart := fun sh _ => some sh
  handle := fun sh t o _ =>
    if o.isLock && sh.holder.isSome then none
    else some ((sh.caches.answer reg o).1,
      ⟨(sh.caches.answer reg o).2, if o.isLock then some t else sh.holder⟩)
  leave := Lookups.leave
  spawn := fun _ => none
  world := fun sh elapsed => some (sh.tick elapsed)
  halts := fun _ => false

/-- The process starts with empty caches. -/
def boot (reg : Registry) (now : Nat) : (lookups reg).State :=
  (lookups reg).init ⟨{ now := now }, none⟩

variable {reg : Registry}

theorem handle_cases {sh sh' : Lookups} {t : Nat} {o : Op} {c : Unit} {a : o.Ans}
    (h : (lookups reg).handle sh t o c = some (a, sh')) :
    (o.isLock = true → sh.holder = none) ∧ a = (sh.caches.answer reg o).1 ∧
      sh' = ⟨(sh.caches.answer reg o).2, if o.isLock then some t else sh.holder⟩ := by
  simp only [lookups] at h
  split at h
  · cases h
  · rename_i hfree
    cases h
    refine ⟨fun hlock => ?_, rfl, rfl⟩
    simpa [hlock] using hfree

theorem leave_caches (sh : Lookups) (t : Nat) : (sh.leave t).caches = sh.caches := by
  unfold Lookups.leave
  split <;> rfl

theorem leave_holder {sh : Lookups} {t u : Nat} (h : sh.holder = some u) (hne : u ≠ t) :
    (sh.leave t).holder = some u := by
  unfold Lookups.leave
  rw [h, if_neg (by simpa using hne), h]

variable {s : (lookups reg).State} {t u : Nat} {j : (lookups reg).Job} {o : ModelSig.Op}
  {k : ModelSig.Ans o → Prog ModelSig (lookups reg).Res} {a : ModelSig.Ans o}
  {sh : (lookups reg).Shared}

theorem advance_caches : (s.advance t j o k a sh).shared.caches = sh.caches := by
  simp only [System.State.advance, System.settle]
  split
  · exact leave_caches sh t
  · rfl

theorem advance_holder (h : sh.holder = some u) (hne : u ≠ t) :
    (s.advance t j o k a sh).shared.holder = some u := by
  simp only [System.State.advance, System.settle]
  split
  · exact leave_holder h hne
  · exact h

theorem advance_shared_of_running (ht : t < s.tasks.length)
    (h : (s.advance t j o k a sh).running t = true) :
    (s.advance t j o k a sh).shared = sh := by
  obtain ⟨j', o', k', htask⟩ := System.task_of_running h
  rw [System.advance_task ht] at htask
  simp only [Option.some.injEq, System.Task.mk.injEq] at htask
  simp only [System.State.advance, System.settle, htask.2]

theorem dropped_caches : (s.dropped t j).shared.caches = s.shared.caches := leave_caches _ _

end Machine

section Invariants
variable (reg : Registry)

def Guar : Call → List Event → Event → Prop
  | .resolve name => LookupGuar reg name
  | .list => fun _ => ListGuar reg

def Post : Call → List Event → Reply → Prop
  | .resolve name, past, .hash r =>
    r.toOption = reg.resolved name ∧ (reg.Reachable → ¬ Enumerating past)
  | .list, _, .models r => r.toOption.getD [] = reg.models
  | _, _, _ => False

def contract : System.Contract (lookups reg) where
  rely := Served reg
  guar := Guar reg
  post := Post reg
  meets := by
    intro j
    cases j with
    | resolve name => exact Prog.Meets.bind (resolveModelName_spec name) fun _ r hr => hr
    | list => exact Prog.Meets.bind (listModels_spec []) fun _ r hr => hr

variable {reg} {ok : (lookups reg).State → (lookups reg).Action → Prop}
variable {s : (lookups reg).State} {now : Nat}

abbrev Run (reg : Registry) (ok : (lookups reg).State → (lookups reg).Action → Prop) (now : Nat)
    (s : (lookups reg).State) : Prop := System.Reach (lookups reg) ok (boot reg now) s

def Serving (reg : Registry) (s : (lookups reg).State) : Prop := Filled reg s.shared.caches

theorem served_of_filled : (contract reg).Served fun s a => ok s a ∧ Serving reg s := by
  intro s t c o a sh hok hhandle
  obtain ⟨-, ha, -⟩ := handle_cases hhandle
  exact ⟨s.shared.caches, hok.2, ha⟩

/-- Calls fill the caches with what the registry holds. -/
theorem Filled.of_guar {c : Caches} (h : Filled reg c) {j : Call} {past : List Event} {o : Op}
    {a : o.Ans} (hguar : Guar reg j past ⟨o, a⟩) : Filled reg (c.answer reg o).2 := by
  cases o with
  | refreshModelCache map =>
    constructor
    · intro t map' heq
      cases heq
      cases j with
      | resolve name => exact hguar.2.1
      | list => exact hguar.elim
    · exact h.list
  | refreshModelList models =>
    constructor
    · exact h.names
    · intro t models' heq
      cases heq
      cases j with
      | resolve name => exact hguar.elim
      | list => exact hguar
  | _ => exact h

theorem filled_assuming (h : Run reg (fun s a => ok s a ∧ Serving reg s) now s) :
    Serving reg s := by
  refine h.invariant (Serving reg) (filled_empty now) ?_
  intro s s' act hr hfilled hok hT
  cases hT with
  | start j sh hstart =>
    cases hstart
    exact hfilled
  | exec t c j o k a sh htask hhandle =>
    have hmeets := hr.meets (contract reg) served_of_filled htask
    obtain ⟨-, rfl, rfl⟩ := handle_cases hhandle
    rw [Serving, advance_caches]
    have hserved : Served reg ⟨o, (s.shared.caches.answer reg o).1⟩ :=
      ⟨s.shared.caches, hfilled, rfl⟩
    exact hfilled.of_guar (Prog.meets_op.1 hmeets _ hserved).1
  | drop t j o k htask =>
    rw [Serving, dropped_caches]
    exact hfilled
  | world w sh hworld =>
    cases hworld
    exact ⟨hfilled.names, hfilled.list⟩

theorem run_assuming (h : Run reg ok now s) :
    Run reg (fun s a => ok s a ∧ Serving reg s) now s :=
  h.assuming fun _ => filled_assuming

theorem filled_of_run (h : Run reg ok now s) : Filled reg s.shared.caches :=
  filled_assuming (run_assuming h)

/-- What a call is about to do meets its guarantee. -/
theorem guar_of_task (h : Run reg ok now s) {t : Nat} {j : (lookups reg).Job} {o : ModelSig.Op}
    {k : ModelSig.Ans o → Prog ModelSig (lookups reg).Res}
    (htask : s.tasks[t]? = some ⟨j, some (.op o k)⟩) :
    Guar reg j (trace s.log t) ⟨o, (s.shared.caches.answer reg o).1⟩ :=
  (Prog.meets_op.1 ((run_assuming h).meets (contract reg) served_of_filled htask) _
    ⟨s.shared.caches, filled_of_run h, rfl⟩).1

/-- A finished call answers what the registry holds. -/
theorem post_of_task (h : Run reg ok now s) {t : Nat} {j : (lookups reg).Job}
    {r : (lookups reg).Res} (htask : s.tasks[t]? = some ⟨j, some (.ret r)⟩) :
    Post reg j (trace s.log t) r :=
  (run_assuming h).meets (contract reg) served_of_filled htask

/-- Who has asked for the lock and still runs holds it. -/
def Locked (s : (lookups reg).State) : Prop :=
  ∀ t, s.running t = true → (trace s.log t).any (·.1.isLock) = true → s.shared.holder = some t

theorem locked_of_run (h : Run reg ok now s) : Locked s := by
  refine h.invariant Locked ?_ ?_
  · intro t hr
    cases hr
  · intro s s' act hr hlocked hok hT t hrun hlock
    have hne : ∀ l : List Event, l.any (·.1.isLock) = true → l ≠ [] := by
      rintro _ hl rfl
      cases hl
    cases hT with
    | start j sh hstart =>
      cases hstart
      exact hlocked t (hr.running_begin hrun (hne _ hlock)) hlock
    | exec u c j o k a sh htask hhandle =>
      obtain ⟨hfree, -, rfl⟩ := handle_cases hhandle
      by_cases htu : t = u
      · subst htu
        rw [advance_shared_of_running (List.getElem?_eq_some_iff.1 htask).1 hrun]
        by_cases ho : Op.isLock o = true
        · exact if_pos ho
        · rw [System.trace_advance_self, List.any_cons, Bool.or_eq_true] at hlock
          have hold := hlock.resolve_left ho
          exact (if_neg ho).trans (hlocked t (System.running_of_task htask) hold)
      · rw [System.trace_advance_ne s htu] at hlock
        have hhold := hlocked t (hr.running_advance htu hrun (hne _ hlock)) hlock
        refine advance_holder ?_ htu
        by_cases ho : Op.isLock o = true
        · rw [hfree ho] at hhold
          cases hhold
        · exact (if_neg ho).trans hhold
    | drop u j o k htask =>
      obtain ⟨htu, hrun'⟩ := System.running_of_dropped hrun
      exact leave_holder (hlocked t hrun' hlock) htu
    | world w sh hworld =>
      cases hworld
      exact hlocked t hrun hlock

theorem miss_mono {c : Caches} {name : String} (elapsed : Nat)
    (h : c.cachedModelHash name = .miss) :
    ({ c with now := c.now + elapsed } : Caches).cachedModelHash name = .miss := by
  obtain ⟨names, list, now⟩ := c
  match names with
  | none => rfl
  | some (fetchedAt, map) =>
    simp only [Caches.cachedModelHash, Caches.fresh] at h ⊢
    by_cases hold : modelCacheTtl ≤ now - fetchedAt
    · rw [if_pos (by omega)]
    · rw [if_neg hold] at h
      by_cases hlate : modelCacheTtl ≤ now + elapsed - fetchedAt
      · rw [if_pos hlate]
      · rw [if_neg hlate]
        exact h

/-- Only the holder of the lock puts a map into the cache. -/
theorem lock_of_refresh (h : Run reg ok now s) {t : Nat} {j : (lookups reg).Job}
    {o : ModelSig.Op} {k : ModelSig.Ans o → Prog ModelSig (lookups reg).Res}
    (htask : s.tasks[t]? = some ⟨j, some (.op o k)⟩) (ho : Op.isRefresh o = true) :
    s.shared.holder = some t := by
  have hguar := guar_of_task h htask
  refine locked_of_run h t (System.running_of_task htask) ?_
  cases o with
  | refreshModelCache map =>
    cases j with
    | resolve name => exact hguar.1.2
    | list => exact hguar.elim
  | _ => cases ho

theorem names_of_answer {c : Caches} {o : Op} (ho : o.isRefresh = false) :
    (c.answer reg o).2.names = c.names ∧ (c.answer reg o).2.now = c.now := by
  cases o with
  | refreshModelCache map => cases ho
  | _ => exact ⟨rfl, rfl⟩

theorem cached_of_answer {c : Caches} {o : Op} (ho : o.isRefresh = false) (name : String) :
    (c.answer reg o).2.cachedModelHash name = c.cachedModelHash name := by
  have hkept : (c.answer reg o).2.names = c.names ∧ (c.answer reg o).2.now = c.now :=
    names_of_answer ho
  obtain ⟨hnames, hnow⟩ := hkept
  simp only [Caches.cachedModelHash, Caches.fresh, hnames, hnow]

/-- What a lookup has missed under the lock is missing until it puts it there. -/
def Missing (s : (lookups reg).State) : Prop :=
  ∀ t name, s.running t = true → trace s.log t = rechecked name →
    s.shared.caches.cachedModelHash name = .miss

theorem missing_of_run (h : Run reg ok now s) : Missing s := by
  refine h.invariant Missing ?_ ?_
  · intro t name hr
    cases hr
  · intro s s' act hr hmissing hok hT t name hrun htrace
    cases hT with
    | start j sh hstart =>
      cases hstart
      refine hmissing t name (hr.running_begin hrun ?_) htrace
      change trace s.log t = rechecked name at htrace
      simp [htrace, rechecked]
    | exec u c j o k a sh htask hhandle =>
      obtain ⟨-, rfl, rfl⟩ := handle_cases hhandle
      rw [advance_caches]
      by_cases htu : t = u
      · subst htu
        rw [System.trace_advance_self] at htrace
        simp only [rechecked, List.cons.injEq, Sigma.mk.injEq] at htrace
        obtain ⟨⟨rfl, hmiss⟩, -⟩ := htrace
        exact eq_of_heq hmiss
      · rw [System.trace_advance_ne s htu] at htrace
        have hrun' : s.running t = true :=
          hr.running_advance htu hrun (by simp [htrace, rechecked])
        cases ho : Op.isRefresh o with
        | true =>
          have hu := lock_of_refresh hr htask ho
          have ht := locked_of_run hr t hrun' (by rw [htrace]; rfl)
          rw [hu] at ht
          cases ht
          exact absurd rfl htu
        | false => exact (cached_of_answer ho name).trans (hmissing t name hrun' htrace)
    | drop u j o k htask =>
      rw [dropped_caches]
      exact hmissing t name (System.running_of_dropped hrun).2 htrace
    | world w sh hworld =>
      cases hworld
      exact miss_mono w (hmissing t name hrun htrace)

end Invariants

section Window
variable {reg : Registry} {ok : (lookups reg).State → (lookups reg).Action → Prop}
variable {s : (lookups reg).State} {now since : Nat} {name : String}

/-- The enumerations that the lookups of a name have begun. -/
def enumerations (s : (lookups reg).State) (name : String) : Nat :=
  s.log.countP fun x => x.2.1.isEnumeration && decide (s.job x.1 = some (.resolve name))

/-- No step throws away what a lookup found: a map that is put into the cache does not take the
place of an entry, still good, that says that another name is unknown, and no call is dropped
while it enumerates. -/
def Undisturbed (s : (lookups reg).State) : (lookups reg).Action → Prop
  | .exec t _ => ∀ name map k,
      s.tasks[t]? = some ⟨.resolve name, some (.op (.refreshModelCache map) k)⟩ →
      ∀ other, other ≠ name → s.shared.caches.cachedModelHash other ≠ .negative
  | .drop t => ∀ name, s.job t = some (.resolve name) → ¬ Enumerating (trace s.log t)
  | _ => True

/-- A lookup of the name is at its enumeration. -/
def Busy (s : (lookups reg).State) (name : String) : Prop :=
  ∃ t, s.running t = true ∧ s.job t = some (.resolve name) ∧ Enumerating (trace s.log t) ∧
    (trace s.log t).any (·.1.isLock) = true

/-- The cache has had an entry for the unknown name since then. -/
def Remembered (since : Nat) (c : Caches) (name : String) : Prop :=
  ∃ fetchedAt map, c.names = some (fetchedAt, map) ∧ since ≤ fetchedAt ∧
    map.get name = some none

theorem Remembered.negative {c : Caches} (h : Remembered since c name)
    (hsince : c.now < since + modelCacheTtl) : c.cachedModelHash name = .negative := by
  obtain ⟨fetchedAt, map, hnames, hle, hget⟩ := h
  have hgood : ¬ modelCacheTtl ≤ c.now - fetchedAt := by
    have hpos : 0 < modelCacheTtl := by decide
    omega
  simp only [Caches.cachedModelHash, Caches.fresh, hnames, if_neg hgood, hget]

theorem Remembered.of_names {c c' : Caches} (h : Remembered since c name)
    (hnames : c'.names = c.names) : Remembered since c' name := by
  obtain ⟨fetchedAt, map, heq, hle, hget⟩ := h
  exact ⟨fetchedAt, map, hnames.trans heq, hle, hget⟩

theorem now_le_of_transition {s' : (lookups reg).State} {act : (lookups reg).Action}
    (hT : Transition s act s') : s.shared.caches.now ≤ s'.shared.caches.now := by
  cases hT with
  | start j sh hstart =>
    cases hstart
    exact Nat.le_refl _
  | exec t c j o k a sh htask hhandle =>
    obtain ⟨-, -, rfl⟩ := handle_cases hhandle
    rw [advance_caches]
    cases o <;> exact Nat.le_refl _
  | drop t j o k htask =>
    rw [dropped_caches]
  | world w sh hworld =>
    cases hworld
    exact Nat.le_add_right _ _

theorem enumerations_congr (h : Run reg ok now s) {s' : (lookups reg).State} (name : String)
    (hjob : ∀ t < s.tasks.length, s'.job t = s.job t) :
    (s.log.countP fun x => x.2.1.isEnumeration && decide (s'.job x.1 = some (.resolve name))) =
      enumerations s name := by
  refine List.countP_congr fun x hx => ?_
  rw [hjob x.1 (h.log_lt (e := x.2) hx)]

theorem enumerations_of_log (h : Run reg ok now s) {s' : (lookups reg).State}
    {act : (lookups reg).Action} (hT : Transition s act s') (hlog : s'.log = s.log) :
    enumerations s' name = enumerations s name := by
  rw [← enumerations_congr h name fun t ht =>
    System.job_eq_of_step (System.step_of_transition hT) ht, ← hlog]
  rfl

theorem enumerations_advance (h : Run reg ok now s) {t : Nat} {c : Unit} {j : (lookups reg).Job}
    {o : ModelSig.Op} {k : ModelSig.Ans o → Prog ModelSig (lookups reg).Res}
    {a : ModelSig.Ans o} {sh : (lookups reg).Shared}
    (htask : s.tasks[t]? = some ⟨j, some (.op o k)⟩)
    (hhandle : (lookups reg).handle s.shared t o c = some (a, sh)) :
    enumerations (s.advance t j o k a sh) name = enumerations s name +
      if Op.isEnumeration o = true ∧ j = .resolve name then 1 else 0 := by
  have hT : Transition s (.exec t c) (s.advance t j o k a sh) := .exec t c j o k a sh htask hhandle
  have hold := enumerations_congr h name fun t ht =>
    System.job_eq_of_step (System.step_of_transition hT) ht
  change List.countP _ ((t, ⟨o, a⟩) :: s.log) = _
  rw [List.countP_cons, hold, System.job_advance htask]
  simp

/-- At most one enumeration since then, and after it the name is looked up or remembered. -/
def OnceSince (s₁ s : (lookups reg).State) (name : String) : Prop :=
  enumerations s name = enumerations s₁ name ∨
    enumerations s name = enumerations s₁ name + 1 ∧
      (Busy s name ∨ Remembered s₁.shared.caches.now s.shared.caches name)

theorem Busy.holds (h : Busy s name) (hrun : Run reg ok now s) :
    ∃ t, s.shared.holder = some t ∧ s.running t = true ∧ s.job t = some (.resolve name) ∧
      Enumerating (trace s.log t) := by
  obtain ⟨t, hrunning, hjob, henum, hlock⟩ := h
  exact ⟨t, locked_of_run hrun t hrunning hlock, hrunning, hjob, henum⟩

/-- A lookup that enumerates goes on until it has put a map into the cache. -/
theorem running_of_enumerating (hreg : reg.Reachable) (h : Run reg ok now s) {t : Nat}
    {p : Prog ModelSig (lookups reg).Res} (htask : s.tasks[t]? = some ⟨.resolve name, some p⟩)
    (henum : Enumerating (trace s.log t)) : s.running t = true := by
  cases p with
  | op o k => exact System.running_of_task htask
  | ret r =>
    have hpost := post_of_task h htask
    cases r with
    | hash r => exact absurd henum (hpost.2 hreg)
    | models r => exact hpost.elim

section Step
variable {s₁ : (lookups reg).State} {t : Nat} {c : Unit} {j : (lookups reg).Job} {o : ModelSig.Op}
variable {k : ModelSig.Ans o → Prog ModelSig (lookups reg).Res} {a : ModelSig.Ans o}
variable {sh : (lookups reg).Shared}

/-- What an operation leaves of a remembered name. -/
theorem Remembered.advance (h : Remembered since s.shared.caches name)
    (hwindow : s.shared.caches.now < since + modelCacheTtl) (hunknown : reg.resolved name = none)
    (hrun : Run reg ok now s) (hok : Undisturbed s (.exec t c))
    (htask : s.tasks[t]? = some ⟨j, some (.op o k)⟩)
    (hhandle : (lookups reg).handle s.shared t o c = some (a, sh))
    (hsince : since ≤ s.shared.caches.now) :
    Remembered since (s.advance t j o k a sh).shared.caches name := by
  have hguar := guar_of_task hrun htask
  have hnegative := h.negative hwindow
  obtain ⟨-, rfl, rfl⟩ := handle_cases hhandle
  rw [advance_caches]
  cases ho : Op.isRefresh o with
  | false => exact h.of_names (names_of_answer ho).1
  | true =>
    cases o with
    | refreshModelCache map =>
      cases j with
      | resolve other =>
        by_cases hother : name = other
        · subst hother
          have hlast : reg.lastOf name = none := (Option.or_eq_none_iff.1 hunknown).2
          exact ⟨s.shared.caches.now, map, rfl, hsince, hguar.2.2 hlast⟩
        · exact absurd hnegative (hok other map k htask name hother)
      | list => exact hguar.elim
    | _ => cases ho

/-- What an operation of an enumerating lookup makes of it. -/
theorem Busy.advance (h : Busy s name) (hreg : reg.Reachable) (hunknown : reg.resolved name = none)
    (hrun : Run reg (fun _ _ => True) now s)
    (htask : s.tasks[t]? = some ⟨j, some (.op o k)⟩)
    (hhandle : (lookups reg).handle s.shared t o c = some (a, sh))
    (hsince : since ≤ s.shared.caches.now) :
    Busy (s.advance t j o k a sh) name ∨
      Remembered since (s.advance t j o k a sh).shared.caches name := by
  obtain ⟨u, hrunning, hjob, henum, hlock⟩ := h
  have ht := (List.getElem?_eq_some_iff.1 htask).1
  have hstep := System.step_of_transition (.exec t c j o k a sh htask hhandle)
  by_cases hut : u = t
  · subst hut
    have hguar := guar_of_task hrun htask
    rw [System.job_of_task htask] at hjob
    cases hjob
    have hnext : Run reg (fun _ _ => True) now (s.advance u (.resolve name) o k a sh) :=
      .step hrun trivial hstep
    have hbusy : Op.isRefresh o = false → Busy (s.advance u (.resolve name) o k a sh) name := by
      intro ho
      have henum' : Enumerating (trace (s.advance u (.resolve name) o k a sh).log u) := by
        rw [System.trace_advance_self]
        exact ⟨by simpa using Or.inr henum.1, by simpa [ho] using henum.2⟩
      refine ⟨u, ?_, System.job_advance htask, henum', ?_⟩
      · exact running_of_enumerating hreg hnext (System.advance_task ht a sh) henum'
      · rw [System.trace_advance_self]
        simpa using Or.inr hlock
    cases ho : Op.isRefresh o with
    | false => exact Or.inl (hbusy ho)
    | true =>
      obtain ⟨-, rfl, rfl⟩ := handle_cases hhandle
      cases o with
      | refreshModelCache map =>
        have hlast : reg.lastOf name = none := (Option.or_eq_none_iff.1 hunknown).2
        rw [advance_caches]
        exact Or.inr ⟨s.shared.caches.now, map, rfl, hsince, hguar.2.2 hlast⟩
      | _ => cases ho
  · refine Or.inl ⟨u, System.running_advance_of hrunning hut a sh, System.job_step hstep hjob, ?_⟩
    rw [System.trace_advance_ne s hut]
    exact ⟨henum, hlock⟩

/-- Who begins an enumeration has just missed the name, alone under the lock. -/
theorem begins (hrun : Run reg (fun _ _ => True) now s)
    (htask : s.tasks[t]? = some ⟨.resolve name, some (.op o k)⟩)
    (ho : Op.isEnumeration o = true) :
    trace s.log t = rechecked name ∧ s.shared.caches.cachedModelHash name = .miss ∧
      ¬ Busy s name := by
  have hguar := guar_of_task hrun htask
  have hrunning := System.running_of_task htask
  have htrace : trace s.log t = rechecked name := by
    cases o with
    | getAllModelHashes => exact hguar
    | _ => cases ho
  refine ⟨htrace, missing_of_run hrun t name hrunning htrace, fun hbusy => ?_⟩
  obtain ⟨u, hu, -, -, henum⟩ := hbusy.holds hrun
  have ht := locked_of_run hrun t hrunning (by rw [htrace]; rfl)
  rw [hu] at ht
  cases ht
  rw [htrace] at henum
  cases henum.1

theorem OnceSince.advance (h : OnceSince s₁ s name) (hreg : reg.Reachable)
    (hunknown : reg.resolved name = none) (hrun : Run reg (fun _ _ => True) now s)
    (hok : Undisturbed s (.exec t c)) (htask : s.tasks[t]? = some ⟨j, some (.op o k)⟩)
    (hhandle : (lookups reg).handle s.shared t o c = some (a, sh))
    (hsince : s₁.shared.caches.now ≤ s.shared.caches.now)
    (hwindow : s.shared.caches.now < s₁.shared.caches.now + modelCacheTtl) :
    OnceSince s₁ (s.advance t j o k a sh) name := by
  have ht := (List.getElem?_eq_some_iff.1 htask).1
  unfold OnceSince
  rw [enumerations_advance hrun htask hhandle]
  by_cases hbegin : Op.isEnumeration o = true ∧ j = .resolve name
  · obtain ⟨ho, rfl⟩ := hbegin
    obtain ⟨htrace, hmiss, hidle⟩ := begins hrun htask ho
    rw [if_pos ⟨ho, rfl⟩]
    rcases h with hsame | ⟨-, hbusy | hremembered⟩
    · refine Or.inr ⟨by rw [hsame], Or.inl ?_⟩
      have henum : Enumerating (trace (s.advance t (.resolve name) o k a sh).log t) := by
        rw [System.trace_advance_self, htrace]
        cases o with
        | getAllModelHashes => exact ⟨rfl, rfl⟩
        | _ => cases ho
      have hnext : Run reg (fun _ _ => True) now (s.advance t (.resolve name) o k a sh) :=
        .step hrun trivial (System.step_of_transition (.exec t c _ o k a sh htask hhandle))
      refine ⟨t, ?_, System.job_advance htask, henum, ?_⟩
      · exact running_of_enumerating hreg hnext (System.advance_task ht a sh) henum
      · rw [System.trace_advance_self, htrace]
        simp [rechecked, waited, Op.isLock]
    · exact absurd hbusy hidle
    · rw [hremembered.negative hwindow] at hmiss
      cases hmiss
  · rw [if_neg hbegin, Nat.add_zero]
    rcases h with hsame | ⟨hone, hbusy | hremembered⟩
    · exact Or.inl hsame
    · exact Or.inr ⟨hone, hbusy.advance hreg hunknown hrun htask hhandle hsince⟩
    · exact Or.inr ⟨hone, Or.inr
        (hremembered.advance hwindow hunknown hrun hok htask hhandle hsince)⟩

end Step

theorem onceSince_of_run (hreg : reg.Reachable) (hunknown : reg.resolved name = none)
    {s₁ s₂ : (lookups reg).State} (h₁ : Run reg (fun _ _ => True) now s₁)
    (h₂ : System.Reach (lookups reg) Undisturbed s₁ s₂) :
    s₁.shared.caches.now ≤ s₂.shared.caches.now ∧
      (s₂.shared.caches.now < s₁.shared.caches.now + modelCacheTtl → OnceSince s₁ s₂ name) := by
  induction h₂ with
  | refl => exact ⟨Nat.le_refl _, fun _ => Or.inl rfl⟩
  | @step s s' act hr hok hstep ih =>
    obtain ⟨hsince, honce⟩ := ih
    have hT := System.step_cases hstep
    have hle := now_le_of_transition hT
    have hrun : Run reg (fun _ _ => True) now s :=
      System.Reach.trans h₁ (hr.mono fun _ _ _ => trivial)
    refine ⟨Nat.le_trans hsince hle, fun hwindow => ?_⟩
    have hwindow' : s.shared.caches.now < s₁.shared.caches.now + modelCacheTtl := by omega
    have h := honce hwindow'
    cases hT with
    | start j sh hstart =>
      cases hstart
      rw [OnceSince, enumerations_of_log hrun (.start j _ rfl) rfl]
      rcases h with hsame | ⟨hone, ⟨u, hu, hjob, hpast⟩ | hremembered⟩
      · exact Or.inl hsame
      · have hrunning := System.running_begin_of hu j s.shared
        exact Or.inr ⟨hone, Or.inl ⟨u, hrunning, System.job_step hstep hjob, hpast⟩⟩
      · exact Or.inr ⟨hone, Or.inr hremembered⟩
    | exec t c j o k a sh htask hhandle =>
      exact h.advance hreg hunknown hrun hok htask hhandle hsince hwindow'
    | drop t j o k htask =>
      rw [OnceSince, enumerations_of_log hrun (.drop t j o k htask) rfl, dropped_caches]
      rcases h with hsame | ⟨hone, ⟨u, hu, hjob, hpast⟩ | hremembered⟩
      · exact Or.inl hsame
      · have hut : u ≠ t := by
          rintro rfl
          exact hok name hjob hpast.1
        have hrunning := System.running_dropped_of (j := j) hu hut
        exact Or.inr ⟨hone, Or.inl ⟨u, hrunning, System.job_step hstep hjob, hpast⟩⟩
      · exact Or.inr ⟨hone, Or.inr hremembered⟩
    | world w sh hworld =>
      cases hworld
      rw [OnceSince, enumerations_of_log hrun (.world w _ rfl) rfl]
      rcases h with hsame | ⟨hone, ⟨u, hu, hjob, hpast⟩ | hremembered⟩
      · exact Or.inl hsame
      · exact Or.inr ⟨hone, Or.inl ⟨u, hu, hjob, hpast⟩⟩
      · exact Or.inr ⟨hone, Or.inr (hremembered.of_names rfl)⟩

/-- In a window shorter than the lifetime of an entry an unknown name is enumerated at most once,
as long as nothing throws away what its lookup found. -/
theorem unknown_name_enumerated_once (hreg : reg.Reachable) (hunknown : reg.resolved name = none)
    {s₁ s₂ : (lookups reg).State} (h₁ : Run reg (fun _ _ => True) now s₁)
    (h₂ : System.Reach (lookups reg) Undisturbed s₁ s₂)
    (hwindow : s₂.shared.caches.now < s₁.shared.caches.now + modelCacheTtl) :
    enumerations s₂ name ≤ enumerations s₁ name + 1 := by
  obtain ⟨-, honce⟩ := onceSince_of_run hreg hunknown h₁ h₂
  rcases honce hwindow with hsame | ⟨hone, -⟩
  · rw [hsame]
    exact Nat.le_succ _
  · exact Nat.le_of_eq hone

end Window

section Samples

/-- A registry without models. -/
def noModels : Registry where
  getAllModelHashes := .ok (beBytes 32 32 ++ beBytes 32 0)
  getModel := fun _ => .error (.chainUnavailable "rpc missing result")

def lookUp (t : Nat) : List (Nat × Unit) := List.replicate 5 (t, ())

def quiet (s : (lookups noModels).State) : (lookups noModels).Action → Bool
  | .exec t _ => match s.tasks[t]? with
    | some ⟨.resolve _, some (.op (.refreshModelCache _) _)⟩ => s.shared.caches.names.isNone
    | _ => true
  | .drop _ => false
  | _ => true

theorem undisturbed_of_quiet {s : (lookups noModels).State} {act : (lookups noModels).Action}
    (h : quiet s act = true) : Undisturbed s act := by
  cases act with
  | exec t c =>
    intro name map k htask other hother hnegative
    simp only [quiet, htask, Option.isNone_iff_eq_none] at h
    simp [Caches.cachedModelHash, Caches.fresh, h] at hnegative
  | drop t => cases h
  | _ => trivial

/-- The lookup of another unknown name comes between two lookups of one. -/
theorem unknown_name_enumerated_again :
    noModels.Reachable ∧ noModels.resolved "a" = none ∧
      ∃ s, Run noModels (fun _ _ => True) 0 s ∧
        s.shared.caches.now < (boot noModels 0).shared.caches.now + modelCacheTtl ∧
        enumerations (boot noModels 0) "a" + 1 < enumerations s "a" := by
  refine ⟨⟨[], by decide +kernel⟩, by decide +kernel, ?_⟩
  have hs : ((lookups noModels).run (fun _ _ => true) (boot noModels 0)
      (System.script [.resolve "a", .resolve "b", .resolve "a"]
        (lookUp 0 ++ lookUp 1 ++ lookUp 2))).map
      (fun s => (s.shared.caches.now, enumerations s "a")) = some (0, 2) := by decide +kernel
  obtain ⟨s, hrun, hend⟩ := Option.map_eq_some_iff.1 hs
  obtain ⟨hnow, hcount⟩ := Prod.mk.inj hend
  refine ⟨s, .of_run (fun _ _ _ => trivial) hrun, ?_, ?_⟩
  · rw [hnow]
    decide
  · rw [hcount]
    decide

theorem unknown_name_enumerated_once_sample : ∃ s,
    System.Reach (lookups noModels) Undisturbed (boot noModels 0) s ∧
      enumerations s "a" ≤ enumerations (boot noModels 0) "a" + 1 := by
  have hs : ((lookups noModels).run quiet (boot noModels 0)
      (System.script [.resolve "a", .list, .resolve "a"]
        (lookUp 0 ++ lookUp 1 ++ [(2, ())]))).map
      (fun s => (s.shared.caches.now, enumerations s "a")) = some (0, 1) := by decide +kernel
  obtain ⟨s, hrun, hend⟩ := Option.map_eq_some_iff.1 hs
  have hreach : System.Reach (lookups noModels) Undisturbed (boot noModels 0) s :=
    .of_run (fun _ _ => undisturbed_of_quiet) hrun
  refine ⟨s, hreach, unknown_name_enumerated_once ⟨[], by decide +kernel⟩ (by decide +kernel)
    (.refl : Run noModels (fun _ _ => True) 0 (boot noModels 0)) hreach ?_⟩
  rw [(Prod.mk.inj hend).1]
  decide

end Samples
end Gateway.Models
