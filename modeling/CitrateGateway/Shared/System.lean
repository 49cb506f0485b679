import CitrateGateway.Shared.Program
import Mathlib.Algebra.GroupWithZero.Nat
import Mathlib.Algebra.BigOperators.Group.Finset.Basic
import Mathlib.Algebra.Order.BigOperators.Group.Finset
import Mathlib.Algebra.Order.BigOperators.Group.List

/-!
# Interleaved tasks over a shared state

A `System` runs any number of tasks. Each task executes the program of its job, one
operation at a time; the environment chooses which task moves, what an operation answers
among the answers the shared state allows, when a task is dropped and when the world
around the tasks changes. Nothing here depends on what the operations mean.

The log records every performed operation, newest first.
-/

namespace Effects
set_option autoImplicit false

structure System (E : Sig) where
  Shared : Type
  Job : Type
  Res : Type
  Input : Type
  World : Type
  prog : Job → Prog E Res
  onStart : Shared → Job → Option Shared
  handle : Shared → Nat → (o : E.Op) → Input → Option (E.Ans o × Shared)
  /-- What the end of a task releases, whether it finished or was dropped. -/
  leave : Shared → Nat → Shared
  spawn : E.Op → Option Job
  world : Shared → World → Option Shared
  /-- Whether the event ends every running task. -/
  halts : World → Bool

namespace System
variable {E : Sig}

/-- The answer an offered event holds for `o`, if it is an event of `o`. -/
def offered [DecidableEq E.Op] (o : E.Op) (e : E.Event) : Option (E.Ans o) :=
  if h : e.1 = o then some (h ▸ e.2) else none

@[simp] theorem offered_self [DecidableEq E.Op] (o : E.Op) (a : E.Ans o) :
    offered o ⟨o, a⟩ = some a := by
  simp [offered]

theorem offered_eq_some [DecidableEq E.Op] {o : E.Op} {e : E.Event} {a : E.Ans o}
    (h : offered o e = some a) : e = ⟨o, a⟩ := by
  obtain ⟨o', b⟩ := e
  simp only [offered, Option.dite_none_right_eq_some, Option.some.injEq] at h
  obtain ⟨rfl, rfl⟩ := h
  rfl

/-- A task that was dropped has no program any more; a finished one has a returned one. -/
structure Task (S : System E) where
  job : S.Job
  prog : Option (Prog E S.Res)

def Task.ofJob (S : System E) (j : S.Job) : S.Task := ⟨j, some (S.prog j)⟩

def Task.kill {S : System E} (k : S.Task) : S.Task :=
  match k.prog with
  | some (.op _ _) => ⟨k.job, none⟩
  | _ => k

@[simp] theorem Task.ofJob_job (S : System E) (j : S.Job) : (Task.ofJob S j).job = j := rfl

@[simp] theorem Task.ofJob_prog (S : System E) (j : S.Job) :
    (Task.ofJob S j).prog = some (S.prog j) := rfl

@[simp] theorem Task.kill_job {S : System E} (k : S.Task) : k.kill.job = k.job := by
  unfold kill
  split <;> rfl

theorem Task.kill_prog {S : System E} {k : S.Task} {p : Prog E S.Res}
    (h : k.kill.prog = some p) : k.prog = some p := by
  unfold kill at h
  split at h
  · simp at h
  · exact h

structure State (S : System E) where
  shared : S.Shared
  tasks : List S.Task
  log : List (Nat × E.Event)

inductive Action (S : System E) where
  | start (j : S.Job)
  | exec (t : Nat) (c : S.Input)
  | drop (t : Nat)
  | world (w : S.World)

variable {S : System E}

def init (S : System E) (sh : S.Shared) : S.State := ⟨sh, [], []⟩

def State.job (s : S.State) (t : Nat) : Option S.Job := s.tasks[t]?.map Task.job

def State.begin (s : S.State) (j : S.Job) (sh : S.Shared) : S.State :=
  { s with shared := sh, tasks := s.tasks ++ [Task.ofJob S j] }

/-- The shared state after a task moved to `p`: a finished task leaves. -/
def settle (S : System E) (t : Nat) (p : Prog E S.Res) (sh : S.Shared) : S.Shared :=
  match p with
  | .ret _ => S.leave sh t
  | .op _ _ => sh

def State.advance (s : S.State) (t : Nat) (j : S.Job) (o : E.Op) (k : E.Ans o → Prog E S.Res)
    (a : E.Ans o) (sh : S.Shared) : S.State where
  shared := S.settle t (k a) sh
  tasks := s.tasks.set t ⟨j, some (k a)⟩ ++ (S.spawn o).toList.map (Task.ofJob S)
  log := (t, ⟨o, a⟩) :: s.log

def State.dropped (s : S.State) (t : Nat) (j : S.Job) : S.State :=
  { s with shared := S.leave s.shared t, tasks := s.tasks.set t ⟨j, none⟩ }

def State.turned (s : S.State) (w : S.World) (sh : S.Shared) : S.State :=
  { s with
    shared := sh
    tasks := if S.halts w then s.tasks.map Task.kill else s.tasks }

/-- One step of the system; `none` where the action is not possible. -/
def step (S : System E) (s : S.State) : S.Action → Option S.State
  | .start j => (S.onStart s.shared j).map (s.begin j)
  | .exec t c =>
    match s.tasks[t]? with
    | some ⟨j, some (.op o k)⟩ =>
      (S.handle s.shared t o c).map fun r => s.advance t j o k r.1 r.2
    | _ => none
  | .drop t =>
    match s.tasks[t]? with
    | some ⟨j, some (.op _ _)⟩ => some (s.dropped t j)
    | _ => none
  | .world w => (S.world s.shared w).map (s.turned w)

/-- Run the actions in order, as long as each of them passes the check. -/
def run (S : System E) (check : S.State → S.Action → Bool) :
    S.State → List S.Action → Option S.State
  | s, [] => some s
  | s, a :: as => if check s a then (S.step s a).bind fun s' => S.run check s' as else none

/-- Start the jobs, then let their tasks perform in the given order. -/
def script (jobs : List S.Job) (events : List (Nat × S.Input)) : List S.Action :=
  jobs.map .start ++ events.map fun x => .exec x.1 x.2

inductive Transition (s : S.State) : S.Action → S.State → Prop where
  | start (j : S.Job) (sh : S.Shared) (hstart : S.onStart s.shared j = some sh) :
      Transition s (.start j) (s.begin j sh)
  | exec (t : Nat) (c : S.Input) (j : S.Job) (o : E.Op) (k : E.Ans o → Prog E S.Res)
      (a : E.Ans o) (sh : S.Shared) (htask : s.tasks[t]? = some ⟨j, some (.op o k)⟩)
      (hhandle : S.handle s.shared t o c = some (a, sh)) :
      Transition s (.exec t c) (s.advance t j o k a sh)
  | drop (t : Nat) (j : S.Job) (o : E.Op) (k : E.Ans o → Prog E S.Res)
      (htask : s.tasks[t]? = some ⟨j, some (.op o k)⟩) :
      Transition s (.drop t) (s.dropped t j)
  | world (w : S.World) (sh : S.Shared) (hworld : S.world s.shared w = some sh) :
      Transition s (.world w) (s.turned w sh)

/-- Everything a step can do, with the guards it checked. -/
theorem step_cases {s s' : S.State} {a : S.Action} (h : S.step s a = some s') :
    Transition s a s' := by
  cases a with
  | start j =>
    obtain ⟨sh, hsh, rfl⟩ := Option.map_eq_some_iff.1 h
    exact .start j sh hsh
  | exec t c =>
    simp only [step] at h
    split at h
    · rename_i j o k htask
      obtain ⟨⟨a, sh⟩, hr, rfl⟩ := Option.map_eq_some_iff.1 h
      exact .exec t c j o k a sh htask hr
    · cases h
  | drop t =>
    simp only [step] at h
    split at h
    · rename_i j o k htask
      cases h
      exact .drop t j o k htask
    · cases h
  | world w =>
    obtain ⟨sh, hsh, rfl⟩ := Option.map_eq_some_iff.1 h
    exact .world w sh hsh

theorem step_of_transition {s s' : S.State} {a : S.Action} (h : Transition s a s') :
    S.step s a = some s' := by
  cases h with
  | start j sh hstart => simp [step, hstart]
  | exec t c j o k a sh htask hhandle => simp [step, htask, hhandle]
  | drop t j o k htask => simp [step, htask]
  | world w sh hworld => simp [step, hworld]

/-- The states that steps allowed by `ok` lead to. -/
inductive Reach (S : System E) (ok : S.State → S.Action → Prop) (s₀ : S.State) :
    S.State → Prop where
  | refl : Reach S ok s₀ s₀
  | step {s s' : S.State} {a : S.Action} :
      Reach S ok s₀ s → ok s a → S.step s a = some s' → Reach S ok s₀ s'

section Traces

/-- The operations of one task, newest first. -/
def trace (log : List (Nat × E.Event)) (t : Nat) : List E.Event :=
  log.filterMap fun x => if x.1 = t then some x.2 else none

@[simp] theorem trace_nil (t : Nat) : trace ([] : List (Nat × E.Event)) t = [] := rfl

@[simp] theorem trace_cons_self (t : Nat) (e : E.Event) (log : List (Nat × E.Event)) :
    trace ((t, e) :: log) t = e :: trace log t := by
  simp [trace]

theorem trace_cons_ne {t u : Nat} (h : u ≠ t) (e : E.Event) (log : List (Nat × E.Event)) :
    trace ((u, e) :: log) t = trace log t := by
  simp [trace, h]

theorem mem_trace {log : List (Nat × E.Event)} {t : Nat} {e : E.Event} :
    e ∈ trace log t ↔ (t, e) ∈ log := by
  simp only [trace, List.mem_filterMap, Option.ite_none_right_eq_some, Option.some.injEq,
    Prod.exists]
  constructor
  · rintro ⟨u, e', hmem, rfl, rfl⟩
    exact hmem
  · intro h
    exact ⟨t, e, h, rfl, rfl⟩

/-- An event of a task's trace has its place in the log. -/
theorem trace_split {log : List (Nat × E.Event)} {t : Nat} {e : E.Event}
    {l₁ l₂ : List E.Event} (h : trace log t = l₁ ++ e :: l₂) :
    ∃ late early, log = late ++ (t, e) :: early ∧ trace early t = l₂ := by
  induction log generalizing l₁ with
  | nil => simp at h
  | cons x log ih =>
    obtain ⟨u, e'⟩ := x
    by_cases hu : u = t
    · subst hu
      rw [trace_cons_self] at h
      cases l₁ with
      | nil =>
        simp only [List.nil_append, List.cons.injEq] at h
        obtain ⟨rfl, rfl⟩ := h
        exact ⟨[], log, rfl, rfl⟩
      | cons y l₁ =>
        simp only [List.cons_append, List.cons.injEq] at h
        obtain ⟨late, early, rfl, he⟩ := ih h.2
        exact ⟨(u, e') :: late, early, rfl, he⟩
    · rw [trace_cons_ne hu] at h
      obtain ⟨late, early, rfl, he⟩ := ih h
      exact ⟨(u, e') :: late, early, rfl, he⟩

end Traces

section Jobs

theorem job_eq_some {s : S.State} {t : Nat} {j : S.Job} :
    s.job t = some j ↔ ∃ p, s.tasks[t]? = some ⟨j, p⟩ := by
  simp only [State.job, Option.map_eq_some_iff]
  constructor
  · rintro ⟨⟨j', p⟩, h, rfl⟩
    exact ⟨p, h⟩
  · rintro ⟨p, h⟩
    exact ⟨_, h, rfl⟩

theorem job_of_task {s : S.State} {t : Nat} {k : S.Task} (h : s.tasks[t]? = some k) :
    s.job t = some k.job := by
  simp [State.job, h]

/-- A task keeps its job for ever. -/
theorem job_step {s s' : S.State} {a : S.Action} {t : Nat} {j : S.Job}
    (h : S.step s a = some s') (hj : s.job t = some j) : s'.job t = some j := by
  obtain ⟨p, hp⟩ := job_eq_some.1 hj
  have ht : t < s.tasks.length := (List.getElem?_eq_some_iff.1 hp).1
  cases step_cases h with
  | start j' sh hstart =>
    simpa [State.begin, State.job, List.getElem?_append_left ht] using hj
  | exec u c j' o k b sh htask hhandle =>
    simp only [State.advance, State.job]
    rw [List.getElem?_append_left (by simpa using ht), List.getElem?_set]
    by_cases hu : u = t
    · subst hu
      rw [hp] at htask
      simp only [Option.some.injEq, Task.mk.injEq] at htask
      simp [ht, htask.1]
    · rw [if_neg hu]
      exact hj
  | drop u j' o k htask =>
    simp only [State.dropped, State.job]
    rw [List.getElem?_set]
    by_cases hu : u = t
    · subst hu
      rw [hp] at htask
      simp only [Option.some.injEq, Task.mk.injEq] at htask
      simp [ht, htask.1]
    · rw [if_neg hu]
      exact hj
  | world w sh hworld =>
    simp only [State.turned, State.job]
    split
    · rw [List.getElem?_map, hp]
      simp
    · exact hj

theorem job_eq_of_step {s s' : S.State} {a : S.Action} {t : Nat} (h : S.step s a = some s')
    (ht : t < s.tasks.length) : s'.job t = s.job t := by
  have hj : s.job t = some s.tasks[t].job := by simp [State.job, ht]
  rw [hj, job_step h hj]

/-- A job was there before the step, or the step brought it. -/
theorem job_cases {s s' : S.State} {act : S.Action} {t : Nat} {j : S.Job}
    (hT : Transition s act s') (hj : s'.job t = some j) :
    s.job t = some j ∨
      (s.tasks.length ≤ t ∧ (act = .start j ∨ ∃ o, S.spawn o = some j)) := by
  by_cases ht : t < s.tasks.length
  · exact Or.inl ((job_eq_of_step (step_of_transition hT) ht).symm.trans hj)
  refine Or.inr ⟨Nat.not_lt.1 ht, ?_⟩
  obtain ⟨p, hp⟩ := job_eq_some.1 hj
  cases hT with
  | start j' sh hstart =>
    simp only [State.begin, List.getElem?_append, if_neg ht] at hp
    have := List.mem_singleton.1 (List.mem_of_getElem? hp)
    cases this
    exact Or.inl rfl
  | exec u c j' o k a sh htask hhandle =>
    simp only [State.advance, List.getElem?_append, List.length_set, if_neg ht,
      List.getElem?_map, Option.map_eq_some_iff] at hp
    obtain ⟨j'', hspawn, heq⟩ := hp
    cases heq
    exact Or.inr ⟨o, Option.mem_toList.1 (List.mem_of_getElem? hspawn)⟩
  | drop u j' o k htask =>
    exact absurd (List.getElem?_eq_some_iff.1 hp).1 (by simpa [State.dropped] using ht)
  | world w sh hworld =>
    refine absurd (List.getElem?_eq_some_iff.1 hp).1 ?_
    simp only [State.turned]
    split <;> simpa using ht

theorem lt_of_job {s : S.State} {t : Nat} {j : S.Job} (h : s.job t = some j) :
    t < s.tasks.length := by
  obtain ⟨p, hp⟩ := job_eq_some.1 h
  exact (List.getElem?_eq_some_iff.1 hp).1

/-- A task that was started has the job it was started with. -/
theorem job_of_begin {s : S.State} {u : Nat} {j j' : S.Job} {sh : S.Shared}
    (hu : (s.begin j sh).job u = some j') (hnew : s.tasks.length ≤ u) : j' = j := by
  obtain ⟨p, hp⟩ := job_eq_some.1 hu
  simp only [State.begin, List.getElem?_append, if_neg (Nat.not_lt.2 hnew)] at hp
  cases List.mem_singleton.1 (List.mem_of_getElem? hp)
  rfl

/-- A task that an operation brought has the job it spawned. -/
theorem job_of_advance {s : S.State} {t u : Nat} {j j' : S.Job} {o : E.Op}
    {k : E.Ans o → Prog E S.Res} {a : E.Ans o} {sh : S.Shared}
    (hu : (s.advance t j o k a sh).job u = some j') (hnew : s.tasks.length ≤ u) :
    u = s.tasks.length ∧ S.spawn o = some j' := by
  obtain ⟨p, hp⟩ := job_eq_some.1 hu
  simp only [State.advance, List.getElem?_append, List.length_set, if_neg (Nat.not_lt.2 hnew),
    List.getElem?_map, Option.map_eq_some_iff] at hp
  obtain ⟨j'', hspawn, heq⟩ := hp
  cases heq
  cases hs : S.spawn o with
  | none => simp [hs] at hspawn
  | some j₁ =>
    rw [hs, Option.toList_some] at hspawn
    obtain ⟨hlt, hget⟩ := List.getElem?_eq_some_iff.1 hspawn
    rw [List.length_singleton] at hlt
    refine ⟨by omega, ?_⟩
    simpa using hget

variable {ok : S.State → S.Action → Prop} {s₀ s : S.State}

theorem Reach.trans {s' : S.State} (h : Reach S ok s₀ s) (h' : Reach S ok s s') :
    Reach S ok s₀ s' := by
  induction h' with
  | refl => exact h
  | step _ hok hstep ih => exact .step ih hok hstep

theorem Reach.mono {ok' : S.State → S.Action → Prop} (h : Reach S ok s₀ s)
    (himp : ∀ s a, ok s a → ok' s a) : Reach S ok' s₀ s := by
  induction h with
  | refl => exact .refl
  | step _ hok hstep ih => exact .step ih (himp _ _ hok) hstep

theorem Reach.of_run {check : S.State → S.Action → Bool} {as : List S.Action}
    (hok : ∀ s a, check s a = true → ok s a) (h : S.run check s₀ as = some s) :
    Reach S ok s₀ s := by
  induction as generalizing s₀ with
  | nil =>
    cases h
    exact .refl
  | cons a as ih =>
    simp only [run, Option.ite_none_right_eq_some] at h
    obtain ⟨s₁, hs₁, hrun⟩ := Option.bind_eq_some_iff.1 h.2
    exact Reach.trans (.step .refl (hok s₀ a h.1) hs₁) (ih hrun)

theorem job_eq_getElem (s : S.State) (t : Nat) : s.job t = (s.tasks.map Task.job)[t]? := by
  simp [State.job]

theorem Reach.job_mono {t : Nat} {j : S.Job} (h : Reach S ok s₀ s) (hj : s₀.job t = some j) :
    s.job t = some j := by
  induction h with
  | refl => exact hj
  | step _ _ hstep ih => exact job_step hstep ih

end Jobs

section Running

/-- Whether a task still has an operation to perform. -/
def State.running (s : S.State) (t : Nat) : Bool :=
  match s.tasks[t]? with
  | some ⟨_, some (.op _ _)⟩ => true
  | _ => false

variable {s : S.State} {t u : Nat} {j : S.Job} {o : E.Op} {k : E.Ans o → Prog E S.Res}

theorem running_of_task (h : s.tasks[t]? = some ⟨j, some (.op o k)⟩) : s.running t = true := by
  simp [State.running, h]

theorem task_of_running (h : s.running t = true) :
    ∃ j o k, s.tasks[t]? = some ⟨j, some (.op o k)⟩ := by
  unfold State.running at h
  split at h
  · exact ⟨_, _, _, by assumption⟩
  · cases h

theorem running_of_begin {sh : S.Shared} (hu : u < s.tasks.length)
    (h : (s.begin j sh).running u = true) : s.running u = true := by
  simpa [State.running, State.begin, List.getElem?_append_left hu] using h

theorem running_of_advance {a : E.Ans o} {sh : S.Shared} (hu : u < s.tasks.length) (hne : u ≠ t)
    (h : (s.advance t j o k a sh).running u = true) : s.running u = true := by
  simp only [State.running, State.advance] at h ⊢
  rwa [List.getElem?_append_left (by simpa using hu), List.getElem?_set_ne hne.symm] at h

theorem running_of_dropped (h : (s.dropped t j).running u = true) :
    u ≠ t ∧ s.running u = true := by
  simp only [State.running, State.dropped] at h
  by_cases hne : u = t
  · subst hne
    rw [List.getElem?_set_self'] at h
    cases hk : s.tasks[u]? <;> simp [hk] at h
  · rw [List.getElem?_set_ne (Ne.symm hne)] at h
    exact ⟨hne, h⟩

theorem lt_of_running (h : s.running u = true) : u < s.tasks.length := by
  by_contra hge
  simp [State.running, List.getElem?_eq_none (Nat.not_lt.1 hge)] at h

theorem running_begin_of (h : s.running u = true) (j : S.Job) (sh : S.Shared) :
    (s.begin j sh).running u = true := by
  simpa [State.running, State.begin, List.getElem?_append_left (lt_of_running h)] using h

theorem running_advance_of (h : s.running u = true) (hne : u ≠ t) (a : E.Ans o) (sh : S.Shared) :
    (s.advance t j o k a sh).running u = true := by
  simp only [State.running, State.advance] at h ⊢
  rwa [List.getElem?_append_left (by simpa using lt_of_running h), List.getElem?_set_ne hne.symm]

theorem running_dropped_of (h : s.running u = true) (hne : u ≠ t) :
    (s.dropped t j).running u = true := by
  simp only [State.running, State.dropped] at h ⊢
  rwa [List.getElem?_set_ne hne.symm]

theorem advance_task (ht : t < s.tasks.length) (a : E.Ans o) (sh : S.Shared) :
    (s.advance t j o k a sh).tasks[t]? = some ⟨j, some (k a)⟩ := by
  simp only [State.advance]
  rw [List.getElem?_append_left (by simpa using ht), List.getElem?_set_self ht]

theorem running_advance_self (ht : t < s.tasks.length) (a : E.Ans o) (sh : S.Shared) :
    (s.advance t j o k a sh).running t = (k a).result?.isNone := by
  unfold State.running
  rw [advance_task ht]
  cases k a <;> rfl

theorem tasks_turned {w : S.World} (hw : S.halts w = false) (sh : S.Shared) :
    (s.turned w sh).tasks = s.tasks :=
  if_neg (Bool.eq_false_iff.1 hw)

theorem running_of_halted {w : S.World} {sh : S.Shared} (hw : S.halts w = true) (u : Nat) :
    (s.turned w sh).running u = false := by
  simp only [State.running, State.turned, hw, if_true, List.getElem?_map]
  cases s.tasks[u]? with
  | none => rfl
  | some k =>
    obtain ⟨j, p⟩ := k
    match p with
    | none => rfl
    | some (.ret a) => rfl
    | some (.op o f) => rfl

/-- A task that has stopped does not run again. -/
theorem running_of_transition {s' : S.State} {act : S.Action} (h : Transition s act s')
    (hu : u < s.tasks.length) (hr : s'.running u = true) : s.running u = true := by
  cases h with
  | start j sh hstart => exact running_of_begin hu hr
  | exec t c j o k a sh htask hhandle =>
    by_cases hut : u = t
    · subst hut
      exact running_of_task htask
    · exact running_of_advance hu hut hr
  | drop t j o k htask => exact (running_of_dropped hr).2
  | world w sh hworld =>
    cases hw : S.halts w with
    | true =>
      rw [running_of_halted hw] at hr
      cases hr
    | false => simpa [State.running, State.turned, hw] using hr

/-- A task that has returned stays as it is. -/
theorem finished_of_transition {s' : S.State} {act : S.Action} {j' : S.Job} {r : S.Res}
    (h : Transition s act s') (hu : s.tasks[u]? = some ⟨j', some (.ret r)⟩) :
    s'.tasks[u]? = some ⟨j', some (.ret r)⟩ := by
  have hlt := (List.getElem?_eq_some_iff.1 hu).1
  cases h with
  | start j sh hstart =>
    simp only [State.begin]
    rwa [List.getElem?_append_left hlt]
  | exec t c j o k a sh htask hhandle =>
    have hne : t ≠ u := by
      rintro rfl
      rw [hu] at htask
      cases htask
    simp only [State.advance]
    rwa [List.getElem?_append_left (by simpa using hlt), List.getElem?_set_ne hne]
  | drop t j o k htask =>
    have hne : t ≠ u := by
      rintro rfl
      rw [hu] at htask
      cases htask
    simp only [State.dropped]
    rwa [List.getElem?_set_ne hne]
  | world w sh hworld =>
    simp only [State.turned]
    split
    · rw [List.getElem?_map, hu]
      rfl
    · exact hu

/-- A task that a step brought was started or spawned by it. -/
theorem new_of_transition {s' : S.State} {act : S.Action} {j' : S.Job} (h : Transition s act s')
    (hj : s'.job u = some j') (hu : s.tasks.length ≤ u) :
    u = s.tasks.length ∧ (act = .start j' ∨ ∃ t c j o k a, act = .exec t c ∧
      s.tasks[t]? = some ⟨j, some (.op o k)⟩ ∧ S.spawn o = some j' ∧
      s'.log = (t, ⟨o, a⟩) :: s.log) := by
  have hlt := lt_of_job hj
  cases h with
  | start j sh hstart =>
    cases job_of_begin hj hu
    simp only [State.begin, List.length_append, List.length_singleton] at hlt
    exact ⟨by omega, Or.inl rfl⟩
  | exec t c j o k a sh htask hhandle =>
    obtain ⟨hlen, hspawn⟩ := job_of_advance hj hu
    exact ⟨hlen, Or.inr ⟨t, c, j, o, k, a, rfl, htask, hspawn, rfl⟩⟩
  | drop t j o k htask =>
    simp only [State.dropped, List.length_set] at hlt
    omega
  | world w sh hworld =>
    simp only [State.turned] at hlt
    split at hlt
    · rw [List.length_map] at hlt
      omega
    · omega

end Running

section Adequacy
variable {ok : S.State → S.Action → Prop} {s : S.State} {sh₀ : S.Shared}

/-- What the jobs of a system promise, and what they rely on. -/
structure Contract (S : System E) where
  rely : E.Event → Prop
  guar : S.Job → List E.Event → E.Event → Prop
  post : S.Job → List E.Event → S.Res → Prop
  meets : ∀ j, (S.prog j).Meets rely (guar j) (post j) []

/-- The answers that allowed steps receive satisfy the rely. -/
def Contract.Served (C : Contract S) (ok : S.State → S.Action → Prop) : Prop :=
  ∀ s t c o a sh, ok s (.exec t c) → S.handle s.shared t o c = some (a, sh) → C.rely ⟨o, a⟩

theorem Reach.log_lt (h : Reach S ok (S.init sh₀) s) {t : Nat} {e : E.Event}
    (he : (t, e) ∈ s.log) : t < s.tasks.length := by
  induction h with
  | refl => simp [init] at he
  | step _ _ hstep ih =>
    cases step_cases hstep with
    | start j sh hstart =>
      have := ih he
      simp only [State.begin, List.length_append, List.length_singleton]
      omega
    | exec u c j o k b sh htask hhandle =>
      have hu := (List.getElem?_eq_some_iff.1 htask).1
      simp only [State.advance, List.mem_cons, Prod.mk.injEq, List.length_append,
        List.length_set] at he ⊢
      rcases he with ⟨rfl, _⟩ | he
      · omega
      · have := ih he
        omega
    | drop u j o k htask => simpa [State.dropped] using ih he
    | world w sh hworld =>
      simp only [State.turned]
      split
      · simpa using ih he
      · exact ih he

theorem Reach.trace_eq_nil (h : Reach S ok (S.init sh₀) s) {t : Nat}
    (ht : s.tasks.length ≤ t) : trace s.log t = [] := by
  rw [List.eq_nil_iff_forall_not_mem]
  intro e he
  have := h.log_lt (mem_trace.1 he)
  omega

/-- A task that has done something was running before another task began or moved. -/
theorem Reach.running_begin (h : Reach S ok (S.init sh₀) s) {j : S.Job} {sh : S.Shared} {u : Nat}
    (hu : (s.begin j sh).running u = true) (hne : trace s.log u ≠ []) : s.running u = true := by
  obtain ⟨e, he⟩ := List.exists_mem_of_ne_nil _ hne
  exact running_of_begin (h.log_lt (mem_trace.1 he)) hu

theorem Reach.running_advance (h : Reach S ok (S.init sh₀) s) {t u : Nat} {j : S.Job} {o : E.Op}
    {k : E.Ans o → Prog E S.Res} {a : E.Ans o} {sh : S.Shared} (hut : u ≠ t)
    (hu : (s.advance t j o k a sh).running u = true) (hne : trace s.log u ≠ []) :
    s.running u = true := by
  obtain ⟨e, he⟩ := List.exists_mem_of_ne_nil _ hne
  exact running_of_advance (h.log_lt (mem_trace.1 he)) hut hu

theorem trace_advance_self (s : S.State) (t : Nat) (j : S.Job) (o : E.Op)
    (k : E.Ans o → Prog E S.Res) (a : E.Ans o) (sh : S.Shared) :
    trace (s.advance t j o k a sh).log t = ⟨o, a⟩ :: trace s.log t :=
  trace_cons_self _ _ _

theorem trace_advance_ne (s : S.State) {t u : Nat} (h : u ≠ t) (j : S.Job) (o : E.Op)
    (k : E.Ans o → Prog E S.Res) (a : E.Ans o) (sh : S.Shared) :
    trace (s.advance t j o k a sh).log u = trace s.log u :=
  trace_cons_ne h.symm _ _

/-- Every task still meets its contract at its own trace. -/
theorem Reach.meets (C : Contract S) (hserved : C.Served ok) (h : Reach S ok (S.init sh₀) s)
    {t : Nat} {j : S.Job} {p : Prog E S.Res} (ht : s.tasks[t]? = some ⟨j, some p⟩) :
    p.Meets C.rely (C.guar j) (C.post j) (trace s.log t) := by
  induction h generalizing t j p with
  | refl => simp [init] at ht
  | @step s s' a hr hok hstep ih =>
    cases step_cases hstep with
    | start j' sh hstart =>
      simp only [State.begin, List.getElem?_append] at ht
      split at ht
      · exact ih ht
      · rename_i hlen
        obtain ⟨_, hget⟩ := List.getElem?_eq_some_iff.1 ht
        simp only [List.getElem_singleton, Task.ofJob, Task.mk.injEq, Option.some.injEq] at hget
        obtain ⟨rfl, rfl⟩ := hget
        simp only [State.begin]
        rw [hr.trace_eq_nil (by omega)]
        exact C.meets j'
    | exec u c j' o k b sh htask hhandle =>
      have hrely := hserved s u c o b sh hok hhandle
      have hmeets := Prog.meets_op.1 (ih htask) b hrely
      have hu := (List.getElem?_eq_some_iff.1 htask).1
      simp only [State.advance, List.getElem?_append] at ht ⊢
      split at ht
      · rw [List.getElem?_set] at ht
        split at ht
        · rename_i hut
          subst hut
          simp only [Option.some.injEq, Task.mk.injEq] at ht
          obtain ⟨rfl, rfl⟩ := ht
          rw [trace_cons_self]
          exact hmeets.2
        · rename_i hut
          rw [trace_cons_ne hut]
          exact ih ht
      · rename_i hlen
        simp only [List.length_set, List.getElem?_map, Option.map_eq_some_iff] at ht hlen
        obtain ⟨j₁, _, hj₁⟩ := ht
        simp only [Task.ofJob, Task.mk.injEq, Option.some.injEq] at hj₁
        obtain ⟨rfl, rfl⟩ := hj₁
        rw [trace_cons_ne (by omega), hr.trace_eq_nil (by omega)]
        exact C.meets j₁
    | drop u j' o k htask =>
      simp only [State.dropped, List.getElem?_set] at ht ⊢
      split at ht
      · split at ht <;> simp at ht
      · exact ih ht
    | world w sh hworld =>
      simp only [State.turned] at ht ⊢
      split at ht
      · simp only [List.getElem?_map, Option.map_eq_some_iff] at ht
        obtain ⟨k, hk, hkill⟩ := ht
        have hprog := Task.kill_prog (k := k) (p := p) (by rw [hkill])
        have hjob : k.job = j := by rw [← Task.kill_job k, hkill]
        apply ih
        rw [hk, ← hprog, ← hjob]
      · exact ih ht

/-- The moment of a logged event: the state before it, and the step that performed it. -/
theorem Reach.event (h : Reach S ok (S.init sh₀) s) {t : Nat} {o : E.Op} {a : E.Ans o}
    {late early : List (Nat × E.Event)} (hlog : s.log = late ++ (t, ⟨o, a⟩) :: early) :
    ∃ s₁ c j k sh, Reach S ok (S.init sh₀) s₁ ∧ s₁.log = early ∧ ok s₁ (.exec t c) ∧
      s₁.tasks[t]? = some ⟨j, some (.op o k)⟩ ∧ S.handle s₁.shared t o c = some (a, sh) ∧
      Reach S ok (s₁.advance t j o k a sh) s := by
  induction h generalizing late with
  | refl => simp [init] at hlog
  | @step s s' act hr hok hstep ih =>
    cases step_cases hstep with
    | start j sh hstart =>
      obtain ⟨s₁, c, j₁, k, sh₁, h₁, h₂, h₃, h₄, h₅, h₆⟩ := ih hlog
      exact ⟨s₁, c, j₁, k, sh₁, h₁, h₂, h₃, h₄, h₅, h₆.step hok hstep⟩
    | exec u c j o' k b sh htask hhandle =>
      cases late with
      | nil =>
        simp only [State.advance, List.nil_append, List.cons.injEq, Prod.mk.injEq] at hlog
        obtain ⟨⟨rfl, he⟩, rfl⟩ := hlog
        cases he
        exact ⟨s, c, j, k, sh, hr, rfl, hok, htask, hhandle, .refl⟩
      | cons x late =>
        simp only [State.advance, List.cons_append, List.cons.injEq] at hlog
        obtain ⟨s₁, c₁, j₁, k₁, sh₁, h₁, h₂, h₃, h₄, h₅, h₆⟩ := ih hlog.2
        exact ⟨s₁, c₁, j₁, k₁, sh₁, h₁, h₂, h₃, h₄, h₅, h₆.step hok hstep⟩
    | drop u j o' k htask =>
      obtain ⟨s₁, c, j₁, k₁, sh₁, h₁, h₂, h₃, h₄, h₅, h₆⟩ := ih hlog
      exact ⟨s₁, c, j₁, k₁, sh₁, h₁, h₂, h₃, h₄, h₅, h₆.step hok hstep⟩
    | world w sh hworld =>
      obtain ⟨s₁, c, j₁, k₁, sh₁, h₁, h₂, h₃, h₄, h₅, h₆⟩ := ih hlog
      exact ⟨s₁, c, j₁, k₁, sh₁, h₁, h₂, h₃, h₄, h₅, h₆.step hok hstep⟩

theorem job_advance {t : Nat} {j : S.Job} {o : E.Op} {k : E.Ans o → Prog E S.Res} {a : E.Ans o}
    {sh : S.Shared} (htask : s.tasks[t]? = some ⟨j, some (.op o k)⟩) :
    (s.advance t j o k a sh).job t = some j := by
  have ht := (List.getElem?_eq_some_iff.1 htask).1
  simp only [State.job, State.advance]
  rw [List.getElem?_append_left (by simpa using ht)]
  simp [ht]

/-- Every logged operation satisfied the guarantee of its task's job when it was performed. -/
theorem Reach.guar (C : Contract S) (hserved : C.Served ok) (h : Reach S ok (S.init sh₀) s)
    {t : Nat} {e : E.Event} {late early : List (Nat × E.Event)}
    (hlog : s.log = late ++ (t, e) :: early) :
    ∃ j, s.job t = some j ∧ C.rely e ∧ C.guar j (trace early t) e := by
  obtain ⟨o, a⟩ := e
  obtain ⟨s₁, c, j, k, sh, hr, rfl, hok, htask, hhandle, hrest⟩ := h.event hlog
  have hrely := hserved s₁ t c o a sh hok hhandle
  exact ⟨j, hrest.job_mono (job_advance htask), hrely,
    (Prog.meets_op.1 (hr.meets C hserved htask) a hrely).1⟩

/-- A history each of whose events met the guarantee at the history before it. -/
def Kept (guar : List E.Event → E.Event → Prop) : List E.Event → Prop
  | [] => True
  | e :: past => guar past e ∧ Kept guar past

theorem Kept.mono {guar guar' : List E.Event → E.Event → Prop} {l : List E.Event}
    (h : Kept guar l) (himp : ∀ past e, guar past e → guar' past e) : Kept guar' l := by
  induction l with
  | nil => trivial
  | cons e l ih => exact ⟨himp _ _ h.1, ih h.2⟩

theorem Kept.countP_eq_zero {guar : List E.Event → E.Event → Prop} {p : E.Event → Bool}
    {l : List E.Event} (h : Kept guar l) (hp : ∀ past e, guar past e → p e = false) :
    l.countP p = 0 := by
  induction l with
  | nil => rfl
  | cons e l ih =>
    rw [List.countP_cons_of_neg (by simp [hp l e h.1])]
    exact ih h.2

theorem Reach.kept (C : Contract S) (hserved : C.Served ok) (h : Reach S ok (S.init sh₀) s)
    {t : Nat} {j : S.Job} (hj : s.job t = some j) : Kept (C.guar j) (trace s.log t) := by
  have hsplit : ∀ late e early, trace s.log t = late ++ e :: early → C.guar j early e := by
    intro late e early hl
    obtain ⟨late', early', hlog, rfl⟩ := trace_split hl
    obtain ⟨j', hj', _, hg⟩ := h.guar C hserved hlog
    rw [hj] at hj'
    cases hj'
    exact hg
  generalize trace s.log t = l at hsplit
  induction l with
  | nil => trivial
  | cons e l ih =>
    refine ⟨hsplit [] e l rfl, ih fun late e' early hl => ?_⟩
    exact hsplit (e :: late) e' early (by rw [hl, List.cons_append])

/-- The induction over runs, once: an invariant that every kind of step preserves. -/
theorem Reach.invariant (I : S.State → Prop) (h : Reach S ok (S.init sh₀) s)
    (hinit : I (S.init sh₀))
    (hstep : ∀ s s' a, Reach S ok (S.init sh₀) s → I s → ok s a → Transition s a s' → I s') :
    I s := by
  induction h with
  | refl => exact hinit
  | step hr hok hst ih => exact hstep _ _ _ hr ih hok (step_cases hst)

/-- A fact that holds wherever it was assumed on the way holds on the whole way. -/
theorem Reach.assuming {I : S.State → Prop} {s₀ : S.State} (h : Reach S ok s₀ s)
    (hI : ∀ s, Reach S (fun s a => ok s a ∧ I s) s₀ s → I s) :
    Reach S (fun s a => ok s a ∧ I s) s₀ s := by
  induction h with
  | refl => exact .refl
  | step _ hok hstep ih => exact .step ih ⟨hok, hI _ ih⟩ hstep

end Adequacy
section Counting
variable {ok : S.State → S.Action → Prop} {s : S.State} {sh₀ : S.Shared}

/-- An event that is allowed only while there are none of its kind happens at most once. -/
theorem countP_le_one {p : E.Event → Bool} {l : List E.Event}
    (h : ∀ late e early, l = late ++ e :: early → p e = true → early.countP p = 0) :
    l.countP p ≤ 1 := by
  induction l with
  | nil => simp
  | cons e l ih =>
    by_cases he : p e = true
    · rw [List.countP_cons_of_pos he, h [] e l rfl he]
    · rw [List.countP_cons_of_neg he]
      exact ih fun late e' early hl => h (e :: late) e' early (by rw [hl, List.cons_append])

/-- A weight of events, added up over the log, is added up over the traces. -/
theorem sum_eq_sum_traces (f : Nat → E.Event → Nat) {log : List (Nat × E.Event)} {n : Nat}
    (hlt : ∀ x ∈ log, x.1 < n) :
    (log.map fun x => f x.1 x.2).sum =
      ∑ t ∈ Finset.range n, ((trace log t).map (f t)).sum := by
  induction log with
  | nil => simp
  | cons x log ih =>
    obtain ⟨u, e⟩ := x
    have hu : u ∈ Finset.range n := Finset.mem_range.2 (hlt (u, e) (by simp))
    have hrest : ∀ t ∈ (Finset.range n).erase u,
        ((trace ((u, e) :: log) t).map (f t)).sum = ((trace log t).map (f t)).sum := by
      intro t ht
      rw [trace_cons_ne (Finset.ne_of_mem_erase ht).symm]
    rw [List.map_cons, List.sum_cons, ih fun x hx => hlt x (by simp [hx]),
      ← Finset.add_sum_erase _ _ hu, ← Finset.add_sum_erase _ _ hu, Finset.sum_congr rfl hrest,
      trace_cons_self, List.map_cons, List.sum_cons, Nat.add_assoc]

theorem exists_log_bound (log : List (Nat × E.Event)) : ∃ n, ∀ x ∈ log, x.1 < n := by
  refine ⟨(log.map Prod.fst).sum + 1, fun x hx => ?_⟩
  have := List.single_le_sum (l := log.map Prod.fst) (by simp) x.1 (List.mem_map_of_mem hx)
  omega

theorem sum_le_of_traces {f g : Nat → E.Event → Nat} {log : List (Nat × E.Event)}
    (h : ∀ t, ((trace log t).map (f t)).sum ≤ ((trace log t).map (g t)).sum) :
    (log.map fun x => f x.1 x.2).sum ≤ (log.map fun x => g x.1 x.2).sum := by
  obtain ⟨n, hn⟩ := exists_log_bound log
  rw [sum_eq_sum_traces f hn, sum_eq_sum_traces g hn]
  exact Finset.sum_le_sum fun t _ => h t

/-- Counting over the log is counting over the traces. -/
theorem countP_eq_sum (p : Nat → E.Event → Bool) {log : List (Nat × E.Event)} {n : Nat}
    (hlt : ∀ x ∈ log, x.1 < n) :
    log.countP (fun x => p x.1 x.2) = ∑ t ∈ Finset.range n, (trace log t).countP (p t) := by
  have hcount : ∀ {α : Type} (q : α → Bool) (l : List α),
      l.countP q = (l.map fun a => if q a then 1 else 0).sum := by
    intro α q l
    induction l with
    | nil => rfl
    | cons a l ih => rw [List.countP_cons, List.map_cons, List.sum_cons, ih, Nat.add_comm]
  rw [hcount, sum_eq_sum_traces (fun t e => if p t e then 1 else 0) hlt]
  exact Finset.sum_congr rfl fun t _ => (hcount _ _).symm

theorem countP_le_of_traces {p q : Nat → E.Event → Bool} {log : List (Nat × E.Event)}
    (h : ∀ t, (trace log t).countP (p t) ≤ (trace log t).countP (q t)) :
    log.countP (fun x => p x.1 x.2) ≤ log.countP (fun x => q x.1 x.2) := by
  obtain ⟨n, hn⟩ := exists_log_bound log
  rw [countP_eq_sum p hn, countP_eq_sum q hn]
  exact Finset.sum_le_sum fun t _ => h t

/-- If each task performs a `p` only while it has more `q` than `p` behind it, then there are
never more of the former than of the latter. -/
theorem Reach.countP_le (C : Contract S) (hserved : C.Served ok) (h : Reach S ok (S.init sh₀) s)
    {p q : E.Event → Bool}
    (hguar : ∀ j past e, C.guar j past e → p e = true → past.countP p < past.countP q) :
    s.log.countP (p ·.2) ≤ s.log.countP (q ·.2) := by
  apply countP_le_of_traces (p := fun _ => p) (q := fun _ => q)
  intro t
  have hsplit : ∀ late e early, trace s.log t = late ++ e :: early → p e = true →
      early.countP p < early.countP q := by
    intro late e early hl hp
    obtain ⟨late', early', hlog, rfl⟩ := trace_split hl
    obtain ⟨j, _, _, hg⟩ := h.guar C hserved hlog
    exact hguar j _ e hg hp
  generalize trace s.log t = l at hsplit
  induction l with
  | nil => simp
  | cons e l ih =>
    have hl := ih fun late e' early hl => hsplit (e :: late) e' early (by rw [hl, List.cons_append])
    rw [List.countP_cons, List.countP_cons]
    by_cases hp : p e = true
    · have := hsplit [] e l rfl hp
      rw [if_pos hp]
      omega
    · rw [if_neg hp]
      omega

end Counting

section Totals
variable {ok : S.State → S.Action → Prop} {s : S.State} {sh₀ : S.Shared}

/-- A quantity of jobs and their histories, added up over all tasks. -/
def State.total (s : S.State) (F : S.Job → List E.Event → Nat) : Nat :=
  ∑ t ∈ Finset.range s.tasks.length, (s.job t).elim 0 fun j => F j (trace s.log t)

@[simp] theorem total_init (F : S.Job → List E.Event → Nat) : (S.init sh₀).total F = 0 := rfl

theorem total_congr_of_job {F : S.Job → List E.Event → Nat} {s s' : S.State}
    (hlen : s'.tasks.length = s.tasks.length)
    (hjob : ∀ t < s.tasks.length, s'.job t = s.job t)
    (hlog : ∀ t < s.tasks.length, trace s'.log t = trace s.log t) : s'.total F = s.total F := by
  unfold State.total
  rw [hlen]
  refine Finset.sum_congr rfl fun t ht => ?_
  rw [hjob t (Finset.mem_range.1 ht), hlog t (Finset.mem_range.1 ht)]

theorem total_append {F : S.Job → List E.Event → Nat} {s' : S.State} (js : List S.Job)
    (htasks : s'.tasks = s.tasks ++ js.map (Task.ofJob S)) (hlog : s'.log = s.log)
    (hnil : ∀ t, s.tasks.length ≤ t → trace s.log t = []) (hF : ∀ j, F j [] = 0) :
    s'.total F = s.total F := by
  have hsplit : s'.total F = (∑ t ∈ Finset.range s.tasks.length,
      (s'.job t).elim 0 fun j => F j (trace s'.log t)) +
      ∑ t ∈ Finset.range js.length, (s'.job (s.tasks.length + t)).elim 0 fun j =>
        F j (trace s'.log (s.tasks.length + t)) := by
    rw [State.total, htasks, List.length_append, List.length_map, Finset.sum_range_add]
  have hnew : ∑ t ∈ Finset.range js.length, (s'.job (s.tasks.length + t)).elim 0 (fun j =>
      F j (trace s'.log (s.tasks.length + t))) = 0 := by
    refine Finset.sum_eq_zero fun t _ => ?_
    rw [hlog, hnil _ (Nat.le_add_right _ _)]
    cases s'.job (s.tasks.length + t) with
    | none => rfl
    | some j => exact hF j
  rw [hsplit, hnew, Nat.add_zero]
  refine Finset.sum_congr rfl fun t ht => ?_
  have hlt := Finset.mem_range.1 ht
  rw [hlog, State.job, State.job, htasks, List.getElem?_append_left hlt]

theorem Reach.total_begin (h : Reach S ok (S.init sh₀) s) {F : S.Job → List E.Event → Nat}
    (hF : ∀ j, F j [] = 0) (j : S.Job) (sh : S.Shared) : (s.begin j sh).total F = s.total F :=
  total_append [j] rfl rfl (fun _ => h.trace_eq_nil) hF

/-- An operation changes the term of its own task. -/
theorem Reach.total_advance (h : Reach S ok (S.init sh₀) s) {F : S.Job → List E.Event → Nat}
    (hF : ∀ j, F j [] = 0) {t : Nat} {j : S.Job} {o : E.Op} {k : E.Ans o → Prog E S.Res}
    (htask : s.tasks[t]? = some ⟨j, some (.op o k)⟩) (a : E.Ans o) (sh : S.Shared) :
    (s.advance t j o k a sh).total F + F j (trace s.log t) =
      s.total F + F j (⟨o, a⟩ :: trace s.log t) := by
  have ht := (List.getElem?_eq_some_iff.1 htask).1
  -- the tasks that were there before, and then the spawned ones
  let mid : S.State := ⟨sh, s.tasks.set t ⟨j, some (k a)⟩, (t, ⟨o, a⟩) :: s.log⟩
  have hspawn : (s.advance t j o k a sh).total F = mid.total F := by
    refine total_append (s := mid) (S.spawn o).toList rfl rfl ?_ hF
    intro u hu
    have hlen : s.tasks.length ≤ u := by simpa [mid] using hu
    have hne : t ≠ u := by omega
    rw [trace_cons_ne hne]
    exact h.trace_eq_nil hlen
  have hjob : ∀ u, mid.job u = s.job u := by
    intro u
    simp only [mid, State.job, List.getElem?_set]
    split
    · rename_i hu
      subst hu
      simp [ht, (List.getElem?_eq_some_iff.1 htask).2]
    · rfl
  have hmem : t ∈ Finset.range s.tasks.length := Finset.mem_range.2 ht
  have hrest : ∀ u ∈ (Finset.range s.tasks.length).erase t,
      ((mid.job u).elim 0 fun j => F j (trace mid.log u)) =
        (s.job u).elim 0 fun j => F j (trace s.log u) := by
    intro u hu
    rw [hjob, trace_cons_ne (Finset.ne_of_mem_erase hu).symm]
  have hself : s.job t = some j := by simp [job_of_task htask]
  rw [hspawn, State.total, State.total]
  simp only [show mid.tasks.length = s.tasks.length by simp [mid]]
  rw [← Finset.add_sum_erase _ _ hmem, ← Finset.add_sum_erase _ _ hmem,
    Finset.sum_congr rfl hrest, hjob, hself, trace_cons_self]
  simp only [Option.elim_some]
  omega

theorem total_dropped {F : S.Job → List E.Event → Nat} {t : Nat} {j : S.Job}
    (hjob : s.job t = some j) : (s.dropped t j).total F = s.total F := by
  refine total_congr_of_job (by simp [State.dropped]) (fun u _ => ?_) fun _ _ => rfl
  simp only [State.dropped, State.job, List.getElem?_set]
  split
  · rename_i hu
    subst hu
    obtain ⟨p, hp⟩ := job_eq_some.1 hjob
    obtain ⟨hlt, hget⟩ := List.getElem?_eq_some_iff.1 hp
    simp [hlt, hget]
  · rfl

theorem total_turned {F : S.Job → List E.Event → Nat} (w : S.World) (sh : S.Shared) :
    (s.turned w sh).total F = s.total F := by
  refine total_congr_of_job ?_ (fun u _ => ?_) fun _ _ => rfl
  · simp only [State.turned]
    split <;> simp
  · simp only [State.turned, State.job]
    split
    · rw [List.getElem?_map]
      cases s.tasks[u]? <;> simp
    · rfl

end Totals
end System
end Effects
