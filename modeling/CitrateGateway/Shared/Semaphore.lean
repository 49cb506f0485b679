import Mathlib.Data.List.Basic
import Mathlib.Data.List.Nodup

/-!
# A fair semaphore

Permits are given out in the order in which they are asked for. A permit that comes back goes to
whoever has waited longest, and becomes available when nobody waits; so nobody waits while a
permit is available.
-/

namespace Effects
set_option autoImplicit false

structure Semaphore (T : Type) where
  available : Nat
  holders : List T
  /-- Those who wait, the one who asked first at the head. -/
  queue : List T
  idle : queue ≠ [] → available = 0

namespace Semaphore
variable {T : Type} [DecidableEq T]

section Operations

def new (permits : Nat) : Semaphore T := ⟨permits, [], [], fun h => absurd rfl h⟩

omit [DecidableEq T] in
theorem idle_of_take {s : Semaphore T} (h : s.available ≠ 0) : s.queue = [] := by
  by_contra hqueue
  exact h (s.idle hqueue)

def take (s : Semaphore T) (t : T) (h : s.available ≠ 0) : Semaphore T where
  available := s.available - 1
  holders := t :: s.holders
  queue := s.queue
  idle := fun hqueue => absurd (idle_of_take h) hqueue

/-- A permit, if one is available at once. -/
def tryAcquire (s : Semaphore T) (t : T) : Option (Semaphore T) :=
  if h : s.available ≠ 0 then some (s.take t h) else none

/-- The first poll of an acquisition: a permit, or a place in the queue. -/
def request (s : Semaphore T) (t : T) : Semaphore T :=
  if h : s.available ≠ 0 then s.take t h
  else { s with queue := s.queue ++ [t], idle := fun _ => Decidable.not_not.1 h }

/-- A permit that came back. -/
def restore (s : Semaphore T) : Semaphore T :=
  match hqueue : s.queue with
  | [] => { s with available := s.available + 1, idle := fun h => absurd hqueue h }
  | t :: queue =>
    { s with
      holders := t :: s.holders
      queue := queue
      idle := fun _ => s.idle (by rw [hqueue]; exact List.cons_ne_nil _ _) }

/-- Whoever leaves gives up its place in the queue and its permit. -/
def leave (s : Semaphore T) (t : T) : Semaphore T :=
  let waiting : Semaphore T :=
    { s with
      queue := s.queue.erase t
      idle := fun h => s.idle fun hnil => h (by rw [hnil]; rfl) }
  if t ∈ s.holders then restore { waiting with holders := s.holders.erase t } else waiting

def capacity (s : Semaphore T) : Nat := s.available + s.holders.length

end Operations

section Steps
variable {s s' : Semaphore T} {t : T}

omit [DecidableEq T] in
@[simp] theorem capacity_new (permits : Nat) : (new permits : Semaphore T).capacity = permits := rfl

omit [DecidableEq T] in
theorem tryAcquire_eq_some (h : s.tryAcquire t = some s') :
    s.available ≠ 0 ∧ s'.available + 1 = s.available ∧ s'.holders = t :: s.holders ∧
      s'.queue = s.queue := by
  unfold tryAcquire at h
  split at h
  · rename_i havail
    cases h
    refine ⟨havail, ?_, rfl, rfl⟩
    simp only [take]
    omega
  · cases h

omit [DecidableEq T] in
/-- Whoever asks has a permit afterwards or is the last of those who wait. -/
theorem request_cases (s : Semaphore T) (t : T) :
    (s.available ≠ 0 ∧ (s.request t).available + 1 = s.available ∧
        (s.request t).holders = t :: s.holders ∧ (s.request t).queue = []) ∨
      (s.available = 0 ∧ (s.request t).available = 0 ∧ (s.request t).holders = s.holders ∧
        (s.request t).queue = s.queue ++ [t]) := by
  unfold request
  split
  · rename_i h
    have hqueue : s.queue = [] := idle_of_take h
    refine Or.inl ⟨h, ?_, rfl, hqueue⟩
    simp only [take]
    omega
  · rename_i h
    exact Or.inr ⟨Decidable.not_not.1 h, Decidable.not_not.1 h, rfl, rfl⟩

omit [DecidableEq T] in
theorem restore_cases (s : Semaphore T) :
    (s.queue = [] ∧ s.restore.available = s.available + 1 ∧ s.restore.holders = s.holders ∧
        s.restore.queue = []) ∨
      ∃ t queue, s.queue = t :: queue ∧ s.restore.available = s.available ∧
        s.restore.holders = t :: s.holders ∧ s.restore.queue = queue := by
  unfold restore
  split
  · rename_i hqueue
    exact Or.inl ⟨hqueue, rfl, rfl, hqueue⟩
  · rename_i t queue hqueue
    exact Or.inr ⟨t, queue, hqueue, rfl, rfl, rfl⟩

/-- Whoever leaves without a permit only leaves the queue; a permit passes to the head of the
queue, or becomes available. -/
theorem leave_cases (s : Semaphore T) (t : T) :
    (t ∉ s.holders ∧ (s.leave t).available = s.available ∧ (s.leave t).holders = s.holders ∧
        (s.leave t).queue = s.queue.erase t) ∨
      (t ∈ s.holders ∧ s.queue.erase t = [] ∧ (s.leave t).available = s.available + 1 ∧
        (s.leave t).holders = s.holders.erase t ∧ (s.leave t).queue = []) ∨
      (t ∈ s.holders ∧ ∃ u queue, s.queue.erase t = u :: queue ∧
        (s.leave t).available = s.available ∧ (s.leave t).holders = u :: s.holders.erase t ∧
        (s.leave t).queue = queue) := by
  unfold leave
  by_cases h : t ∈ s.holders
  · simp only [if_pos h]
    rcases restore_cases _ with ⟨hqueue, havail, hholders, hempty⟩ | ⟨u, queue, hqueue, hrest⟩
    · exact Or.inr (Or.inl ⟨h, hqueue, havail, hholders, hempty⟩)
    · exact Or.inr (Or.inr ⟨h, u, queue, hqueue, hrest⟩)
  · rw [if_neg h]
    exact Or.inl ⟨h, rfl, rfl, rfl⟩

omit [DecidableEq T] in
theorem capacity_tryAcquire (h : s.tryAcquire t = some s') : s'.capacity = s.capacity := by
  obtain ⟨-, havail, hholders, -⟩ := tryAcquire_eq_some h
  rw [capacity, capacity, hholders, List.length_cons]
  omega

omit [DecidableEq T] in
theorem capacity_request (s : Semaphore T) (t : T) : (s.request t).capacity = s.capacity := by
  rcases request_cases s t with ⟨-, havail, hholders, -⟩ | ⟨hfull, havail, hholders, -⟩
  · rw [capacity, capacity, hholders, List.length_cons]
    omega
  · rw [capacity, capacity, hholders, havail, hfull]

theorem capacity_leave (s : Semaphore T) (t : T) : (s.leave t).capacity = s.capacity := by
  have herase : t ∈ s.holders → (s.holders.erase t).length + 1 = s.holders.length := by
    intro h
    rw [List.length_erase_of_mem h]
    have := List.length_pos_of_mem h
    omega
  rcases leave_cases s t with ⟨-, havail, hholders, -⟩ | ⟨hmem, -, havail, hholders, -⟩ |
    ⟨hmem, u, queue, -, havail, hholders, -⟩
  · rw [capacity, capacity, havail, hholders]
  · have := herase hmem
    rw [capacity, capacity, havail, hholders]
    omega
  · have := herase hmem
    rw [capacity, capacity, havail, hholders, List.length_cons]
    omega

end Steps

section Members
variable {s s' : Semaphore T} {t : T}

omit [DecidableEq T] in
/-- Those who hold a permit, and then those who wait for one. -/
def members (s : Semaphore T) : List T := s.holders ++ s.queue

omit [DecidableEq T] in
theorem members_tryAcquire (h : s.tryAcquire t = some s') : s'.members = t :: s.members := by
  obtain ⟨-, -, hholders, hqueue⟩ := tryAcquire_eq_some h
  rw [members, members, hholders, hqueue, List.cons_append]

omit [DecidableEq T] in
theorem members_request (s : Semaphore T) (t : T) : (s.request t).members.Perm (t :: s.members) := by
  rcases request_cases s t with ⟨havail, -, hholders, hqueue⟩ | ⟨-, -, hholders, hqueue⟩
  · rw [members, members, hholders, hqueue, idle_of_take havail, List.cons_append]
  · rw [members, members, hholders, hqueue, ← List.append_assoc]
    exact List.perm_append_singleton t _

/-- Where nobody is there twice, whoever leaves is gone and everybody else is still there. -/
theorem members_leave (hnodup : s.members.Nodup) (t : T) :
    (s.leave t).members.Perm (s.members.erase t) := by
  have hapart : t ∈ s.holders → s.queue.erase t = s.queue := by
    intro hheld
    apply List.erase_of_not_mem
    intro hwaits
    exact (List.nodup_append.1 hnodup).2.2 t hheld t hwaits rfl
  rcases leave_cases s t with ⟨hnot, -, hholders, hqueue⟩ |
    ⟨hheld, hempty, -, hholders, hqueue⟩ | ⟨hheld, u, queue, hnext, -, hholders, hqueue⟩
  · rw [members, members, hholders, hqueue, List.erase_append_right _ hnot]
  · rw [members, members, hholders, hqueue, List.erase_append_left _ hheld, ← hapart hheld, hempty]
  · rw [members, members, hholders, hqueue, List.erase_append_left _ hheld, ← hapart hheld, hnext]
    exact List.perm_middle.symm

omit [DecidableEq T] in
theorem mem_request {u : T} : u ∈ (s.request t).members ↔ u = t ∨ u ∈ s.members := by
  rw [(members_request s t).mem_iff, List.mem_cons]

theorem mem_leave (hnodup : s.members.Nodup) {u : T} :
    u ∈ (s.leave t).members ↔ u ≠ t ∧ u ∈ s.members := by
  rw [(members_leave hnodup t).mem_iff, hnodup.mem_erase_iff]

omit [DecidableEq T] in
theorem nodup_tryAcquire (hnodup : s.members.Nodup) (hnew : t ∉ s.members)
    (h : s.tryAcquire t = some s') : s'.members.Nodup := by
  rw [members_tryAcquire h]
  exact List.nodup_cons.2 ⟨hnew, hnodup⟩

omit [DecidableEq T] in
theorem nodup_request (hnodup : s.members.Nodup) (hnew : t ∉ s.members) :
    (s.request t).members.Nodup :=
  (members_request s t).nodup_iff.2 (List.nodup_cons.2 ⟨hnew, hnodup⟩)

theorem nodup_leave (hnodup : s.members.Nodup) (t : T) : (s.leave t).members.Nodup :=
  (members_leave hnodup t).nodup_iff.2 (hnodup.sublist List.erase_sublist)

theorem holders_leave_subset (s : Semaphore T) (t : T) {u : T} (h : u ∈ (s.leave t).holders) :
    u ∈ s.members := by
  rcases leave_cases s t with ⟨-, -, hholders, -⟩ | ⟨-, -, -, hholders, -⟩ |
    ⟨-, v, queue, hnext, -, hholders, -⟩
  · rw [hholders] at h
    exact List.mem_append_left _ h
  · rw [hholders] at h
    exact List.mem_append_left _ (List.mem_of_mem_erase h)
  · rw [hholders] at h
    rcases List.mem_cons.1 h with rfl | hold
    · have hfirst : u ∈ s.queue.erase t := by
        rw [hnext]
        exact List.mem_cons_self
      exact List.mem_append_right _ (List.mem_of_mem_erase hfirst)
    · exact List.mem_append_left _ (List.mem_of_mem_erase hold)

/-- A permit is kept until its holder leaves. -/
theorem holders_leave_of_ne {u : T} (hne : u ≠ t) (h : u ∈ s.holders) : u ∈ (s.leave t).holders := by
  have hkept : u ∈ s.holders.erase t := (List.mem_erase_of_ne hne).2 h
  rcases leave_cases s t with ⟨-, -, hholders, -⟩ | ⟨-, -, -, hholders, -⟩ |
    ⟨-, v, queue, -, -, hholders, -⟩
  · rwa [hholders]
  · rwa [hholders]
  · rw [hholders]
    exact List.mem_cons_of_mem _ hkept

theorem queue_leave_subset (s : Semaphore T) (t : T) {u : T} (h : u ∈ (s.leave t).queue) :
    u ∈ s.queue := by
  rcases leave_cases s t with ⟨-, -, -, hqueue⟩ | ⟨-, -, -, -, hqueue⟩ | ⟨-, v, queue, hnext, -, -, hqueue⟩
  · rw [hqueue] at h
    exact List.mem_of_mem_erase h
  · rw [hqueue] at h
    cases h
  · rw [hqueue] at h
    have hbehind : u ∈ s.queue.erase t := by
      rw [hnext]
      exact List.mem_cons_of_mem _ h
    exact List.mem_of_mem_erase hbehind

omit [DecidableEq T] in
theorem length_holders_le (s : Semaphore T) : s.holders.length ≤ s.capacity :=
  Nat.le_add_left _ _

end Members

section Tracking
variable {s s' : Semaphore T} {t : T} {p q : T → Prop}

omit [DecidableEq T] in
/-- Exactly those with the property are there, each of them once. -/
structure Tracks (s : Semaphore T) (p : T → Prop) : Prop where
  nodup : s.members.Nodup
  mem : ∀ t, t ∈ s.members ↔ p t

omit [DecidableEq T] in
theorem tracks_new (permits : Nat) : (new permits : Semaphore T).Tracks fun _ => False where
  nodup := List.nodup_nil
  mem _ := ⟨fun h => absurd h List.not_mem_nil, False.elim⟩

omit [DecidableEq T] in
theorem Tracks.congr (h : s.Tracks p) (hiff : ∀ t, p t ↔ q t) : s.Tracks q where
  nodup := h.nodup
  mem t := (h.mem t).trans (hiff t)

omit [DecidableEq T] in
theorem Tracks.tryAcquire (h : s.Tracks p) (hnew : ¬ p t) (hsome : s.tryAcquire t = some s') :
    s'.Tracks fun u => u = t ∨ p u where
  nodup := nodup_tryAcquire h.nodup (fun hmem => hnew ((h.mem t).1 hmem)) hsome
  mem u := by
    rw [members_tryAcquire hsome, List.mem_cons, h.mem]

omit [DecidableEq T] in
theorem Tracks.request (h : s.Tracks p) (hnew : ¬ p t) :
    (s.request t).Tracks fun u => u = t ∨ p u where
  nodup := nodup_request h.nodup fun hmem => hnew ((h.mem t).1 hmem)
  mem u := by
    rw [mem_request, h.mem]

theorem Tracks.leave (h : s.Tracks p) (t : T) : (s.leave t).Tracks fun u => u ≠ t ∧ p u where
  nodup := nodup_leave h.nodup t
  mem u := by
    rw [mem_leave h.nodup, h.mem]

omit [DecidableEq T] in
/-- Whoever is there can be counted. -/
theorem Tracks.length_eq (h : s.Tracks p) {l : List T} (hnodup : l.Nodup)
    (hmem : ∀ t, t ∈ l ↔ p t) : l.length = s.members.length := by
  apply List.Perm.length_eq
  rw [List.perm_ext_iff_of_nodup hnodup h.nodup]
  intro t
  rw [hmem, h.mem]

omit [DecidableEq T] in
theorem queue_tryAcquire (h : s.tryAcquire t = some s') : s'.queue = [] := by
  obtain ⟨havail, -, -, hqueue⟩ := tryAcquire_eq_some h
  rw [hqueue, idle_of_take havail]

theorem queue_leave_of_nil (h : s.queue = []) (t : T) : (s.leave t).queue = [] := by
  have herase : s.queue.erase t = [] := by
    rw [h]
    rfl
  rcases leave_cases s t with ⟨-, -, -, hqueue⟩ | ⟨-, -, -, -, hqueue⟩ | ⟨-, u, queue, hnext, -⟩
  · rw [hqueue, herase]
  · exact hqueue
  · rw [herase] at hnext
    cases hnext

omit [DecidableEq T] in
theorem mem_holders_request {u : T} (h : u ∈ s.holders) : u ∈ (s.request t).holders := by
  rcases request_cases s t with ⟨-, -, hholders, -⟩ | ⟨-, -, hholders, -⟩
  · rw [hholders]
    exact List.mem_cons_of_mem _ h
  · rwa [hholders]

omit [DecidableEq T] in
theorem tryAcquire_eq_none : s.tryAcquire t = none ↔ s.available = 0 := by
  unfold tryAcquire
  split
  · rename_i h
    simp [h]
  · rename_i h
    simp [Decidable.not_not.1 h]

end Tracking

section Order
variable {s s' : Semaphore T} {t : T} {r : T → T → Prop}

omit [DecidableEq T] in
/-- The queue stands in the order `r`, and whoever holds a permit comes before whoever waits. -/
structure Ordered (r : T → T → Prop) (s : Semaphore T) : Prop where
  queue : s.queue.Pairwise r
  holders : ∀ h ∈ s.holders, ∀ w ∈ s.queue, r h w

omit [DecidableEq T] in
theorem ordered_new (permits : Nat) : Ordered r (new permits : Semaphore T) :=
  ⟨List.Pairwise.nil, fun _ h => by cases h⟩

omit [DecidableEq T] in
theorem Ordered.mono {r' : T → T → Prop} (h : Ordered r s)
    (himp : ∀ u ∈ s.members, ∀ w ∈ s.queue, r u w → r' u w) : Ordered r' s where
  queue := by
    refine h.queue.imp_of_mem fun hu hw hr => ?_
    exact himp _ (List.mem_append_right _ hu) _ hw hr
  holders u hu w hw := himp u (List.mem_append_left _ hu) w hw (h.holders u hu w hw)

omit [DecidableEq T] in
theorem Ordered.tryAcquire (h : s.tryAcquire t = some s') : Ordered r s' := by
  obtain ⟨havail, -, -, hqueue⟩ := tryAcquire_eq_some h
  rw [idle_of_take havail] at hqueue
  constructor
  · rw [hqueue]
    exact List.Pairwise.nil
  · intro u hu w hw
    rw [hqueue] at hw
    cases hw

omit [DecidableEq T] in
/-- Whoever asks comes after everybody who is there. -/
theorem Ordered.request (h : Ordered r s) (hlast : ∀ u ∈ s.members, r u t) :
    Ordered r (s.request t) := by
  rcases request_cases s t with ⟨-, -, -, hqueue⟩ | ⟨-, -, hholders, hqueue⟩
  · constructor
    · rw [hqueue]
      exact List.Pairwise.nil
    · intro u hu w hw
      rw [hqueue] at hw
      cases hw
  · constructor
    · rw [hqueue, List.pairwise_append]
      refine ⟨h.queue, List.pairwise_singleton _ _, fun u hu w hw => ?_⟩
      rw [List.mem_singleton.1 hw]
      exact hlast u (List.mem_append_right _ hu)
    · intro u hu w hw
      rw [hholders] at hu
      rw [hqueue] at hw
      rcases List.mem_append.1 hw with hw | hw
      · exact h.holders u hu w hw
      · rw [List.mem_singleton.1 hw]
        exact hlast u (List.mem_append_left _ hu)

/-- A permit that comes back goes to the head of the queue. -/
theorem Ordered.leave (h : Ordered r s) (t : T) : Ordered r (s.leave t) := by
  have hqueue := h.queue.sublist (List.erase_sublist (a := t))
  rcases leave_cases s t with ⟨-, -, hholders, hwaiting⟩ | ⟨-, -, -, -, hwaiting⟩ |
    ⟨-, v, queue, hnext, -, hholders, hwaiting⟩
  · constructor
    · rwa [hwaiting]
    · intro u hu w hw
      rw [hholders] at hu
      rw [hwaiting] at hw
      exact h.holders u hu w (List.mem_of_mem_erase hw)
  · constructor
    · rw [hwaiting]
      exact List.Pairwise.nil
    · intro u hu w hw
      rw [hwaiting] at hw
      cases hw
  · rw [hnext, List.pairwise_cons] at hqueue
    constructor
    · rw [hwaiting]
      exact hqueue.2
    · intro u hu w hw
      rw [hholders] at hu
      rw [hwaiting] at hw
      rcases List.mem_cons.1 hu with rfl | hu
      · exact hqueue.1 w hw
      · have hbehind : w ∈ s.queue.erase t := by
          rw [hnext]
          exact List.mem_cons_of_mem _ hw
        exact h.holders u (List.mem_of_mem_erase hu) w (List.mem_of_mem_erase hbehind)

end Order
end Semaphore
end Effects
