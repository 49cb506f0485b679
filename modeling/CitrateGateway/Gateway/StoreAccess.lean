import CitrateGateway.Gateway.KeyStore

/-!
# What one access of the store does

Every answer comes with the state it leaves. A lock has one holder: a call that took a lock and
did not give it up is the one the store knows as its holder, whatever the other calls do.
-/

namespace Gateway.KeyStore
set_option autoImplicit false
open Words Effects Durable

section Steps
variable {hashKeyId : String → String}

/-- Everything one access can do. -/
inductive Accessed (hashKeyId : String → String) (sh : Shared) (t : Nat) :
    Event → Shared → Prop where
  | read (k : RowKey) : Accessed hashKeyId sh t ⟨.get k, .ok (sh.store.rows.get k)⟩ sh
  | found (k : RowKey) :
      Accessed hashKeyId sh t ⟨.contains k, .ok (sh.store.rows.get k).isSome⟩ sh
  | put (row : Row) : Accessed hashKeyId sh t ⟨.put row, .ok ()⟩
      { sh with store := { sh.store with rows := sh.store.rows.put row } }
  | putSynced (row : Row) : Accessed hashKeyId sh t ⟨.putSynced row, .ok ()⟩
      { sh with store := { sh.store with rows := sh.store.rows.commit [row] } }
  | writeBatch (group : List Row) : Accessed hashKeyId sh t ⟨.writeBatch group, .ok ()⟩
      { sh with store := { sh.store with rows := sh.store.rows.commit group } }
  | scanned : Accessed hashKeyId sh t ⟨.scanBatches, .ok (batchRows sh.store.rows)⟩ sh
  | budgetsScanned (h : String) :
      Accessed hashKeyId sh t ⟨.scanBudgets h, .ok (budgetsOf sh.store.rows h)⟩ sh
  | locked (h : String) (hfree : sh.holder h = none) : Accessed hashKeyId sh t ⟨.lock h, ()⟩
      { sh with holder := Function.update sh.holder h (some t) }
  | unlocked (h : String) : Accessed hashKeyId sh t ⟨.unlock h, ()⟩
      { sh with holder := Function.update sh.holder h none }
  | poolLocked (hfree : sh.poolHolder = none) : Accessed hashKeyId sh t ⟨.lockPool, ()⟩
      { sh with poolHolder := some t }
  | poolUnlocked : Accessed hashKeyId sh t ⟨.unlockPool, ()⟩ { sh with poolHolder := none }
  | minted (u : String) (hfresh : sh.store.fresh (tokenHash hashKeyId u) = true) :
      Accessed hashKeyId sh t ⟨.newUuid, u⟩
        { sh with store :=
          { sh.store with issued := tokenHash hashKeyId u :: sh.store.issued } }
  | clock (x : UInt64) : Accessed hashKeyId sh t ⟨.nowSecs, x⟩ sh
  | rated (h : String) (now : UInt64) (quotaRps : UInt32) :
      Accessed hashKeyId sh t
        ⟨.checkRate h now quotaRps, (RateWindow.check (sh.rate h) now quotaRps).1⟩
        { sh with
          rate := Function.update sh.rate h
            (some (RateWindow.check (sh.rate h) now quotaRps).2) }
  | poolRead : Accessed hashKeyId sh t ⟨.memberPoolDaily, sh.memberPoolDaily⟩ sh
  | poolSet (cap : UInt64) : Accessed hashKeyId sh t ⟨.setMemberPoolDaily cap, ()⟩
      { sh with memberPoolDaily := cap }
  | dated (d : String) : Accessed hashKeyId sh t ⟨.today, d⟩ sh
  | waiting (x : UInt64) : Accessed hashKeyId sh t ⟨.secondsUntilNextUtcDay, x⟩ sh
  | getFailed (k : RowKey) (e : ValErr) : Accessed hashKeyId sh t ⟨.get k, .error e⟩ sh
  | containsFailed (k : RowKey) (e : ValErr) :
      Accessed hashKeyId sh t ⟨.contains k, .error e⟩ sh
  | putFailed (row : Row) (e : ValErr) : Accessed hashKeyId sh t ⟨.put row, .error e⟩ sh
  | putSyncedFailed (row : Row) (e : ValErr) :
      Accessed hashKeyId sh t ⟨.putSynced row, .error e⟩ sh
  | writeBatchFailed (group : List Row) (e : ValErr) :
      Accessed hashKeyId sh t ⟨.writeBatch group, .error e⟩ sh
  | scanFailed (e : ValErr) : Accessed hashKeyId sh t ⟨.scanBatches, .error e⟩ sh
  | budgetScanFailed (h : String) (e : ValErr) :
      Accessed hashKeyId sh t ⟨.scanBudgets h, .error e⟩ sh

theorem handle_cases {sh sh' : Shared} {t : Nat} {o : Op} {c : Input} {a : o.Ans}
    (h : handle hashKeyId sh t o c = some (a, sh')) :
    Accessed hashKeyId sh t ⟨o, a⟩ sh' := by
  cases o with
  | lock hash =>
    cases c <;> simp only [handle, Store.access, Option.map_none, reduceCtorEq] at h
    split at h
    · rename_i hfree
      cases h
      exact .locked hash hfree
    · cases h
  | lockPool =>
    cases c <;> simp only [handle, Store.access, Option.map_none, reduceCtorEq] at h
    split at h
    · rename_i hfree
      cases h
      exact .poolLocked hfree
    · cases h
  | newUuid =>
    cases c <;> simp only [handle, Store.access, Option.map_none, reduceCtorEq] at h
    split at h
    · rename_i u hfresh
      cases h
      exact .minted u hfresh
    · cases h
  | _ => cases c <;> cases h <;> constructor

theorem nonempty_ans (o : Op) : Nonempty o.Ans := by
  cases o <;> first
    | exact ⟨.error (.db "")⟩ | exact ⟨()⟩ | exact ⟨""⟩ | exact ⟨(0 : UInt64)⟩ | exact ⟨true⟩

theorem get_of_accessed {sh sh' : Shared} {t : Nat} {k : RowKey} {v : Option (RowVal k)}
    (h : Accessed hashKeyId sh t ⟨.get k, .ok v⟩ sh') : sh.store.rows.get k = v := by
  generalize he : (⟨.get k, .ok v⟩ : Event) = e at h
  cases h with
  | read k' =>
    obtain ⟨hk, hv⟩ := Sigma.mk.inj he
    cases hk
    exact (Except.ok.inj (eq_of_heq hv)).symm
  | _ => cases he

theorem issued_mono {sh sh' : Shared} {t : Nat} {e : Event} {h : String}
    (hacc : Accessed hashKeyId sh t e sh') (hmem : h ∈ sh.store.issued) :
    h ∈ sh'.store.issued := by
  cases hacc with
  | minted u hfresh => exact List.mem_cons_of_mem _ hmem
  | _ => exact hmem

theorem shared_of_read {sh sh' : Shared} {t : Nat} {k : RowKey} {a : Op.Ans (.get k)}
    (hacc : Accessed hashKeyId sh t ⟨.get k, a⟩ sh') : sh' = sh := by
  generalize he : (⟨.get k, a⟩ : Event) = e at hacc
  cases hacc <;> first | rfl | cases he

end Steps

section Locks

inductive LockName where
  | key (h : String)
  | pool
  deriving DecidableEq

/-- How often the call took the lock without giving it up again. -/
def depth (n : LockName) : List Event → Nat
  | [] => 0
  | ⟨.lock h, _⟩ :: l => depth n l + if n = .key h then 1 else 0
  | ⟨.unlock h, _⟩ :: l => depth n l - if n = .key h then 1 else 0
  | ⟨.lockPool, _⟩ :: l => depth n l + if n = .pool then 1 else 0
  | ⟨.unlockPool, _⟩ :: l => depth n l - if n = .pool then 1 else 0
  | _ :: l => depth n l

/-- A guard is given up only by the call that has it. -/
def Guarded (past : List Event) (e : Event) : Prop :=
  match e.1 with
  | .unlock h => 0 < depth (.key h) past
  | .unlockPool => 0 < depth .pool past
  | _ => True

def Shared.holderOf (sh : Shared) : LockName → Option Nat
  | .key h => sh.holder h
  | .pool => sh.poolHolder

variable {hashKeyId : String → String} {Job Res : Type} {prog : Job → M Res}
variable {ok : (system hashKeyId prog).State → (system hashKeyId prog).Action → Prop}
variable {rows₀ : Rows} {s : (system hashKeyId prog).State}

variable (hashKeyId prog) in
/-- The runs of the calls on a store opened with the rows. -/
abbrev Run (rows₀ : Rows)
    (ok : (system hashKeyId prog).State → (system hashKeyId prog).Action → Prop) :=
  System.Reach (system hashKeyId prog) ok
    ((system hashKeyId prog).init (Shared.opened rows₀))

/-- Whoever took a lock and runs is its holder, and took it once. -/
structure Held (s : (system hashKeyId prog).State) : Prop where
  holder : ∀ t n, s.running t = true → 0 < depth n (System.trace s.log t) →
    s.shared.holderOf n = some t
  once : ∀ t n, s.running t = true → depth n (System.trace s.log t) ≤ 1

theorem ne_nil_of_depth {n : LockName} {l : List Event} (hl : 0 < depth n l) : l ≠ [] := by
  rintro rfl
  cases hl

section Exec
variable {t : Nat} {j : Job} {o : Op} {k : o.Ans → M Res} {a : o.Ans} {sh : Shared}

theorem advance_store : (s.advance t j o k a sh).shared.store = sh.store := by
  simp only [System.State.advance, System.settle]
  split <;> rfl

theorem leave_holderOf {sh : Shared} {n : LockName} {u : Nat} (hh : sh.holderOf n = some u)
    (hne : u ≠ t) : (leave sh t).holderOf n = some u := by
  cases n with
  | key h =>
    have hholder : sh.holder h = some u := hh
    simp [Shared.holderOf, leave, hholder, hne]
  | pool =>
    have hholder : sh.poolHolder = some u := hh
    simp [Shared.holderOf, leave, hholder, hne]

theorem advance_holderOf {n : LockName} {u : Nat} (ht : t < s.tasks.length)
    (hrunning : (s.advance t j o k a sh).running u = true) (hh : sh.holderOf n = some u) :
    (s.advance t j o k a sh).shared.holderOf n = some u := by
  simp only [System.State.advance, System.settle]
  split
  · rename_i r hr
    apply leave_holderOf hh
    rintro rfl
    simp [System.State.running, System.State.advance, ht, hr] at hrunning
  · exact hh

/-- What an access does to a lock. -/
inductive LockChange (n : LockName) (sh : Shared) (t : Nat) : Event → Shared → Prop where
  | quiet (e : Event) (sh' : Shared) (hholder : sh'.holderOf n = sh.holderOf n)
      (hdepth : ∀ l, depth n (e :: l) = depth n l) : LockChange n sh t e sh'
  | taken (e : Event) (sh' : Shared) (hfree : sh.holderOf n = none)
      (hholder : sh'.holderOf n = some t) (hdepth : ∀ l, depth n (e :: l) = depth n l + 1) :
      LockChange n sh t e sh'
  | given (e : Event) (sh' : Shared) (hdepth : ∀ l, depth n (e :: l) = depth n l - 1)
      (hguard : ∀ l, Guarded l e → 0 < depth n l) : LockChange n sh t e sh'

theorem lockChange_of {sh sh' : Shared} {e : Event} (n : LockName)
    (hacc : Accessed hashKeyId sh t e sh') : LockChange n sh t e sh' := by
  cases hacc with
  | locked h hfree =>
    by_cases hn : n = .key h
    · subst hn
      exact .taken _ _ hfree (Function.update_self _ _ _) fun l => by simp [depth]
    · refine .quiet _ _ ?_ fun l => by simp [depth, hn]
      cases n with
      | key h' => exact Function.update_of_ne (fun heq => hn (congrArg LockName.key heq)) _ _
      | pool => rfl
  | unlocked h =>
    by_cases hn : n = .key h
    · subst hn
      exact .given _ _ (fun l => by simp [depth]) fun l hg => hg
    · refine .quiet _ _ ?_ fun l => by simp [depth, hn]
      cases n with
      | key h' => exact Function.update_of_ne (fun heq => hn (congrArg LockName.key heq)) _ _
      | pool => rfl
  | poolLocked hfree =>
    cases n with
    | key h => exact .quiet _ _ rfl fun l => by simp [depth]
    | pool => exact .taken _ _ hfree rfl fun l => by simp [depth]
  | poolUnlocked =>
    cases n with
    | key h => exact .quiet _ _ rfl fun l => by simp [depth]
    | pool => exact .given _ _ (fun l => by simp [depth]) fun l hg => hg
  | _ => exact .quiet _ _ (by cases n <;> rfl) fun l => rfl

theorem Held.advance (hI : Held s) (hr : Run hashKeyId prog rows₀ ok s)
    (htask : s.tasks[t]? = some ⟨j, some (.op o k)⟩)
    (hguard : Guarded (System.trace s.log t) ⟨o, a⟩)
    (hacc : Accessed hashKeyId s.shared t ⟨o, a⟩ sh) : Held (s.advance t j o k a sh) := by
  have ht := (List.getElem?_eq_some_iff.1 htask).1
  have hrunning := System.running_of_task htask
  refine ⟨fun u n hu hd => advance_holderOf ht hu ?_, fun u n hu => ?_⟩
  · have hchange := lockChange_of n hacc
    by_cases hut : u = t
    · subst hut
      rw [System.trace_advance_self] at hd
      cases hchange with
      | quiet hholder hdepth =>
        rw [hdepth] at hd
        rw [hholder]
        exact hI.holder u n hrunning hd
      | taken hfree hholder hdepth => exact hholder
      | given hdepth hguarded =>
        have := hI.once u n hrunning
        rw [hdepth] at hd
        omega
    · rw [System.trace_advance_ne s hut] at hd
      have hold := hI.holder u n (hr.running_advance hut hu (ne_nil_of_depth hd)) hd
      cases hchange with
      | quiet hholder hdepth => rw [hholder, hold]
      | taken hfree hholder hdepth =>
        rw [hfree] at hold
        cases hold
      | given hdepth hguarded =>
        rw [hI.holder t n hrunning (hguarded _ hguard)] at hold
        exact absurd (Option.some.inj hold).symm hut
  · by_cases hut : u = t
    · subst hut
      rw [System.trace_advance_self]
      have hone := hI.once u n hrunning
      cases lockChange_of n hacc with
      | quiet hholder hdepth => rwa [hdepth]
      | taken hfree hholder hdepth =>
        rw [hdepth]
        by_contra hlt
        rw [hI.holder u n hrunning (by omega)] at hfree
        cases hfree
      | given hdepth hguarded =>
        rw [hdepth]
        omega
    · rw [System.trace_advance_ne s hut]
      by_cases hnil : System.trace s.log u = []
      · rw [hnil]
        exact Nat.zero_le _
      · exact hI.once u n (hr.running_advance hut hu hnil)

end Exec

theorem held_of_run (C : System.Contract (system hashKeyId prog))
    (hguarded : ∀ j past e, C.guar j past e → Guarded past e) (hserved : C.Served ok)
    (hrun : Run hashKeyId prog rows₀ ok s) : Held s := by
  refine System.Reach.invariant Held hrun ?_ ?_
  · refine ⟨fun t n hr => ?_, fun t n hr => ?_⟩ <;>
      simp [System.State.running, System.init] at hr
  intro s s' act hr hI hok hT
  cases hT with
  | start j sh hstart =>
    cases hstart
    refine ⟨fun u n hu hd => ?_, fun u n hu => ?_⟩
    · exact hI.holder u n (hr.running_begin hu (ne_nil_of_depth hd)) hd
    · by_cases hnil : System.trace s.log u = []
      · exact (congrArg (depth n) hnil).trans_le (Nat.zero_le _)
      · exact hI.once u n (hr.running_begin hu hnil)
  | exec t c j o k a sh htask hhandle =>
    have hrely := hserved s t c o a sh hok hhandle
    have hguard := hguarded j _ _ (Prog.meets_op.1 (hr.meets C hserved htask) a hrely).1
    exact hI.advance hr htask hguard (handle_cases hhandle)
  | drop t j o k htask =>
    refine ⟨fun u n hu hd => ?_, fun u n hu => ?_⟩
    · obtain ⟨hne, hold⟩ := System.running_of_dropped hu
      exact leave_holderOf (hI.holder u n hold hd) hne
    · exact hI.once u n (System.running_of_dropped hu).2
  | world w sh hworld =>
    obtain ⟨mask⟩ := w
    refine ⟨fun u n hu => ?_, fun u n hu => ?_⟩ <;>
    · rw [System.running_of_halted rfl] at hu
      cases hu

end Locks
end Gateway.KeyStore
