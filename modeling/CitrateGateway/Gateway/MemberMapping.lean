import CitrateGateway.Gateway.Rotation

/-!
# The mapping of accounts to their keys

The mapping row of an account is written by its rotations only, one at a time. When a rotation
maps its key, the key that was mapped before has been revoked, and the synced write of the
mapping makes the revocation durable with it.
-/

namespace Gateway.KeyStore
set_option autoImplicit false
open Words Effects Durable

section Writes
variable {hashKeyId : String → String} {m : ProxyMethod} {past : List Event} {e : Event}
variable {sh sh' : Shared} {t : Nat}

/-- The hash that an event maps for an account. -/
def mapsTo (a : String) : Event → Option String
  | ⟨.putSynced ⟨.memberMap a', h⟩, .ok ()⟩ => if a' = a then some h else none
  | _ => none

/-- The last call that mapped a key for the account, and the hash that it mapped. -/
def lastMapped (a : String) : List (Nat × Event) → Option (Nat × String)
  | [] => none
  | (t, e) :: log =>
    match mapsTo a e with
    | some h => some (t, h)
    | none => lastMapped a log

/-- Everything one access can do to the rows. -/
inductive Wrote (hashKeyId : String → String) (m : ProxyMethod) (past : List Event)
    (rows : Rows) : Event → Rows → Prop where
  | nothing (e : Event) (hmaps : ∀ a, mapsTo a e = none)
      (hrecord : ∀ h r, e ≠ ⟨.put ⟨.record h, r⟩, .ok ()⟩) : Wrote hashKeyId m past rows e rows
  | record (h : String) (r : KeyRecord) (hr : Mints hashKeyId past h r ∨ r.revoked = true) :
      Wrote hashKeyId m past rows ⟨.put ⟨.record h, r⟩, .ok ()⟩ (rows.put ⟨.record h, r⟩)
  | counter (owner : QuotaOwner) (day : String) (n : UInt64) :
      Wrote hashKeyId m past rows ⟨.put ⟨.quota owner day, n⟩, .ok ()⟩
        (rows.put ⟨.quota owner day, n⟩)
  | balance (h : String) (r : BalanceRecord) :
      Wrote hashKeyId m past rows ⟨.putSynced ⟨.bal h, r⟩, .ok ()⟩ (rows.commit [⟨.bal h, r⟩])
  | mapping (a h : String) (hm : ∃ quotaRps dailyQuota, m = .rotateMemberKey a quotaRps dailyQuota)
      (hmapping : Mapping hashKeyId a past h) :
      Wrote hashKeyId m past rows ⟨.putSynced ⟨.memberMap a, h⟩, .ok ()⟩
        (rows.commit [⟨.memberMap a, h⟩])

theorem wrote_of_access (hduty : m.RowDuty hashKeyId past e)
    (hacc : Accessed hashKeyId sh t e sh') :
    Wrote hashKeyId m past sh.store.rows e sh'.store.rows := by
  cases hacc with
  | put row =>
    obtain ⟨k, v⟩ := row
    cases k with
    | record h => exact .record h v (mints_or_revokes hduty)
    | quota owner day => exact .counter owner day v
    | _ => cases m <;> first | exact hduty.2.elim | exact hduty.elim
  | putSynced row =>
    obtain ⟨k, v⟩ := row
    cases k with
    | bal h => exact .balance h v
    | memberMap a =>
      cases m with
      | rotateMemberKey a' quotaRps dailyQuota =>
        obtain ⟨rfl, hmapping⟩ := hduty.2
        exact .mapping a v ⟨quotaRps, dailyQuota, rfl⟩ hmapping
      | _ => exact hduty.elim
    | _ => cases m <;> first | exact hduty.2.elim | exact hduty.elim
  | writeBatch group => cases m <;> first | exact hduty.2.elim | exact hduty.elim
  | putSyncedFailed row e =>
    obtain ⟨k, v⟩ := row
    cases k <;> exact .nothing _ (fun _ => rfl) fun _ _ h => by cases h
  | _ => exact .nothing _ (fun _ => rfl) fun _ _ h => by cases h

namespace Wrote
variable {rows rows' : Rows} (hw : Wrote hashKeyId m past rows e rows')
include hw

theorem get_memberMap (a : String) : rows'.get (.memberMap a) =
    match mapsTo a e with
    | some h => some h
    | none => rows.get (.memberMap a) := by
  cases hw with
  | nothing e hmaps => rw [hmaps]
  | record h r hr => exact DurableStore.get_put_ne _ (fun h => by cases h)
  | counter owner day n => exact DurableStore.get_put_ne _ (fun h => by cases h)
  | balance h r => exact DurableStore.get_commit_ne _ (by simp)
  | mapping a' h hm hmapping =>
    by_cases heq : a' = a
    · subst heq
      simp only [mapsTo, if_true]
      exact DurableStore.get_commit_self _ _ _
    · simp only [mapsTo, if_neg heq]
      exact DurableStore.get_commit_ne _ (by simpa using Ne.symm heq)

theorem synced_memberMap {a : String} (h : rows.Synced (.memberMap a)) :
    rows'.Synced (.memberMap a) := by
  cases hw with
  | nothing e hmaps => exact h
  | record => exact (DurableStore.synced_put_ne (fun h => by cases h)).2 h
  | counter => exact (DurableStore.synced_put_ne (fun h => by cases h)).2 h
  | balance => exact DurableStore.synced_commit _ _ _
  | mapping => exact DurableStore.synced_commit _ _ _

theorem durable_mono {k : RowKey} (h : (rows.durable.dlookup k).isSome = true) :
    (rows'.durable.dlookup k).isSome = true := by
  cases hw with
  | nothing e hmaps => exact h
  | record => exact h
  | counter => exact h
  | balance => exact DurableStore.isSome_durable_commit _ h
  | mapping => exact DurableStore.isSome_durable_commit _ h

theorem get_record {h : String} {r : KeyRecord} (hget : rows'.get (.record h) = some r) :
    rows.get (.record h) = some r ∨ Mints hashKeyId past h r ∨ r.revoked = true := by
  cases hw with
  | nothing e hmaps => exact Or.inl hget
  | record h' r' hr =>
    by_cases heq : h' = h
    · subst heq
      rw [DurableStore.get_put_self] at hget
      cases hget
      exact Or.inr hr
    · rw [DurableStore.get_put_ne _ (by simpa using Ne.symm heq)] at hget
      exact Or.inl hget
  | counter =>
    rw [DurableStore.get_put_ne _ (by simp)] at hget
    exact Or.inl hget
  | balance =>
    rw [DurableStore.get_commit_ne _ (by simp)] at hget
    exact Or.inl hget
  | mapping =>
    rw [DurableStore.get_commit_ne _ (by simp)] at hget
    exact Or.inl hget

theorem isSome_record {h : String} (hsome : (rows.get (.record h)).isSome = true) :
    (rows'.get (.record h)).isSome = true := by
  cases hw with
  | nothing e hmaps => exact hsome
  | record h' r' hr =>
    by_cases heq : h' = h
    · subst heq
      rw [DurableStore.get_put_self]
      rfl
    · rwa [DurableStore.get_put_ne _ (by simpa using Ne.symm heq)]
  | counter => rwa [DurableStore.get_put_ne _ (by simp)]
  | balance => rwa [DurableStore.get_commit_ne _ (by simp)]
  | mapping => rwa [DurableStore.get_commit_ne _ (by simp)]

theorem possible_record {h : String} {r : KeyRecord} (hposs : rows'.Possible (.record h) r) :
    rows.Possible (.record h) r ∨ Mints hashKeyId past h r ∨ r.revoked = true := by
  cases hw with
  | nothing e hmaps => exact Or.inl hposs
  | record h' r' hr =>
    rcases DurableStore.possible_put hposs with heq | hold
    · cases heq
      exact Or.inr hr
    · exact Or.inl hold
  | counter =>
    rcases DurableStore.possible_put hposs with heq | hold
    · cases heq
    · exact Or.inl hold
  | balance | mapping =>
    rw [DurableStore.possible_iff_of_synced (DurableStore.synced_commit _ _ _),
      DurableStore.get_commit_ne _ (by simp)] at hposs
    exact Or.inl (DurableStore.possible_of_get hposs)

/-- The write of a mapping makes everything before it durable. -/
theorem flushed {a h : String} (hmaps : mapsTo a e = some h) (h' : String) :
    (∀ r, rows'.Possible (.record h') r → rows.get (.record h') = some r) ∧
      ((rows.get (.record h')).isSome = true →
        (rows'.durable.dlookup (.record h')).isSome = true) := by
  cases hw with
  | nothing e hnone =>
    rw [hnone] at hmaps
    cases hmaps
  | record | counter | balance => cases hmaps
  | mapping a' h'' hm hmapping =>
    have hget : (rows.commit [⟨.memberMap a', h''⟩]).get (.record h') = rows.get (.record h') :=
      DurableStore.get_commit_ne _ (by simp)
    have hsynced := DurableStore.synced_commit rows [⟨.memberMap a', h''⟩] (.record h')
    refine ⟨fun r hposs => ?_, fun hsome => ?_⟩
    · rwa [DurableStore.possible_iff_of_synced hsynced, hget] at hposs
    · rwa [← DurableStore.get_of_synced hsynced, hget]

theorem get_of_put {h : String} {r : KeyRecord} (he : e = ⟨.put ⟨.record h, r⟩, .ok ()⟩) :
    rows'.get (.record h) = some r := by
  cases hw with
  | nothing e hmaps hrecord => exact absurd he (hrecord h r)
  | record h' r' hr =>
    cases he
    exact DurableStore.get_put_self _ _ _
  | _ => cases he

theorem mapping_of {a h : String} (hmaps : mapsTo a e = some h) :
    e = ⟨.putSynced ⟨.memberMap a, h⟩, .ok ()⟩ ∧
      (∃ quotaRps dailyQuota, m = .rotateMemberKey a quotaRps dailyQuota) ∧
        Mapping hashKeyId a past h := by
  cases hw with
  | nothing e hnone =>
    rw [hnone] at hmaps
    cases hmaps
  | record | counter | balance => cases hmaps
  | mapping a' h' hm hmapping =>
    simp only [mapsTo, Option.ite_none_right_eq_some, Option.some.injEq] at hmaps
    obtain ⟨rfl, rfl⟩ := hmaps
    exact ⟨rfl, hm, hmapping⟩

end Wrote
end Writes

section Invariant
variable {hashKeyId : String → String} {rows₀ : Rows} {s : (proxyCalls hashKeyId).State}
variable {ok : (proxyCalls hashKeyId).State → (proxyCalls hashKeyId).Action → Prop}

/-- A store that was opened before any key was mapped. -/
structure Unmapped (rows₀ : Rows) : Prop where
  durable : rows₀.pending = []
  unmapped : ∀ a, rows₀.get (.memberMap a) = none

def Rotates (s : (proxyCalls hashKeyId).State) (a : String) (t : Nat) : Prop :=
  ∃ quotaRps dailyQuota, s.job t = some (.rotateMemberKey a quotaRps dailyQuota)

abbrev progressOf (s : (proxyCalls hashKeyId).State) (t : Nat) : Progress :=
  progress (System.trace s.log t)

/-- The hash that a call minted. -/
def minted (s : (proxyCalls hashKeyId).State) (t : Nat) : Option String :=
  (progressOf s t).uuid.map (tokenHash hashKeyId)

structure MappingInv (rows₀ : Rows) (s : (proxyCalls hashKeyId).State) : Prop where
  kept : ∀ k, (rows₀.durable.dlookup k).isSome = true →
    ((proxyRows s).durable.dlookup k).isSome = true
  fresh : ∀ t h, minted s t = some h →
    h ∈ s.shared.store.issued ∧ rows₀.get (.record h) = none ∧ rows₀.get (.bal h) = none
  distinct : ∀ t u h, minted s t = some h → minted s u = some h → t = u
  mapRow : ∀ a, (proxyRows s).Synced (.memberMap a) ∧
    (proxyRows s).get (.memberMap a) = (lastMapped a s.log).map (·.2)
  present : ∀ t h, s.running t = true → minted s t = some h → (progressOf s t).recorded = true →
    ((proxyRows s).get (.record h)).isSome = true
  mapped : ∀ a t, Rotates s a t → (progressOf s t).mapped = true → ∃ h, minted s t = some h ∧
    ((proxyRows s).durable.dlookup (.record h)).isSome = true ∧
      (lastMapped a s.log = some (t, h) ∨ ∀ r, (proxyRows s).Possible (.record h) r →
        r.revoked = true)
  mapper : ∀ a t h, lastMapped a s.log = some (t, h) → Rotates s a t ∧
    (progressOf s t).mapped = true ∧ minted s t = some h
  reading : ∀ a t p, Rotates s a t → s.running t = true → (progressOf s t).previous = some p →
    (progressOf s t).mapped = false → 0 < depth (.key (memberMapKey a)) (System.trace s.log t) →
      (lastMapped a s.log).map (·.2) = p
  previous : ∀ a t h, Rotates s a t → (progressOf s t).previous = some (some h) →
    ∃ u, Rotates s a u ∧ (progressOf s u).mapped = true ∧ minted s u = some h
  retired : ∀ a t h, Rotates s a t → s.running t = true → h ∈ (progressOf s t).retired →
    ∀ r, (proxyRows s).get (.record h) = some r → r.revoked = true
  missing : ∀ a t h, Rotates s a t → h ∉ (progressOf s t).missing
  mapping : ∀ a t, Rotates s a t → s.running t = true → (progressOf s t).mapped = true →
    ∃ h, lastMapped a s.log = some (t, h)

theorem row_served (ok : (proxyCalls hashKeyId).State → (proxyCalls hashKeyId).Action → Prop) :
    (rowContract hashKeyId).Served ok :=
  fun _ _ _ _ _ _ _ _ => trivial

theorem rowDuty_of_task (hr : ProxyRun hashKeyId rows₀ ok s) {t : Nat} {m : ProxyMethod} {o : Op}
    {k : o.Ans → M ((m : ProxyMethod) × m.Ans)} (htask : s.tasks[t]? = some ⟨m, some (.op o k)⟩)
    (a : o.Ans) : Guarded (System.trace s.log t) ⟨o, a⟩ ∧
      m.RowDuty hashKeyId (System.trace s.log t) ⟨o, a⟩ :=
  (Prog.meets_op.1 (hr.meets (rowContract hashKeyId) (row_served ok) htask) a trivial).1

theorem kept_of_rotates (hr : ProxyRun hashKeyId rows₀ ok s) {a : String} {t : Nat}
    (hrot : Rotates s a t) : System.Kept (RotateDuty hashKeyId a) (System.trace s.log t) := by
  obtain ⟨quotaRps, dailyQuota, hjob⟩ := hrot
  exact (hr.kept (rowContract hashKeyId) (row_served ok) hjob).mono fun _ _ h => h.2

/-- A rotation that has mapped its key and is not at its end has the account's lock. -/
theorem held_of_mapped (hr : ProxyRun hashKeyId rows₀ ok s) {a : String} {t : Nat}
    (hrot : Rotates s a t) (hrunning : s.running t = true)
    (hmapped : (progressOf s t).mapped = true) :
    0 < depth (.key (memberMapKey a)) (System.trace s.log t) := by
  obtain ⟨quotaRps, dailyQuota, hjob⟩ := hrot
  obtain ⟨m, o, k, htask⟩ := System.task_of_running hrunning
  rw [System.job_of_task htask] at hjob
  cases hjob
  obtain ⟨ans⟩ := nonempty_ans o
  obtain ⟨hguard, hlast, _⟩ := rowDuty_of_task hr htask ans
  cases hlast hmapped
  exact hguard

section Exec
variable {t : Nat} {m : ProxyMethod} {o : Op} {k : o.Ans → M ((m : ProxyMethod) × m.Ans)}
variable {c : Input} {ans : o.Ans} {sh : Shared} {a : String} {u : Nat} {h : String}
variable (htask : s.tasks[t]? = some ⟨m, some (.op o k)⟩)
variable (hhandle : handle hashKeyId s.shared t o c = some (ans, sh))

theorem progressOf_self :
    progressOf (s.advance t m o k ans sh) t = (progressOf s t).next ⟨o, ans⟩ := by
  rw [progressOf, System.trace_advance_self]
  rfl

theorem progressOf_ne (hne : u ≠ t) :
    progressOf (s.advance t m o k ans sh) u = progressOf s u := by
  rw [progressOf, System.trace_advance_ne s hne]

include htask hhandle in
theorem rotates_advance : Rotates (s.advance t m o k ans sh) a u ↔ Rotates s a u := by
  have hT : System.Transition s (.exec t c) (s.advance t m o k ans sh) :=
    System.Transition.exec (S := proxyCalls hashKeyId) t c m o k ans sh htask hhandle
  constructor
  · rintro ⟨quotaRps, dailyQuota, hjob⟩
    refine ⟨quotaRps, dailyQuota, (System.job_cases hT hjob).resolve_right ?_⟩
    rintro ⟨_, hstart | ⟨_, hspawn⟩⟩
    · cases hstart
    · cases hspawn
  · rintro ⟨quotaRps, dailyQuota, hjob⟩
    exact ⟨quotaRps, dailyQuota, System.job_step (System.step_of_transition hT) hjob⟩

theorem rotates_task (htask : s.tasks[t]? = some ⟨m, some (.op o k)⟩) {quotaRps : UInt32}
    {dailyQuota : UInt64} (hm : m = .rotateMemberKey a quotaRps dailyQuota) : Rotates s a t :=
  ⟨quotaRps, dailyQuota, by rw [System.job_of_task htask, hm]⟩

theorem method_of_rotates (htask : s.tasks[t]? = some ⟨m, some (.op o k)⟩)
    (hrot : Rotates s a t) : ∃ quotaRps dailyQuota, m = .rotateMemberKey a quotaRps dailyQuota := by
  obtain ⟨quotaRps, dailyQuota, hjob⟩ := hrot
  rw [System.job_of_task htask] at hjob
  exact ⟨quotaRps, dailyQuota, Option.some.inj hjob⟩

variable (hI : MappingInv rows₀ s) (hr : ProxyRun hashKeyId rows₀ ok s)
include htask hr

theorem wrote_of_step (hhandle : handle hashKeyId s.shared t o c = some (ans, sh)) :
    Wrote hashKeyId m (System.trace s.log t) (proxyRows s) ⟨o, ans⟩
      (proxyRows (s.advance t m o k ans sh)) := by
  have hrows : proxyRows (s.advance t m o k ans sh) = sh.store.rows := by
    rw [proxyRows, advance_store]
  rw [hrows]
  exact wrote_of_access (rowDuty_of_task hr htask ans).2 (handle_cases hhandle)

theorem minted_advance (hm : minted s u = some h) :
    minted (s.advance t m o k ans sh) u = some h := by
  by_cases hut : u = t
  · subst hut
    obtain ⟨x, hx, rfl⟩ := Option.map_eq_some_iff.1 hm
    have hsome := uuid_next (by rw [hx]; rfl) (⟨o, ans⟩ : Event)
    obtain ⟨y, hy⟩ := Option.isSome_iff_exists.1 hsome
    rw [minted, progressOf_self, hy]
    rcases uuid_of_next hy with hold | he
    · rw [hx] at hold
      cases hold
      rfl
    · -- a call mints once
      cases he
      have hduty := (rowDuty_of_task hr htask y).2
      have hnone : (progressOf s u).uuid = none := by
        cases m with
        | rotateMemberKey a quotaRps dailyQuota => exact hduty.2
        | _ => exact hduty
      rw [hnone] at hx
      cases hx
  · rwa [minted, progressOf_ne hut]

omit htask hr in
theorem minted_of_advance (hm : minted (s.advance t m o k ans sh) u = some h) :
    minted s u = some h ∨ u = t ∧ ∃ x, (⟨o, ans⟩ : Event) = ⟨.newUuid, x⟩ ∧
      h = tokenHash hashKeyId x := by
  by_cases hut : u = t
  · subst hut
    rw [minted, progressOf_self] at hm
    obtain ⟨x, hx, rfl⟩ := Option.map_eq_some_iff.1 hm
    rcases uuid_of_next hx with hold | he
    · exact Or.inl (by rw [minted, hold]; rfl)
    · exact Or.inr ⟨rfl, x, he, rfl⟩
  · rw [minted, progressOf_ne hut] at hm
    exact Or.inl hm

omit htask hr in
theorem fresh_of_newUuid {x : String} (hacc : Accessed hashKeyId s.shared t ⟨o, ans⟩ sh)
    (he : (⟨o, ans⟩ : Event) = ⟨.newUuid, x⟩) :
    s.shared.store.fresh (tokenHash hashKeyId x) = true ∧
      tokenHash hashKeyId x ∈ sh.store.issued := by
  cases he
  cases hacc with
  | minted _ hfresh => exact ⟨hfresh, List.mem_cons_self⟩

theorem lastMapped_advance (hw : Wrote hashKeyId m (System.trace s.log t) (proxyRows s) ⟨o, ans⟩
      (proxyRows (s.advance t m o k ans sh))) (hhold : 0 < depth (.key (memberMapKey a))
        (System.trace s.log u)) (hur : s.running u = true) (hut : u ≠ t) :
    lastMapped a (s.advance t m o k ans sh).log = lastMapped a s.log := by
  show (match mapsTo a ⟨o, ans⟩ with
    | some h => some (t, h)
    | none => lastMapped a s.log) = _
  cases hmaps : mapsTo a ⟨o, ans⟩ with
  | none => rfl
  | some h =>
    -- both calls would hold the lock of the account
    obtain ⟨_, _, hmapping⟩ := hw.mapping_of hmaps
    have hheld := proxyHeld_of_run hr
    have := hheld.holder t _ (System.running_of_task htask) hmapping.held
    rw [hheld.holder u _ hur hhold] at this
    exact absurd (Option.some.inj this) hut

include hI hhandle

omit htask hr hhandle in
/-- A row that is not there now was not there when the store was opened. -/
theorem MappingInv.unopened (hopen : Unmapped rows₀) {key : RowKey}
    (hnone : (proxyRows s).get key = none) : rows₀.get key = none := by
  by_contra hsome
  rw [DurableStore.get_eq, hopen.durable] at hsome
  have := hI.kept key (Option.isSome_iff_ne_none.2 hsome)
  rw [DurableStore.get_eq, Option.or_eq_none_iff] at hnone
  simp [hnone.2] at this

omit htask hr in
theorem MappingInv.fresh_advance (hopen : Unmapped rows₀) (hm : minted (s.advance t m o k ans sh) u = some h) :
    h ∈ (s.advance t m o k ans sh).shared.store.issued ∧ rows₀.get (.record h) = none ∧
      rows₀.get (.bal h) = none := by
  rw [advance_store]
  have hacc := handle_cases hhandle
  rcases minted_of_advance hm with hold | ⟨_, x, he, rfl⟩
  · exact ⟨issued_mono hacc (hI.fresh u h hold).1, (hI.fresh u h hold).2⟩
  · obtain ⟨hfresh, hissued⟩ := fresh_of_newUuid hacc he
    simp only [Store.fresh, Bool.and_eq_true, Option.isNone_iff_eq_none] at hfresh
    exact ⟨hissued, hI.unopened hopen hfresh.2, hI.unopened hopen hfresh.1.2⟩

omit htask hr in
theorem MappingInv.distinct_advance {v : Nat}
    (hm : minted (s.advance t m o k ans sh) u = some h)
    (hm' : minted (s.advance t m o k ans sh) v = some h) : u = v := by
  have hacc := handle_cases hhandle
  have hnot : ∀ {w x}, minted s w = some h → (⟨o, ans⟩ : Event) = ⟨.newUuid, x⟩ →
      h ≠ tokenHash hashKeyId x := by
    rintro w x hw he rfl
    obtain ⟨hfresh, _⟩ := fresh_of_newUuid hacc he
    simp only [Store.fresh, Bool.and_eq_true, decide_eq_true_eq] at hfresh
    exact hfresh.1.1 (hI.fresh w _ hw).1
  rcases minted_of_advance hm with hold | ⟨rfl, x, he, hx⟩
  · rcases minted_of_advance hm' with hold' | ⟨rfl, x, he, hx⟩
    · exact hI.distinct u v h hold hold'
    · exact absurd hx (hnot hold he)
  · rcases minted_of_advance hm' with hold' | ⟨rfl, _⟩
    · exact absurd hx (hnot hold' he)
    · rfl

theorem MappingInv.present_advance
    (hur : (s.advance t m o k ans sh).running u = true)
    (hm : minted (s.advance t m o k ans sh) u = some h)
    (hrec : (progressOf (s.advance t m o k ans sh) u).recorded = true) :
    ((proxyRows (s.advance t m o k ans sh)).get (.record h)).isSome = true := by
  have hw := wrote_of_step htask hr hhandle
  have hcons : ∀ {h'}, minted s u = some h' → h' = h := fun hold =>
    Option.some.inj ((minted_advance htask hr hold).symm.trans hm)
  by_cases hut : u = t
  · subst hut
    have hrunning := System.running_of_task htask
    rw [progressOf_self] at hrec
    rcases recorded_of_next hrec with hold | ⟨hash, r, he, hrevoked⟩
    · have huuid := uuid_of_recorded ((hr.kept (rowContract hashKeyId) (row_served ok)
        (System.job_of_task htask)).mono fun _ _ h => h.2) hold
      obtain ⟨x, hx⟩ := Option.isSome_iff_exists.1 huuid
      have hmint : minted s u = some (tokenHash hashKeyId x) := by
        rw [minted, progressOf, hx]
        rfl
      obtain rfl := hcons hmint
      exact hw.isSome_record (hI.present u _ hrunning hmint hold)
    · have hmint : minted s u = some hash := by
        cases he
        rcases mints_or_revokes (rowDuty_of_task hr htask (.ok ())).2 with hmints | h
        · exact hmints.2.2
        · rw [hrevoked] at h
          cases h
      rw [← hcons hmint, hw.get_of_put he]
      rfl
  · rw [progressOf_ne hut] at hrec
    have hold : minted s u = some h := by rwa [minted, progressOf_ne hut] at hm
    have hne : System.trace s.log u ≠ [] := by
      intro hnil
      rw [progressOf, hnil] at hrec
      cases hrec
    exact hw.isSome_record (hI.present u h (hr.running_advance hut hur hne) hold hrec)

omit htask hhandle in
/-- No call records a key whose rotation has mapped it. -/
theorem MappingInv.not_mints {r : KeyRecord} (hrot : Rotates s a u)
    (hmapped : (progressOf s u).mapped = true) (hm : minted s u = some h) :
    ¬ Mints hashKeyId (System.trace s.log t) h r := by
  rintro ⟨_, hnot, hmint⟩
  obtain rfl := hI.distinct u t h hm hmint
  have := (rotated_of_kept (kept_of_rotates hr hrot)).mapped hmapped
  rw [hnot] at this
  cases this

omit hI in
theorem unmapped_of_mapsTo (hmaps : mapsTo a ⟨o, ans⟩ = some h) (hrot : Rotates s a t) :
    (progressOf s t).mapped = false := by
  have hw := wrote_of_step htask hr hhandle
  obtain ⟨he, _, _⟩ := hw.mapping_of hmaps
  cases he
  obtain ⟨quotaRps, dailyQuota, rfl⟩ := method_of_rotates htask hrot
  obtain ⟨_, hlast, _⟩ := rowDuty_of_task hr htask (.ok ())
  by_contra hm
  cases hlast (by simpa using hm)

theorem MappingInv.mapped_advance (hrot : Rotates s a u)
    (hmapped : (progressOf (s.advance t m o k ans sh) u).mapped = true) :
    ∃ h, minted (s.advance t m o k ans sh) u = some h ∧
      ((proxyRows (s.advance t m o k ans sh)).durable.dlookup (.record h)).isSome = true ∧
        (lastMapped a (s.advance t m o k ans sh).log = some (u, h) ∨
          ∀ r, (proxyRows (s.advance t m o k ans sh)).Possible (.record h) r →
            r.revoked = true) := by
  have hw := wrote_of_step htask hr hhandle
  have hlog : lastMapped a (s.advance t m o k ans sh).log = match mapsTo a ⟨o, ans⟩ with
    | some h => some (t, h)
    | none => lastMapped a s.log := rfl
  have hstill : (progressOf s u).mapped = true ∨
      u = t ∧ ∃ a' h, (⟨o, ans⟩ : Event) = ⟨.putSynced ⟨.memberMap a', h⟩, .ok ()⟩ := by
    by_cases hut : u = t
    · subst hut
      rw [progressOf_self] at hmapped
      exact (mapped_of_next hmapped).imp id fun h => ⟨rfl, h⟩
    · rw [progressOf_ne hut] at hmapped
      exact Or.inl hmapped
  rcases hstill with hold | ⟨rfl, a', h, he⟩
  · obtain ⟨h, hm, hdurable, hlast⟩ := hI.mapped a u hrot hold
    refine ⟨h, minted_advance htask hr hm, hw.durable_mono hdurable, ?_⟩
    rw [hlog]
    cases hmaps : mapsTo a ⟨o, ans⟩ with
    | none =>
      refine hlast.imp id fun hrevoked r hposs => ?_
      rcases hw.possible_record hposs with hold' | hmints | hr'
      · exact hrevoked r hold'
      · exact absurd hmints (hI.not_mints hr hrot hold hm)
      · exact hr'
    | some h' =>
      obtain ⟨_, hm', hmapping⟩ := hw.mapping_of hmaps
      obtain ⟨quotaRps, dailyQuota, hm'⟩ := hm'
      have hrott : Rotates s a t := rotates_task htask hm'
      refine Or.inr fun r hposs => ?_
      have hget := (hw.flushed hmaps h).1 r hposs
      rcases hlast with hlast | hrevoked
      · obtain ⟨p, hprevious, hgone⟩ := hmapping.retired
        have hread := hI.reading a t p hrott (System.running_of_task htask) hprevious
          (unmapped_of_mapsTo htask hhandle hr hmaps hrott) hmapping.held
        rw [hlast] at hread
        rcases hgone h hread.symm with hretired | hmissing
        · exact hI.retired a t h hrott (System.running_of_task htask) hretired r hget
        · exact absurd hmissing (hI.missing a t h hrott)
      · exact hrevoked r (DurableStore.possible_of_get hget)
  · have hmaps : mapsTo a' ⟨o, ans⟩ = some h := by
      rw [he]
      simp [mapsTo]
    obtain ⟨_, ⟨quotaRps, dailyQuota, hm'⟩, hmapping⟩ := hw.mapping_of hmaps
    obtain ⟨quotaRps', dailyQuota', hm''⟩ := method_of_rotates htask hrot
    rw [hm'] at hm''
    cases hm''
    have hmint : minted s u = some h := hmapping.minted
    refine ⟨h, minted_advance htask hr hmint, ?_, Or.inl ?_⟩
    · exact (hw.flushed hmaps h).2
        (hI.present u h (System.running_of_task htask) hmint hmapping.recorded)
    · rw [hlog, hmaps]

omit hI hhandle htask hr in
/-- Another event leaves what was mapped as it was. -/
theorem lastMapped_of_none (hmaps : mapsTo a ⟨o, ans⟩ = none) :
    lastMapped a (s.advance t m o k ans sh).log = lastMapped a s.log := by
  show (match mapsTo a ⟨o, ans⟩ with
    | some h => some (t, h)
    | none => lastMapped a s.log) = _
  rw [hmaps]

theorem MappingInv.mapper_advance
    (hlast : lastMapped a (s.advance t m o k ans sh).log = some (u, h)) :
    Rotates s a u ∧ (progressOf (s.advance t m o k ans sh) u).mapped = true ∧
      minted (s.advance t m o k ans sh) u = some h := by
  have hw := wrote_of_step htask hr hhandle
  cases hmaps : mapsTo a ⟨o, ans⟩ with
  | none =>
    rw [lastMapped_of_none hmaps] at hlast
    obtain ⟨hrot, hmapped, hm⟩ := hI.mapper a u h hlast
    refine ⟨hrot, ?_, minted_advance htask hr hm⟩
    by_cases hut : u = t
    · subst hut
      rw [progressOf_self]
      exact mapped_next hmapped _
    · rwa [progressOf_ne hut]
  | some h' =>
    obtain ⟨he, ⟨quotaRps, dailyQuota, hm'⟩, hmapping⟩ := hw.mapping_of hmaps
    have heq : some (t, h') = some (u, h) := by
      rw [← hlast]
      show _ = match mapsTo a ⟨o, ans⟩ with
        | some h => some (t, h)
        | none => lastMapped a s.log
      rw [hmaps]
    cases heq
    refine ⟨rotates_task htask hm', ?_, minted_advance htask hr hmapping.minted⟩
    rw [progressOf_self]
    cases he
    rfl

theorem MappingInv.reading_advance {p : Option String} (hrot : Rotates s a u)
    (hur : (s.advance t m o k ans sh).running u = true)
    (hprevious : (progressOf (s.advance t m o k ans sh) u).previous = some p)
    (hmapped : (progressOf (s.advance t m o k ans sh) u).mapped = false)
    (hheld : 0 < depth (.key (memberMapKey a))
      (System.trace (s.advance t m o k ans sh).log u)) :
    (lastMapped a (s.advance t m o k ans sh).log).map (·.2) = p := by
  have hw := wrote_of_step htask hr hhandle
  by_cases hut : u = t
  · subst hut
    rw [progressOf_self] at hprevious hmapped
    rw [System.trace_advance_self] at hheld
    have hnone : mapsTo a ⟨o, ans⟩ = none := by
      cases hmaps : mapsTo a ⟨o, ans⟩ with
      | none => rfl
      | some h =>
        obtain ⟨he, _⟩ := hw.mapping_of hmaps
        cases he
        cases hmapped
    rw [lastMapped_of_none hnone]
    obtain ⟨quotaRps, dailyQuota, rfl⟩ := method_of_rotates htask hrot
    have hduty := (rowDuty_of_task hr htask ans).2.2
    rcases previous_of_next hprevious with hold | ⟨a', he⟩
    · refine hI.reading a u p hrot (System.running_of_task htask) hold ?_ ?_
      · cases hm : (progressOf s u).mapped with
        | false => rfl
        | true =>
          rw [mapped_next hm] at hmapped
          cases hmapped
      · cases o with
        | lock h' =>
          -- the account's lock is taken before the mapping is read
          rcases hduty with hnone | ⟨h, hmissing⟩
          · rw [hold] at hnone
            cases hnone
          · exact absurd hmissing (hI.missing a u h hrot)
        | unlock h' =>
          simp only [depth] at hheld
          omega
        | _ => exact hheld
    · cases he
      obtain ⟨rfl, _⟩ := hduty
      rw [← (hI.mapRow a').2]
      exact get_of_accessed (handle_cases hhandle)
  · rw [progressOf_ne hut] at hprevious hmapped
    rw [System.trace_advance_ne s hut] at hheld
    have hold := hr.running_advance hut hur (ne_nil_of_depth hheld)
    rw [lastMapped_advance htask hr hw hheld hold hut]
    exact hI.reading a u p hrot hold hprevious hmapped hheld

theorem MappingInv.previous_advance (hrot : Rotates s a u)
    (hprevious : (progressOf (s.advance t m o k ans sh) u).previous = some (some h)) :
    ∃ v, Rotates s a v ∧ (progressOf (s.advance t m o k ans sh) v).mapped = true ∧
      minted (s.advance t m o k ans sh) v = some h := by
  have hnext : ∀ {v}, Rotates s a v → (progressOf s v).mapped = true → minted s v = some h →
      ∃ v, Rotates s a v ∧ (progressOf (s.advance t m o k ans sh) v).mapped = true ∧
        minted (s.advance t m o k ans sh) v = some h := by
    intro v hv hmapped hm
    refine ⟨v, hv, ?_, minted_advance htask hr hm⟩
    by_cases hvt : v = t
    · subst hvt
      rw [progressOf_self]
      exact mapped_next hmapped _
    · rwa [progressOf_ne hvt]
  by_cases hut : u = t
  · subst hut
    rw [progressOf_self] at hprevious
    rcases previous_of_next hprevious with hold | ⟨a', he⟩
    · obtain ⟨v, hv, hmapped, hm⟩ := hI.previous a u h hrot hold
      exact hnext hv hmapped hm
    · obtain ⟨quotaRps, dailyQuota, rfl⟩ := method_of_rotates htask hrot
      cases he
      obtain ⟨rfl, _⟩ := (rowDuty_of_task hr htask (.ok (some h))).2.2
      have hget := get_of_accessed (handle_cases hhandle)
      rw [(hI.mapRow a').2, Option.map_eq_some_iff] at hget
      obtain ⟨⟨v, h'⟩, hlast, rfl⟩ := hget
      obtain ⟨hv, hmapped, hm⟩ := hI.mapper a' v h' hlast
      exact hnext hv hmapped hm
  · rw [progressOf_ne hut] at hprevious
    obtain ⟨v, hv, hmapped, hm⟩ := hI.previous a u h hrot hprevious
    exact hnext hv hmapped hm

theorem MappingInv.retired_advance {r : KeyRecord} (hrot : Rotates s a u)
    (hur : (s.advance t m o k ans sh).running u = true)
    (hretired : h ∈ (progressOf (s.advance t m o k ans sh) u).retired)
    (hget : (proxyRows (s.advance t m o k ans sh)).get (.record h) = some r) :
    r.revoked = true := by
  have hw := wrote_of_step htask hr hhandle
  have hold : s.running u = true → h ∈ (progressOf s u).retired → r.revoked = true := by
    intro hrunning hmem
    rcases hw.get_record hget with hbefore | hmints | hrevoked
    · exact hI.retired a u h hrot hrunning hmem r hbefore
    · have hprevious := (rotated_of_kept (kept_of_rotates hr hrot)).retired h hmem
      obtain ⟨v, hv, hmapped, hm⟩ := hI.previous a u h hrot hprevious
      exact absurd hmints (hI.not_mints hr hv hmapped hm)
    · exact hrevoked
  by_cases hut : u = t
  · subst hut
    rw [progressOf_self] at hretired
    rcases retired_of_next hretired with hmem | ⟨r', he, hrevoked⟩
    · exact hold (System.running_of_task htask) hmem
    · rw [hw.get_of_put he] at hget
      cases hget
      exact hrevoked
  · rw [progressOf_ne hut] at hretired
    refine hold (hr.running_advance hut hur ?_) hretired
    intro hnil
    rw [progressOf, hnil] at hretired
    cases hretired

theorem MappingInv.missing_advance (hrot : Rotates s a u) :
    h ∉ (progressOf (s.advance t m o k ans sh) u).missing := by
  by_cases hut : u = t
  · subst hut
    rw [progressOf_self]
    intro hmem
    rcases missing_of_next hmem with hold | he
    · exact hI.missing a u h hrot hold
    · obtain ⟨quotaRps, dailyQuota, rfl⟩ := method_of_rotates htask hrot
      cases he
      have hprevious := (rowDuty_of_task hr htask (.ok none)).2.2
      obtain ⟨v, hv, hmapped, hm⟩ := hI.previous a u h hrot hprevious
      obtain ⟨h', hm', hdurable, _⟩ := hI.mapped a v hv hmapped
      rw [hm] at hm'
      cases hm'
      have hget := get_of_accessed (handle_cases hhandle)
      rw [DurableStore.get_eq, Option.or_eq_none_iff] at hget
      rw [hget.2] at hdurable
      cases hdurable
  · rw [progressOf_ne hut]
    exact hI.missing a u h hrot

theorem MappingInv.mapping_advance (hrot : Rotates s a u)
    (hur : (s.advance t m o k ans sh).running u = true)
    (hmapped : (progressOf (s.advance t m o k ans sh) u).mapped = true) :
    ∃ h, lastMapped a (s.advance t m o k ans sh).log = some (u, h) := by
  have hw := wrote_of_step htask hr hhandle
  by_cases hut : u = t
  · subst hut
    rw [progressOf_self] at hmapped
    rcases mapped_of_next hmapped with hold | ⟨a', h, he⟩
    · have hnone : mapsTo a ⟨o, ans⟩ = none := by
        cases hmaps : mapsTo a ⟨o, ans⟩ with
        | none => rfl
        | some h =>
          rw [unmapped_of_mapsTo htask hhandle hr hmaps hrot] at hold
          cases hold
      rw [lastMapped_of_none hnone]
      exact hI.mapping a u hrot (System.running_of_task htask) hold
    · obtain ⟨quotaRps, dailyQuota, rfl⟩ := method_of_rotates htask hrot
      cases he
      obtain ⟨rfl, _⟩ := (rowDuty_of_task hr htask (.ok ())).2.2
      refine ⟨h, ?_⟩
      show (match mapsTo a' _ with
        | some h => some (u, h)
        | none => lastMapped a' s.log) = _
      simp [mapsTo]
  · rw [progressOf_ne hut] at hmapped
    have hne : System.trace s.log u ≠ [] := by
      intro hnil
      rw [progressOf, hnil] at hmapped
      cases hmapped
    have hold := hr.running_advance hut hur hne
    rw [lastMapped_advance htask hr hw (held_of_mapped hr hrot hold hmapped) hold hut]
    exact hI.mapping a u hrot hold hmapped

theorem MappingInv.advance (hopen : Unmapped rows₀) :
    MappingInv rows₀ (s.advance t m o k ans sh) := by
  have hw := wrote_of_step htask hr hhandle
  have hrotates : ∀ {a u}, Rotates (s.advance t m o k ans sh) a u → Rotates s a u :=
    (rotates_advance htask hhandle).1
  refine
    { kept := fun key hkey => hw.durable_mono (hI.kept key hkey)
      fresh := fun u h => hI.fresh_advance hhandle hopen
      distinct := fun u v h => hI.distinct_advance hhandle
      mapRow := fun a => ⟨hw.synced_memberMap (hI.mapRow a).1, ?_⟩
      present := fun u h => hI.present_advance htask hhandle hr
      mapped := fun a u hrot => hI.mapped_advance htask hhandle hr (hrotates hrot)
      mapper := fun a u h hlast => ?_
      reading := fun a u p hrot => hI.reading_advance htask hhandle hr (hrotates hrot)
      previous := fun a u h hrot hprevious => ?_
      retired := fun a u h hrot hur hmem r => hI.retired_advance htask hhandle hr (hrotates hrot)
        hur hmem
      missing := fun a u h hrot => hI.missing_advance htask hhandle hr (hrotates hrot)
      mapping := fun a u hrot => hI.mapping_advance htask hhandle hr (hrotates hrot) }
  · rw [hw.get_memberMap]
    show _ = Option.map _ (match mapsTo a ⟨o, ans⟩ with
      | some h => some (t, h)
      | none => lastMapped a s.log)
    cases mapsTo a ⟨o, ans⟩ with
    | none => exact (hI.mapRow a).2
    | some h => rfl
  · obtain ⟨hrot, hrest⟩ := hI.mapper_advance htask hhandle hr hlast
    exact ⟨(rotates_advance htask hhandle).2 hrot, hrest⟩
  · obtain ⟨v, hv, hrest⟩ := hI.previous_advance htask hhandle hr (hrotates hrot) hprevious
    exact ⟨v, (rotates_advance htask hhandle).2 hv, hrest⟩

end Exec

/-- The mappings, and what was durable, are kept. -/
structure RowsKept (rows rows' : Rows) : Prop where
  durable : ∀ key, (rows.durable.dlookup key).isSome = true →
    (rows'.durable.dlookup key).isSome = true
  mapRow : ∀ a, rows.Synced (.memberMap a) →
    rows'.Synced (.memberMap a) ∧ rows'.get (.memberMap a) = rows.get (.memberMap a)
  possible : ∀ h r, rows'.Possible (.record h) r → rows.Possible (.record h) r

theorem rowsKept_refl (rows : Rows) : RowsKept rows rows :=
  ⟨fun _ h => h, fun _ h => ⟨h, rfl⟩, fun _ _ h => h⟩

theorem rowsKept_crash (rows : Rows) (mask : List Bool) : RowsKept rows (rows.crash mask) where
  durable key h := by
    have := DurableStore.get_crash_isSome h mask
    rwa [DurableStore.get_of_synced (DurableStore.synced_crash mask rows key)] at this
  mapRow a h := ⟨DurableStore.synced_crash mask rows _, DurableStore.get_crash_of_synced h⟩
  possible h r hposs := by
    rw [DurableStore.possible_iff_of_synced (DurableStore.synced_crash mask rows _)] at hposs
    exact DurableStore.possible_of_crash hposs

/-- A step without an access keeps the histories; the rows may only change when no call goes
on. -/
theorem MappingInv.quiet {s' : (proxyCalls hashKeyId).State} (hI : MappingInv rows₀ s)
    (hlog : s'.log = s.log) (hkept : RowsKept (proxyRows s) (proxyRows s'))
    (hrows : ∀ t, s'.running t = true → proxyRows s' = proxyRows s)
    (hissued : s'.shared.store.issued = s.shared.store.issued)
    (hrotates : ∀ {a t}, System.trace s.log t ≠ [] → (Rotates s' a t ↔ Rotates s a t))
    (hrunning : ∀ {t}, System.trace s.log t ≠ [] → s'.running t = true → s.running t = true) :
    MappingInv rows₀ s' := by
  have hprogress : ∀ t, progressOf s' t = progressOf s t := fun t => by
    rw [progressOf, hlog]
  have hminted : ∀ t, minted s' t = minted s t := fun t => by rw [minted, hprogress, minted]
  have hne : ∀ {t}, progressOf s t ≠ ⟨none, none, false, [], [], false⟩ →
      System.trace s.log t ≠ [] := by
    intro t h hnil
    rw [progressOf, hnil] at h
    exact h rfl
  refine
    { kept := fun key h => hkept.durable key (hI.kept key h)
      fresh := by simp only [hminted, hissued]; exact hI.fresh
      distinct := by simp only [hminted]; exact hI.distinct
      mapRow := fun a => ⟨(hkept.mapRow a (hI.mapRow a).1).1, ?_⟩
      present := fun t h hr hm hrec => ?_
      mapped := fun a t hrot hmapped => ?_
      mapper := fun a t h hlast => ?_
      reading := fun a t p hrot hr hprevious hmapped hheld => ?_
      previous := fun a t h hrot hprevious => ?_
      retired := fun a t h hrot hr hmem => ?_
      missing := fun a t h hrot hmem => ?_
      mapping := fun a t hrot hr hmapped => ?_ }
  · rw [(hkept.mapRow a (hI.mapRow a).1).2, hlog]
    exact (hI.mapRow a).2
  · rw [hprogress] at hrec
    rw [hminted] at hm
    rw [hrows t hr]
    exact hI.present t h (hrunning (hne fun hnil => by simp [hnil] at hrec) hr) hm hrec
  · rw [hprogress] at hmapped
    rw [hminted, hlog]
    obtain ⟨h, hm, hdurable, hlast⟩ :=
      hI.mapped a t ((hrotates (hne fun hnil => by simp [hnil] at hmapped)).1 hrot) hmapped
    exact ⟨h, hm, hkept.durable _ hdurable, hlast.imp id fun hrevoked r hposs =>
      hrevoked r (hkept.possible h r hposs)⟩
  · rw [hlog] at hlast
    rw [hprogress, hminted]
    obtain ⟨hrot, hmapped, hm⟩ := hI.mapper a t h hlast
    exact ⟨(hrotates (hne fun hnil => by simp [hnil] at hmapped)).2 hrot, hmapped, hm⟩
  · rw [hprogress] at hprevious hmapped
    rw [hlog] at hheld ⊢
    have hnil := ne_nil_of_depth hheld
    exact hI.reading a t p ((hrotates hnil).1 hrot) (hrunning hnil hr) hprevious hmapped hheld
  · rw [hprogress] at hprevious
    have hnil := hne (t := t) fun hnil => by simp [hnil] at hprevious
    obtain ⟨u, hu, hmapped, hm⟩ := hI.previous a t h ((hrotates hnil).1 hrot) hprevious
    refine ⟨u, (hrotates (hne fun hnil => by simp [hnil] at hmapped)).2 hu, ?_, ?_⟩
    · rwa [hprogress]
    · rwa [hminted]
  · rw [hprogress] at hmem
    rw [hrows t hr]
    have hnil := hne (t := t) fun hnil => by simp [hnil] at hmem
    exact hI.retired a t h ((hrotates hnil).1 hrot) (hrunning hnil hr) hmem
  · rw [hprogress] at hmem
    have hnil := hne (t := t) fun hnil => by simp [hnil] at hmem
    exact hI.missing a t h ((hrotates hnil).1 hrot) hmem
  · rw [hprogress] at hmapped
    rw [hlog]
    have hnil := hne (t := t) fun hnil => by simp [hnil] at hmapped
    exact hI.mapping a t ((hrotates hnil).1 hrot) (hrunning hnil hr) hmapped

theorem mappingInv_of_run (hopen : Unmapped rows₀) (hrun : ProxyRun hashKeyId rows₀ ok s) :
    MappingInv rows₀ s := by
  refine System.Reach.invariant (MappingInv rows₀) hrun ?_ ?_
  · have hnone : ∀ {a t}, ¬ Rotates (((proxyCalls hashKeyId).init (Shared.opened rows₀))) a t := by
      rintro a t ⟨quotaRps, dailyQuota, hjob⟩
      simp [System.State.job, System.init] at hjob
    refine ⟨fun _ hkey => hkey, fun t h hm => (by cases hm), fun t u h hm => (by cases hm),
      fun a => ⟨?_, hopen.unmapped a⟩, fun t h hr => (by cases hr),
      fun a t hrot => absurd hrot hnone, fun a t h hlast => (by cases hlast),
      fun a t p hrot => absurd hrot hnone, fun a t h hrot => absurd hrot hnone,
      fun a t h hrot => absurd hrot hnone, fun a t h hrot => absurd hrot hnone,
      fun a t hrot => absurd hrot hnone⟩
    show RowKey.memberMap a ∉ rows₀.pending.keys
    rw [hopen.durable]
    exact List.not_mem_nil
  intro s s' act hr hI hok hT
  have hrotates : ∀ {a t}, System.trace s.log t ≠ [] → (Rotates s' a t ↔ Rotates s a t) := by
    intro a t hne
    obtain ⟨e, he⟩ := List.exists_mem_of_ne_nil _ hne
    have hlt := hr.log_lt (System.mem_trace.1 he)
    simp only [Rotates, System.job_eq_of_step (System.step_of_transition hT) hlt]
  cases hT with
  | start m sh hstart =>
    cases hstart
    exact hI.quiet rfl (rowsKept_refl _) (fun _ _ => rfl) rfl hrotates
      fun hne hrunning => hr.running_begin hrunning hne
  | exec t c m o k ans sh htask hhandle => exact hI.advance htask hhandle hr hopen
  | drop t m o k htask =>
    exact hI.quiet rfl (rowsKept_refl _) (fun _ _ => rfl) rfl hrotates
      fun _ hrunning => (System.running_of_dropped hrunning).2
  | world w sh hworld =>
    obtain ⟨mask⟩ := w
    cases hworld
    have hstopped : ∀ {t} {P : Prop}, (System.State.turned s (.restart mask)
        (restarted s.shared mask)).running t = true → P := fun h => by
      rw [System.running_of_halted rfl] at h
      cases h
    exact hI.quiet rfl (rowsKept_crash _ mask) (fun _ => hstopped) rfl hrotates fun _ => hstopped

end Invariant

end Gateway.KeyStore
