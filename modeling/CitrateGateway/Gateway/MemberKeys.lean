import CitrateGateway.Gateway.MemberMapping

/-!
# One usable key per account

Every token that a completed rotation returned is revoked, except perhaps the latest one. A
rotation that is cut off after it wrote its mapping leaves a key that nobody was given.
-/

namespace Gateway.KeyStore
set_option autoImplicit false
open Words Effects Durable

section Results
variable {hashKeyId : String → String} {rows₀ : Rows} {s : (proxyCalls hashKeyId).State}
variable {ok : (proxyCalls hashKeyId).State → (proxyCalls hashKeyId).Action → Prop}
variable {a h : String} {t u : Nat}

/-- The rotation returned the token. -/
def Completed (s : (proxyCalls hashKeyId).State) (a : String) (t : Nat) (id : String) : Prop :=
  ∃ quotaRps dailyQuota, s.tasks[t]? = some ⟨.rotateMemberKey a quotaRps dailyQuota,
    some (.ret ⟨.rotateMemberKey a quotaRps dailyQuota, .ok id⟩)⟩

/-- One call does something after the last that the other does. -/
def EndsAfter (log : List (Nat × Event)) (t u : Nat) : Prop :=
  ∃ late e early, log = late ++ (t, e) :: early ∧ ∀ x ∈ late, x.1 ≠ u

def Live (s : (proxyCalls hashKeyId).State) (h : String) : Prop :=
  ∃ r, (proxyRows s).get (.record h) = some r ∧ r.revoked = false

def Revoked (s : (proxyCalls hashKeyId).State) (h : String) : Prop :=
  ∃ r, (proxyRows s).get (.record h) = some r ∧ r.revoked = true

/-- The rows that an operation writes. -/
def Op.writes : Op → List RowKey
  | .put row | .putSynced row => [row.1]
  | .writeBatch group => group.keys
  | _ => []

/-- The latest completed rotation of the account. -/
def Latest (s : (proxyCalls hashKeyId).State) (a : String) (t : Nat) : Prop :=
  ∀ u id, Completed s a u id → u ≠ t → EndsAfter s.log t u

/-- What the rotations of an account promise at any moment of a run. -/
structure OneLiveKey (rows₀ : Rows) (s : (proxyCalls hashKeyId).State) (a : String) : Prop where
  single : ∀ t id u id', Completed s a t id → Completed s a u id' → Live s (hashKeyId id) →
    Live s (hashKeyId id') → t = u
  latest : ∀ t id, Completed s a t id → Live s (hashKeyId id) → Latest s a t
  superseded : ∀ t id u id', Completed s a t id → Completed s a u id' → t ≠ u →
    EndsAfter s.log u t → Revoked s (hashKeyId id)
  named : ∀ t id, Completed s a t id → ∃ h, (proxyRows s).get (.memberMap a) = some h
  names : ∀ h, (proxyRows s).get (.memberMap a) = some h → Revoked s h ∨
    (Live s h ∧ ((∃ t id, Completed s a t id ∧ hashKeyId id = h ∧ Latest s a t) ∨
      ∃ t, Rotates s a t ∧ minted s t = some h ∧ ∀ id, ¬ Completed s a t id))
  apart : ∀ late t e early, s.log = late ++ (t, e) :: early → Rotates s a t →
    ∀ key ∈ e.1.writes, key = .memberMap a ∨ ∃ h, key = .record h ∧
      rows₀.get (.record h) = none ∧ (∃ u, minted s u = some h) ∧
        ∀ u, minted s u = some h → Rotates s a u

theorem EndsAfter.asymm {log : List (Nat × Event)} (h : EndsAfter log t u) (hne : t ≠ u) :
    ¬ EndsAfter log u t := by
  rintro ⟨late', e', early', hlog', hlate'⟩
  obtain ⟨late, e, early, hlog, hlate⟩ := h
  rw [hlog, List.append_eq_append_iff] at hlog'
  rcases hlog' with ⟨mid, rfl, hmid⟩ | ⟨mid, rfl, hmid⟩
  · cases mid with
    | nil =>
      cases hmid
      exact hne rfl
    | cons x mid =>
      cases hmid
      exact hlate' (t, e) (by simp) rfl
  · cases mid with
    | nil =>
      cases hmid
      exact hne rfl
    | cons x mid =>
      cases hmid
      exact hlate (u, e') (by simp) rfl

theorem lastMapped_split {log : List (Nat × Event)} (hlast : lastMapped a log = some (t, h)) :
    ∃ late e early, log = late ++ (t, e) :: early ∧ ∀ x ∈ late, mapsTo a x.2 = none := by
  induction log with
  | nil => cases hlast
  | cons x log ih =>
    obtain ⟨v, e⟩ := x
    simp only [lastMapped] at hlast
    split at hlast
    · cases hlast
      exact ⟨[], e, log, rfl, by simp⟩
    · rename_i hnone
      obtain ⟨late, e', early, rfl, hlate⟩ := ih hlast
      refine ⟨(v, e) :: late, e', early, rfl, fun x hx => ?_⟩
      rcases List.mem_cons.1 hx with rfl | hx
      · exact hnone
      · exact hlate x hx

theorem isSome_lastMapped {e : Event} {early : List (Nat × Event)} (late : List (Nat × Event))
    (hmaps : mapsTo a e = some h) :
    ∃ h, (lastMapped a (late ++ (t, e) :: early)).map (·.2) = some h := by
  induction late with
  | nil => exact ⟨h, by simp [lastMapped, hmaps]⟩
  | cons x late ih =>
    rw [List.cons_append, lastMapped]
    cases mapsTo a x.2 with
    | none => exact ih
    | some h' => exact ⟨h', rfl⟩

theorem lastMapped_append {late log : List (Nat × Event)}
    (hlate : ∀ x ∈ late, mapsTo a x.2 = none) : lastMapped a (late ++ log) = lastMapped a log := by
  induction late with
  | nil => rfl
  | cons x late ih =>
    rw [List.cons_append, lastMapped, hlate x List.mem_cons_self]
    exact ih fun y hy => hlate y (List.mem_cons_of_mem _ hy)

theorem eq_of_mapsTo {e : Event} (hmaps : mapsTo a e = some h) :
    e = ⟨.putSynced ⟨.memberMap a, h⟩, .ok ()⟩ := by
  unfold mapsTo at hmaps
  split at hmaps
  · simp only [Option.ite_none_right_eq_some, Option.some.injEq] at hmaps
    obtain ⟨rfl, rfl⟩ := hmaps
    rfl
  · cases hmaps

theorem mapsTo_of_mapped (hrun : ProxyRun hashKeyId rows₀ ok s) (hrot : Rotates s a t)
    (hmapped : (progressOf s t).mapped = true) :
    ∃ e h, (t, e) ∈ s.log ∧ mapsTo a e = some h := by
  obtain ⟨a', h', hmem⟩ := mapped_iff.1 hmapped
  refine ⟨_, h', System.mem_trace.1 hmem, ?_⟩
  obtain ⟨late, early, hlog⟩ := List.append_of_mem (System.mem_trace.1 hmem)
  obtain ⟨quotaRps, dailyQuota, hjob⟩ := hrot
  obtain ⟨j, hj, _, _, hduty⟩ := hrun.guar (rowContract hashKeyId) (row_served ok) hlog
  rw [hjob] at hj
  cases hj
  obtain ⟨rfl, _⟩ := hduty.2
  simp [mapsTo]

/-- The rotation that mapped its key last goes on after every other that mapped one. -/
theorem endsAfter_of_lastMapped (hopen : Unmapped rows₀) (hrun : ProxyRun hashKeyId rows₀ ok s)
    (hlast : lastMapped a s.log = some (t, h)) (hrot : Rotates s a u)
    (hmapped : (progressOf s u).mapped = true) (hne : u ≠ t) : EndsAfter s.log t u := by
  obtain ⟨late, e, early, hlog, hlate⟩ := lastMapped_split hlast
  refine ⟨late, e, early, hlog, fun x hx hxu => ?_⟩
  obtain ⟨v, e'⟩ := x
  subst hxu
  obtain ⟨late₁, late₂, rfl⟩ := List.append_of_mem hx
  rw [List.append_assoc, List.cons_append] at hlog
  obtain ⟨o, ans⟩ := e'
  obtain ⟨s₁, c, m, k, sh, hr, hlog₁, _, htask, _, hrest⟩ := hrun.event hlog
  obtain ⟨quotaRps, dailyQuota, hjob⟩ := hrot
  have hjob₁ := hrest.job_mono (System.job_advance htask)
  rw [hjob] at hjob₁
  obtain rfl := Option.some.inj hjob₁
  have hrot₁ : Rotates s₁ a v := rotates_task htask rfl
  -- it had mapped its key before
  obtain ⟨e₀, h₀, hmem, hmapsTo⟩ := mapsTo_of_mapped hrun ⟨quotaRps, dailyQuota, hjob⟩ hmapped
  obtain ⟨rfl, hmem₁⟩ : e₀ = ⟨.putSynced ⟨.memberMap a, h₀⟩, .ok ()⟩ ∧ (v, e₀) ∈ s₁.log := by
    refine ⟨eq_of_mapsTo hmapsTo, ?_⟩
    rw [hlog, ← hlog₁] at hmem
    rcases List.mem_append.1 hmem with hmem | hmem
    · rw [hlate _ (List.mem_append_left _ hmem)] at hmapsTo
      cases hmapsTo
    · rcases List.mem_cons.1 hmem with heq | hmem
      · rw [(Prod.mk.inj heq).2, hlate (v, ⟨o, ans⟩) (by simp)] at hmapsTo
        cases hmapsTo
      · exact hmem
  have hlast₁ : lastMapped a s₁.log = some (t, h) := by
    rw [hlog, ← List.cons_append, ← List.append_assoc, lastMapped_append hlate] at hlast
    rw [hlog₁, lastMapped_append fun x hx => hlate x (by simp [hx]), hlast]
  obtain ⟨h₁, hlast'⟩ := (mappingInv_of_run hopen hr).mapping a v hrot₁
    (System.running_of_task htask) (mapped_iff.2 ⟨a, h₀, System.mem_trace.2 hmem₁⟩)
  rw [hlast₁] at hlast'
  cases hlast'
  exact hne rfl

theorem Completed.rotates {id : String} (hc : Completed s a t id) : Rotates s a t := by
  obtain ⟨quotaRps, dailyQuota, htask⟩ := hc
  exact ⟨quotaRps, dailyQuota, System.job_of_task htask⟩

/-- A rotation that returned a token mapped its hash. -/
theorem Completed.mapped {id : String} (hrun : ProxyRun hashKeyId rows₀ ok s)
    (hc : Completed s a t id) :
    (progressOf s t).mapped = true ∧ minted s t = some (hashKeyId id) := by
  obtain ⟨quotaRps, dailyQuota, htask⟩ := hc
  obtain ⟨b, heq, hhanded⟩ := hrun.meets (rowContract hashKeyId) (row_served ok) htask
  cases heq
  obtain ⟨hmapped, x, rfl, hx⟩ := hhanded
  refine ⟨hmapped, ?_⟩
  rw [minted, progressOf, hx]
  rfl

theorem live_or_revoked (hsome : ((proxyRows s).get (.record h)).isSome = true) :
    Live s h ∨ Revoked s h := by
  obtain ⟨r, hr⟩ := Option.isSome_iff_exists.1 hsome
  cases hrevoked : r.revoked with
  | false => exact Or.inl ⟨r, hr, hrevoked⟩
  | true => exact Or.inr ⟨r, hr, hrevoked⟩

theorem not_live_of_revoked (hr : Revoked s h) : ¬ Live s h := by
  rintro ⟨r, hget, hlive⟩
  obtain ⟨r', hget', hrevoked⟩ := hr
  rw [hget] at hget'
  cases hget'
  rw [hlive] at hrevoked
  cases hrevoked

theorem isSome_of_durable {rows : Rows} {key : RowKey}
    (hdurable : (rows.durable.dlookup key).isSome = true) : (rows.get key).isSome = true := by
  rw [DurableStore.get_eq, Option.isSome_or, hdurable, Bool.or_true]

section Run
variable (hopen : Unmapped rows₀) (hrun : ProxyRun hashKeyId rows₀ ok s)
include hopen hrun

/-- A returned token is revoked, or its rotation mapped its key last. -/
theorem revoked_or_last {id : String} (hc : Completed s a t id) :
    Revoked s (hashKeyId id) ∨
      (Live s (hashKeyId id) ∧ lastMapped a s.log = some (t, hashKeyId id)) := by
  have hI := mappingInv_of_run hopen hrun
  obtain ⟨hmapped, hm⟩ := hc.mapped hrun
  obtain ⟨h, hm', hdurable, hlast⟩ := hI.mapped a t hc.rotates hmapped
  rw [hm] at hm'
  cases hm'
  rcases live_or_revoked (isSome_of_durable hdurable) with ⟨r, hget, hlive⟩ | hrevoked
  · refine Or.inr ⟨⟨r, hget, hlive⟩, hlast.resolve_right fun hall => ?_⟩
    rw [hall r (DurableStore.possible_of_get hget)] at hlive
    cases hlive
  · exact Or.inl hrevoked

theorem latest_of_last (hlast : lastMapped a s.log = some (t, h)) : Latest s a t :=
  fun _ _ hc hne => endsAfter_of_lastMapped hopen hrun hlast hc.rotates (hc.mapped hrun).1 hne

theorem latest_of_live {id : String} (hc : Completed s a t id) (hlive : Live s (hashKeyId id)) :
    Latest s a t := by
  rcases revoked_or_last hopen hrun hc with hrevoked | ⟨_, hlast⟩
  · exact absurd hlive (not_live_of_revoked hrevoked)
  · exact latest_of_last hopen hrun hlast

theorem names_of_run (hget : (proxyRows s).get (.memberMap a) = some h) : Revoked s h ∨
    (Live s h ∧ ((∃ t id, Completed s a t id ∧ hashKeyId id = h ∧ Latest s a t) ∨
      ∃ t, Rotates s a t ∧ minted s t = some h ∧ ∀ id, ¬ Completed s a t id)) := by
  have hI := mappingInv_of_run hopen hrun
  rw [(hI.mapRow a).2, Option.map_eq_some_iff] at hget
  obtain ⟨⟨t, h'⟩, hlast, rfl⟩ := hget
  obtain ⟨hrot, hmapped, hm⟩ := hI.mapper a t h' hlast
  obtain ⟨h, hm', hdurable, _⟩ := hI.mapped a t hrot hmapped
  rw [hm] at hm'
  cases hm'
  rcases live_or_revoked (isSome_of_durable hdurable) with hlive | hrevoked
  · refine Or.inr ⟨hlive, ?_⟩
    by_cases hc : ∃ id, Completed s a t id
    · obtain ⟨id, hc⟩ := hc
      have hm' := (hc.mapped hrun).2
      rw [hm] at hm'
      exact Or.inl ⟨t, id, hc, (Option.some.inj hm').symm, latest_of_last hopen hrun hlast⟩
    · exact Or.inr ⟨t, hrot, hm, fun id hid => hc ⟨id, hid⟩⟩
  · exact Or.inl hrevoked

omit hopen in
theorem minted_of_reach {s' : (proxyCalls hashKeyId).State}
    (hrest : System.Reach (proxyCalls hashKeyId) ok s s') (hm : minted s t = some h) :
    minted s' t = some h := by
  induction hrest with
  | refl => exact hm
  | step hreach hok hstep ih =>
    cases System.step_cases hstep with
    | exec u c m o k ans sh htask hhandle =>
      exact minted_advance htask (System.Reach.trans hrun hreach) ih
    | _ => exact ih

/-- A rotation writes the mapping of its account, and records that rotations of the account
minted. -/
theorem apart_of_run {late early : List (Nat × Event)} {e : Event} {key : RowKey}
    (hlog : s.log = late ++ (t, e) :: early) (hrot : Rotates s a t) (hkey : key ∈ e.1.writes) :
    key = .memberMap a ∨ ∃ h, key = .record h ∧ rows₀.get (.record h) = none ∧
      (∃ u, minted s u = some h) ∧ ∀ u, minted s u = some h → Rotates s a u := by
  have hI := mappingInv_of_run hopen hrun
  obtain ⟨o, ans⟩ := e
  obtain ⟨s₁, c, m, k, sh, hr, rfl, hok, htask, hhandle, hrest⟩ := hrun.event hlog
  have hI₁ := mappingInv_of_run hopen hr
  have hnext : System.Reach (proxyCalls hashKeyId) ok s₁ s :=
    System.Reach.trans (.step .refl hok (System.step_of_transition
      (System.Transition.exec (S := proxyCalls hashKeyId) t c m o k ans sh htask hhandle))) hrest
  obtain ⟨quotaRps, dailyQuota, hjob⟩ := hrot
  have hm := hrest.job_mono (System.job_advance htask)
  rw [hjob] at hm
  obtain rfl := Option.some.inj hm
  have hrot₁ : Rotates s₁ a t := rotates_task htask rfl
  have hown : ∀ {u h}, Rotates s₁ a u → minted s₁ u = some h → ∃ h', RowKey.record h = .record h' ∧
      rows₀.get (.record h') = none ∧ (∃ u, minted s u = some h') ∧
        ∀ u, minted s u = some h' → Rotates s a u := by
    intro u h hu hm
    obtain ⟨quotaRps, dailyQuota, hju⟩ := hu
    have hm' := minted_of_reach hr hnext hm
    refine ⟨h, rfl, (hI.fresh u h hm').2.1, ⟨u, hm'⟩, fun v hv => ?_⟩
    rw [hI.distinct v u h hv hm']
    exact ⟨quotaRps, dailyQuota, hnext.job_mono hju⟩
  have hduty := (rowDuty_of_task hr htask ans).2.2
  cases o with
  | put row =>
    obtain ⟨key', v⟩ := row
    cases List.mem_singleton.1 hkey
    cases key' with
    | record h =>
      rcases hduty with hmints | ⟨_, hprevious⟩
      · exact Or.inr (hown hrot₁ hmints.2.2)
      · obtain ⟨u, hu, _, hm⟩ := hI₁.previous a t h hrot₁ hprevious
        exact Or.inr (hown hu hm)
    | _ => exact hduty.elim
  | putSynced row =>
    obtain ⟨key', v⟩ := row
    cases List.mem_singleton.1 hkey
    cases key' with
    | memberMap a' => exact Or.inl (congrArg RowKey.memberMap hduty.1)
    | bal h => exact absurd hduty (hI₁.missing a t h hrot₁)
    | _ => exact hduty.elim
  | writeBatch group => exact hduty.elim
  | _ => cases hkey

/-- In every run of the proxy-key calls, with failures, dropped calls and crashes anywhere, an
account has one usable key. -/
theorem oneLiveKey_of_run (a : String) : OneLiveKey rows₀ s a where
  single t id u id' hc hc' hlive hlive' := by
    by_contra hne
    exact (latest_of_live hopen hrun hc hlive u id' hc' (Ne.symm hne)).asymm hne
      (latest_of_live hopen hrun hc' hlive' t id hc hne)
  latest t id hc hlive := latest_of_live hopen hrun hc hlive
  superseded t id u id' hc hc' hne hafter := by
    rcases revoked_or_last hopen hrun hc with hrevoked | ⟨_, hlast⟩
    · exact hrevoked
    · exact absurd hafter ((latest_of_last hopen hrun hlast u id' hc' (Ne.symm hne)).asymm hne)
  named t id hc := by
    obtain ⟨e, h, hmem, hmaps⟩ := mapsTo_of_mapped hrun hc.rotates (hc.mapped hrun).1
    obtain ⟨late, early, hlog⟩ := List.append_of_mem hmem
    rw [((mappingInv_of_run hopen hrun).mapRow a).2, hlog]
    exact isSome_lastMapped late hmaps
  names h hget := names_of_run hopen hrun hget
  apart late t e early hlog hrot key hkey := apart_of_run hopen hrun hlog hrot hkey

end Run
end Results

section Samples

def emptyRows : Rows := ⟨[], []⟩

theorem unmapped_emptyRows : Unmapped emptyRows := ⟨rfl, fun _ => rfl⟩

def rotation : ProxyMethod := .rotateMemberKey "a" 1 300

/-- Every step of the system: failures, dropped calls and crashes included. -/
def AnyStep (_ : (proxyCalls id).State) (_ : (proxyCalls id).Action) : Prop := True

/-- The first rotation up to the write of the mapping. -/
def firstRotation : List (Nat × Input) :=
  [(0, .ok), (0, .ok), (0, .uuid "1"), (0, .secs 5), (0, .ok), (0, .ok)]

theorem oneLiveKey_of_run_sample : ∃ s, ProxyRun id emptyRows AnyStep s ∧
    Completed s "a" 0 "cgk_1" ∧ Completed s "a" 1 "cgk_2" ∧ Revoked s "cgk_1" ∧ Live s "cgk_2" ∧
      OneLiveKey emptyRows s "a" := by
  obtain ⟨s, hs, hfirst, hsecond, hrows₁, hrows₂⟩ : ∃ s, (proxyCalls id).run (fun _ _ => true)
      ((proxyCalls id).init (Shared.opened emptyRows))
      (System.script (S := proxyCalls id) [rotation, rotation]
        (firstRotation ++ [(0, .ok), (1, .ok), (1, .ok), (1, .uuid "2"), (1, .secs 6), (1, .ok),
          (1, .ok), (1, .ok), (1, .ok), (1, .ok)]) ++ [.world (.restart [])]) = some s ∧
      s.tasks[0]? = some ⟨rotation, some (.ret ⟨rotation, .ok "cgk_1"⟩)⟩ ∧
      s.tasks[1]? = some ⟨rotation, some (.ret ⟨rotation, .ok "cgk_2"⟩)⟩ ∧
      (proxyRows s).get (.record "cgk_1") = some ⟨"member:a", 5, true, 1, 300⟩ ∧
      (proxyRows s).get (.record "cgk_2") = some ⟨"member:a", 6, false, 1, 300⟩ :=
    ⟨_, rfl, rfl, rfl, rfl, rfl⟩
  have hrun : ProxyRun id emptyRows AnyStep s := System.Reach.of_run (fun _ _ _ => trivial) hs
  exact ⟨s, hrun, ⟨1, 300, hfirst⟩, ⟨1, 300, hsecond⟩, ⟨_, hrows₁, rfl⟩, ⟨_, hrows₂, rfl⟩,
    oneLiveKey_of_run unmapped_emptyRows hrun "a"⟩

/-- A rotation is cut off between the write of its mapping and its return: the mapping names a
usable key that was never handed out. -/
theorem mapped_key_unreturned : ∃ s, ProxyRun id emptyRows AnyStep s ∧
    (∀ t, s.running t = false) ∧ (proxyRows s).get (.memberMap "a") = some "cgk_1" ∧
      Live s "cgk_1" ∧ ∀ t id, ¬ Completed s "a" t id := by
  obtain ⟨s, hs, htasks, hmap, hrow⟩ : ∃ s, (proxyCalls id).run (fun _ _ => true)
      ((proxyCalls id).init (Shared.opened emptyRows))
      (System.script (S := proxyCalls id) [rotation] firstRotation ++ [.world (.restart [])]) =
        some s ∧
      s.tasks = [⟨rotation, none⟩] ∧ (proxyRows s).get (.memberMap "a") = some "cgk_1" ∧
      (proxyRows s).get (.record "cgk_1") = some ⟨"member:a", 5, false, 1, 300⟩ :=
    ⟨_, rfl, rfl, rfl, rfl⟩
  have htask : ∀ (t : Nat) k, s.tasks[t]? = some k → k.prog = none := fun t k h => by
    rw [htasks] at h
    rw [List.mem_singleton.1 (List.mem_of_getElem? h)]
  refine ⟨s, System.Reach.of_run (fun _ _ _ => trivial) hs, fun t => ?_, hmap, ⟨_, hrow, rfl⟩, ?_⟩
  · rw [System.State.running]
    split
    · rename_i h
      cases htask t _ h
    · rfl
  · rintro t id ⟨quotaRps, dailyQuota, h⟩
    cases htask t _ h

end Samples
end Gateway.KeyStore
