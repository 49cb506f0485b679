import CitrateGateway.Gateway.MemberMapping

/-!
# The terms of a key

A key is issued once, under a label, a rate and a daily quota. From then on its record changes by
being revoked and in no other way, through any interleaving of the calls, restarts and lost writes;
and what was revoked stays so as long as the store is open.
-/

namespace Gateway
set_option autoImplicit false
open Words Effects Durable

/-- The record as it was when the key was issued. -/
def KeyRecord.issued (r : KeyRecord) : KeyRecord := { r with revoked := false }

theorem KeyRecord.issued_of_unrevoked {r : KeyRecord} (h : r.revoked = false) : r.issued = r := by
  rw [issued, ← h]

namespace KeyStore

section Promise
variable {hashKeyId : String → String} {past : List Event}

/-- The method issues keys with this record. -/
def ProxyMethod.Issues : ProxyMethod → KeyRecord → Prop
  | .createKey label quotaRps dailyQuota, r =>
    r.label = label ∧ r.quotaRps = quotaRps ∧ r.dailyQuota = dailyQuota
  | .rotateMemberKey subhash quotaRps dailyQuota, r =>
    r.label = memberLabelPrefix ++ subhash ∧ r.quotaRps = quotaRps ∧ r.dailyQuota = dailyQuota
  | _, _ => False

/-- A record that is written is the method's own, or was read before and is now revoked. -/
def ProxyMethod.RecordDuty (m : ProxyMethod) (past : List Event) (e : Event) : Prop :=
  match e.1 with
  | .put ⟨.record h, r⟩ => ((r : KeyRecord).revoked = false → m.Issues r) ∧
      (r.revoked = true → ∃ r₀ : KeyRecord,
        (⟨.get (.record h), .ok (some r₀)⟩ : Event) ∈ past ∧ r = { r₀ with revoked := true })
  | _ => True

abbrev Recording {α : Type} (m : ProxyMethod) (p : M α) (past : List Event) : Prop :=
  p.Meets AnyEvent m.RecordDuty (fun _ _ => True) past

theorem createKey_recording {m : ProxyMethod} {label : String} {quotaRps : UInt32}
    {dailyQuota : UInt64} (hissues : ∀ now, m.Issues ⟨label, now, false, quotaRps, dailyQuota⟩) :
    Recording m (createKey hashKeyId label quotaRps dailyQuota) past := by
  refine Prog.meets_perform_bind.2 fun u _ => ⟨trivial, ?_⟩
  refine Prog.meets_perform_bind.2 fun now _ => ⟨trivial, ?_⟩
  refine Prog.meets_perform_bind.2 fun w _ => ⟨⟨fun _ => hissues now, fun h => by cases h⟩, ?_⟩
  cases w <;> trivial

theorem revokeHash_recording (m : ProxyMethod) (h : String) :
    Recording m (revokeHash h) past := by
  refine Prog.meets_perform_bind.2 fun found _ => ⟨trivial, ?_⟩
  match found with
  | .error e => trivial
  | .ok (some r) =>
    refine Prog.meets_perform_bind.2 fun w _ => ⟨⟨fun h => (by cases h), fun _ => ?_⟩, trivial⟩
    exact ⟨r, List.mem_cons_self, rfl⟩
  | .ok none =>
    refine Prog.meets_perform_bind.2 fun _ _ => ⟨trivial, ?_⟩
    rw [Prog.meets_bind]
    refine Prog.meets_perform_bind.2 fun answer _ => ⟨trivial, ?_⟩
    match answer with
    | .error e => exact Prog.meets_perform_bind.2 fun _ _ => ⟨trivial, trivial⟩
    | .ok none => exact Prog.meets_perform_bind.2 fun _ _ => ⟨trivial, trivial⟩
    | .ok (some r) =>
      refine Prog.meets_perform_bind.2 fun w _ => ⟨trivial, ?_⟩
      exact Prog.meets_perform_bind.2 fun _ _ => ⟨trivial, trivial⟩

theorem rotateMemberKey_recording (a : String) (quotaRps : UInt32) (dailyQuota : UInt64) :
    Recording (.rotateMemberKey a quotaRps dailyQuota)
      (rotateMemberKey hashKeyId a quotaRps dailyQuota) past := by
  have hread : ∀ past, Recording (.rotateMemberKey a quotaRps dailyQuota) (memberKeyHash a) past :=
    fun past => Prog.meets_perform_bind.2 fun answer _ => ⟨trivial, by cases answer <;> trivial⟩
  have hcreate : ∀ past, Recording (.rotateMemberKey a quotaRps dailyQuota)
      (createKey hashKeyId (memberLabelPrefix ++ a) quotaRps dailyQuota) past := fun past =>
    createKey_recording fun now => ⟨rfl, rfl, rfl⟩
  have hretire : ∀ previous past, Recording (.rotateMemberKey a quotaRps dailyQuota)
      (retire previous) past := by
    intro previous past
    cases previous with
    | none => trivial
    | some old =>
      refine Prog.Meets.bind (revokeHash_recording _ old) fun _ r _ => ?_
      match r with
      | .ok () => trivial
      | .error e => cases e <;> trivial
  have hunlock : ∀ {past : List Event} {r : Except StoreError String},
      Recording (.rotateMemberKey a quotaRps dailyQuota)
        (do unlock (memberMapKey a); return r) past :=
    Prog.meets_perform_bind.2 fun _ _ => ⟨trivial, trivial⟩
  refine Prog.meets_perform_bind.2 fun _ _ => ⟨trivial, ?_⟩
  rw [Prog.meets_bind]
  refine Prog.Meets.bind (hread _) fun past₁ answer _ => ?_
  cases answer with
  | error e => exact hunlock
  | ok previous =>
    refine Prog.Meets.bind (hcreate _) fun past₂ created _ => ?_
    cases created with
    | error e => exact hunlock
    | ok id =>
      refine Prog.Meets.bind (hretire previous _) fun past₃ retired _ => ?_
      cases retired with
      | error e => exact hunlock
      | ok u =>
        refine Prog.meets_perform_bind.2 fun w _ => ⟨trivial, ?_⟩
        cases w <;> exact hunlock

theorem proxy_recording (m : ProxyMethod) : Recording m (m.prog hashKeyId) [] := by
  cases m with
  | createKey label quotaRps dailyQuota => exact createKey_recording fun now => ⟨rfl, rfl, rfl⟩
  | revoke keyId => exact revokeHash_recording _ _
  | revokeHash hash => exact revokeHash_recording _ _
  | rotateMemberKey a quotaRps dailyQuota => exact rotateMemberKey_recording a quotaRps dailyQuota
  | setMemberPoolDaily cap => exact Prog.meets_perform.2 fun _ _ => ⟨trivial, trivial⟩
  | tryConsume keyId =>
    refine ((tryConsume_consuming keyId).mono_guar fun past e _ hduty => ?_).mono
      fun _ _ _ => trivial
    obtain ⟨o, a⟩ := e
    cases o with
    | put row =>
      obtain ⟨k, v⟩ := row
      cases k with
      | record h => exact hduty.elim
      | _ => trivial
    | _ => trivial

/-- The rows that a call writes, and where the records among them come from. -/
def recordContract (hashKeyId : String → String) : System.Contract (proxyCalls hashKeyId) where
  rely := AnyEvent
  guar := fun m past e => m.RowDuty hashKeyId past e ∧ m.RecordDuty past e
  post := fun _ _ _ => True
  meets := fun m => ((proxy_rows m).and (proxy_recording m)).bind fun _ _ _ => trivial

theorem recorded_of_put {h : String} {r : KeyRecord}
    (hput : (⟨.put ⟨.record h, r⟩, .ok ()⟩ : Event) ∈ past) (hr : r.revoked = false) :
    (progress past).recorded = true := by
  induction past with
  | nil => cases hput
  | cons e past ih =>
    rcases List.mem_cons.1 hput with rfl | hmem
    · simp [progress, Progress.next, hr]
    · exact recorded_next (ih hmem) e

/-- A call issues one record. -/
theorem issued_once {m : ProxyMethod} (hkept : System.Kept (m.RowDuty hashKeyId) past)
    {h h' : String} {r r' : KeyRecord} (hput : (⟨.put ⟨.record h, r⟩, .ok ()⟩ : Event) ∈ past)
    (hr : r.revoked = false) (hput' : (⟨.put ⟨.record h', r'⟩, .ok ()⟩ : Event) ∈ past)
    (hr' : r'.revoked = false) : r = r' := by
  have hfirst : ∀ {past : List Event} {h : String} {r : KeyRecord} {ans},
      m.RowDuty hashKeyId past ⟨.put ⟨.record h, r⟩, ans⟩ → r.revoked = false →
        (progress past).recorded = false := by
    intro past h r ans hduty hr
    rcases mints_or_revokes hduty with hmints | hrevoked
    · exact hmints.2.1
    · rw [hr] at hrevoked
      cases hrevoked
  induction past with
  | nil => cases hput
  | cons e past ih =>
    obtain ⟨hduty, hkept⟩ := hkept
    rcases List.mem_cons.1 hput with heq | hmem
    · rcases List.mem_cons.1 hput' with heq' | hmem'
      · rw [← heq] at heq'
        cases heq'
        rfl
      · subst heq
        have := recorded_of_put hmem' hr'
        rw [hfirst hduty hr] at this
        cases this
    · rcases List.mem_cons.1 hput' with heq' | hmem'
      · subst heq'
        have := recorded_of_put hmem hr
        rw [hfirst hduty hr'] at this
        cases this
      · exact ih hkept hmem hmem'

end Promise

section Tokens
variable {hashKeyId : String → String} {rows₀ : Rows} {s : (proxyCalls hashKeyId).State}
variable {ok : (proxyCalls hashKeyId).State → (proxyCalls hashKeyId).Action → Prop}

/-- Every key that was issued has a hash of its own, which no record had when the store was
opened. -/
structure TokensFresh (rows₀ : Rows) (s : (proxyCalls hashKeyId).State) : Prop where
  kept : ∀ k, (rows₀.durable.dlookup k).isSome = true →
    ((proxyRows s).durable.dlookup k).isSome = true
  fresh : ∀ t h, minted s t = some h →
    h ∈ s.shared.store.issued ∧ rows₀.get (.record h) = none
  distinct : ∀ t u h, minted s t = some h → minted s u = some h → t = u

theorem TokensFresh.advance {t : Nat} {m : ProxyMethod} {o : Op}
    {k : o.Ans → M ((m : ProxyMethod) × m.Ans)} {c : Input} {ans : o.Ans} {sh : Shared}
    (hI : TokensFresh rows₀ s) (hopen : rows₀.pending = []) (hr : ProxyRun hashKeyId rows₀ ok s)
    (htask : s.tasks[t]? = some ⟨m, some (.op o k)⟩)
    (hhandle : handle hashKeyId s.shared t o c = some (ans, sh)) :
    TokensFresh rows₀ (s.advance t m o k ans sh) := by
  have hacc := handle_cases hhandle
  have hold : ∀ {x}, (⟨o, ans⟩ : Event) = ⟨.newUuid, x⟩ → ∀ {u}, minted s u ≠
      some (tokenHash hashKeyId x) := by
    intro x he u hm
    obtain ⟨hfresh, _⟩ := fresh_of_newUuid hacc he
    simp only [Store.fresh, Bool.and_eq_true, decide_eq_true_eq] at hfresh
    exact hfresh.1.1 (hI.fresh u _ hm).1
  refine ⟨fun key hkey => (wrote_of_step htask hr hhandle).durable_mono (hI.kept key hkey),
    fun u h hm => ?_, fun u v h hm hm' => ?_⟩
  · rw [advance_store]
    rcases minted_of_advance hm with hbefore | ⟨_, x, he, rfl⟩
    · exact ⟨issued_mono hacc (hI.fresh u h hbefore).1, (hI.fresh u h hbefore).2⟩
    · obtain ⟨hfresh, hissued⟩ := fresh_of_newUuid hacc he
      refine ⟨hissued, ?_⟩
      simp only [Store.fresh, Bool.and_eq_true, Option.isNone_iff_eq_none] at hfresh
      -- a record that was there at the opening is durable, and so still there
      by_contra hsome
      rw [DurableStore.get_eq, hopen] at hsome
      have hkept := hI.kept _ (Option.isSome_iff_ne_none.2 hsome)
      have hnone := hfresh.2
      rw [DurableStore.get_eq, Option.or_eq_none_iff] at hnone
      rw [hnone.2] at hkept
      cases hkept
  · rcases minted_of_advance hm with hbefore | ⟨rfl, x, he, rfl⟩
    · rcases minted_of_advance hm' with hbefore' | ⟨rfl, x, he, rfl⟩
      · exact hI.distinct u v h hbefore hbefore'
      · exact absurd hbefore (hold he)
    · rcases minted_of_advance hm' with hbefore' | ⟨rfl, _⟩
      · exact absurd hbefore' (hold he)
      · rfl

theorem tokensFresh_of_run (hopen : rows₀.pending = []) (hrun : ProxyRun hashKeyId rows₀ ok s) :
    TokensFresh rows₀ s := by
  refine System.Reach.invariant (TokensFresh rows₀) hrun ?_ ?_
  · exact ⟨fun _ h => h, fun t h hm => (by cases hm), fun t u h hm => (by cases hm)⟩
  intro s s' act hr hI hok hT
  cases hT with
  | start m sh hstart =>
    cases hstart
    exact ⟨hI.kept, hI.fresh, hI.distinct⟩
  | exec t c m o k ans sh htask hhandle => exact hI.advance hopen hr htask hhandle
  | drop t m o k htask => exact ⟨hI.kept, hI.fresh, hI.distinct⟩
  | world w sh hworld =>
    obtain ⟨mask⟩ := w
    cases hworld
    exact ⟨fun key hkey => (rowsKept_crash _ mask).durable key (hI.kept key hkey), hI.fresh,
      hI.distinct⟩

end Tokens

section Terms
variable {hashKeyId : String → String} {rows₀ : Rows} {s s' : (proxyCalls hashKeyId).State}
variable {ok : (proxyCalls hashKeyId).State → (proxyCalls hashKeyId).Action → Prop}
variable {h : String} {r r' : KeyRecord}

/-- The record that a key was issued with: it was there when the store was opened, or one call
issued it. -/
inductive Origin (rows₀ : Rows) (s : (proxyCalls hashKeyId).State) (h : String) :
    KeyRecord → Prop where
  | opened (r : KeyRecord) (hget : rows₀.get (.record h) = some r) : Origin rows₀ s h r.issued
  | issued (t : Nat) (m : ProxyMethod) (r : KeyRecord) (hjob : s.job t = some m)
      (hminted : minted s t = some h) (hissues : m.Issues r) (hrevoked : r.revoked = false)
      (hput : (⟨.put ⟨.record h, r⟩, .ok ()⟩ : Event) ∈ System.trace s.log t) :
      Origin rows₀ s h r

theorem Origin.mono (horigin : Origin rows₀ s h r)
    (hjob : ∀ t m, s.job t = some m → s'.job t = some m)
    (hminted : ∀ t h, minted s t = some h → minted s' t = some h)
    (hlog : ∀ x ∈ s.log, x ∈ s'.log) : Origin rows₀ s' h r := by
  cases horigin with
  | opened r hget => exact .opened r hget
  | issued t m r hj hm hissues hrevoked hput =>
    refine .issued t m r (hjob t m hj) (hminted t h hm) hissues hrevoked ?_
    exact System.mem_trace.2 (hlog _ (System.mem_trace.1 hput))

theorem Origin.unique (hfresh : TokensFresh rows₀ s) (hrun : ProxyRun hashKeyId rows₀ ok s)
    (horigin : Origin rows₀ s h r) (horigin' : Origin rows₀ s h r') : r = r' := by
  have hnew : ∀ {t r}, minted s t = some h → rows₀.get (.record h) ≠ some r := by
    intro t r hm hget
    rw [(hfresh.fresh t h hm).2] at hget
    cases hget
  cases horigin with
  | opened r₁ hget =>
    cases horigin' with
    | opened r₂ hget' =>
      rw [hget] at hget'
      cases hget'
      rfl
    | issued t m r₂ hj hm => exact absurd hget (hnew hm)
  | issued t m r₁ hj hm hissues hrevoked hput =>
    cases horigin' with
    | opened r₂ hget' => exact absurd hget' (hnew hm)
    | issued u m' r₂ hj' hm' hissues' hrevoked' hput' =>
      obtain rfl := hfresh.distinct t u h hm hm'
      have hkept := (hrun.kept (rowContract hashKeyId) (row_served ok) hj).mono fun _ _ h => h.2
      exact issued_once hkept hput hrevoked hput' hrevoked'

/-- Everything that is read, or may be after a crash, shows the record a key was issued with. -/
structure TermsInv (rows₀ : Rows) (s : (proxyCalls hashKeyId).State) : Prop where
  rows : ∀ h r, (proxyRows s).Possible (.record h) r → Origin rows₀ s h r.issued
  seen : ∀ t h r, (t, (⟨.get (.record h), .ok (some r)⟩ : Event)) ∈ s.log →
    Origin rows₀ s h r.issued

theorem record_served (ok : (proxyCalls hashKeyId).State → (proxyCalls hashKeyId).Action → Prop) :
    (recordContract hashKeyId).Served ok :=
  fun _ _ _ _ _ _ _ _ => trivial

theorem possible_of_wrote {m : ProxyMethod} {past : List Event} {e : Event} {rows rows' : Rows}
    (hw : Wrote hashKeyId m past rows e rows') (hposs : rows'.Possible (.record h) r) :
    rows.Possible (.record h) r ∨ e = ⟨.put ⟨.record h, r⟩, .ok ()⟩ := by
  cases hw with
  | nothing e hmaps => exact Or.inl hposs
  | record h' r' hr =>
    rcases DurableStore.possible_put hposs with heq | hold
    · cases heq
      exact Or.inr rfl
    · exact Or.inl hold
  | counter =>
    rcases DurableStore.possible_put hposs with heq | hold
    · cases heq
    · exact Or.inl hold
  | balance | mapping =>
    rw [DurableStore.possible_iff_of_synced (DurableStore.synced_commit _ _ _),
      DurableStore.get_commit_ne _ (by simp)] at hposs
    exact Or.inl (DurableStore.possible_of_get hposs)

section Exec
variable {t : Nat} {m : ProxyMethod} {o : Op} {k : o.Ans → M ((m : ProxyMethod) × m.Ans)}
variable {c : Input} {ans : o.Ans} {sh : Shared}
variable (hI : TermsInv rows₀ s) (hr : ProxyRun hashKeyId rows₀ ok s)
variable (htask : s.tasks[t]? = some ⟨m, some (.op o k)⟩)
variable (hhandle : handle hashKeyId s.shared t o c = some (ans, sh))
include hr htask hhandle

theorem Origin.advance (horigin : Origin rows₀ s h r) :
    Origin rows₀ (s.advance t m o k ans sh) h r := by
  have hT : System.Transition s (.exec t c) (s.advance t m o k ans sh) :=
    System.Transition.exec (S := proxyCalls hashKeyId) t c m o k ans sh htask hhandle
  exact horigin.mono (fun _ _ => System.job_step (System.step_of_transition hT))
    (fun _ _ => minted_advance htask hr) fun _ => List.mem_cons_of_mem _

include hI

/-- A record that a call writes shows what its key was issued with. -/
theorem TermsInv.put (he : (⟨o, ans⟩ : Event) = ⟨.put ⟨.record h, r⟩, .ok ()⟩) :
    Origin rows₀ (s.advance t m o k ans sh) h r.issued := by
  have hduty := (Prog.meets_op.1 (hr.meets (recordContract hashKeyId) (record_served ok) htask)
    ans trivial).1
  have hT : System.Transition s (.exec t c) (s.advance t m o k ans sh) :=
    System.Transition.exec (S := proxyCalls hashKeyId) t c m o k ans sh htask hhandle
  have hjob := System.job_step (System.step_of_transition hT) (System.job_of_task htask)
  cases hrevoked : r.revoked with
  | true =>
    cases he
    obtain ⟨r₀, hread, rfl⟩ := hduty.2.2 hrevoked
    exact (hI.seen t h r₀ (System.mem_trace.1 hread)).advance hr htask hhandle
  | false =>
    have hput : (⟨.put ⟨.record h, r⟩, .ok ()⟩ : Event) ∈
        System.trace (s.advance t m o k ans sh).log t := by
      rw [System.trace_advance_self, he]
      exact List.mem_cons_self
    cases he
    rw [KeyRecord.issued_of_unrevoked hrevoked]
    rcases mints_or_revokes hduty.1 with hmints | hrevoked'
    · exact .issued t m r hjob (minted_advance htask hr hmints.2.2) (hduty.2.1 hrevoked)
        hrevoked hput
    · rw [hrevoked] at hrevoked'
      cases hrevoked'

theorem TermsInv.advance : TermsInv rows₀ (s.advance t m o k ans sh) where
  rows h r hposs := by
    rcases possible_of_wrote (wrote_of_step htask hr hhandle) hposs with hold | he
    · exact (hI.rows h r hold).advance hr htask hhandle
    · exact hI.put hr htask hhandle he
  seen u h r hmem := by
    rcases List.mem_cons.1 hmem with heq | hold
    · have he : (⟨o, ans⟩ : Event) = ⟨.get (.record h), .ok (some r)⟩ :=
        (congrArg Prod.snd heq).symm
      cases he
      have hget := get_of_accessed (handle_cases hhandle)
      exact (hI.rows h r (DurableStore.possible_of_get hget)).advance hr htask hhandle
    · exact (hI.seen u h r hold).advance hr htask hhandle

end Exec

theorem termsInv_of_run (hopen : rows₀.pending = []) (hrun : ProxyRun hashKeyId rows₀ ok s) :
    TermsInv rows₀ s := by
  refine System.Reach.invariant (TermsInv rows₀) hrun ?_ ?_
  · refine ⟨fun h r hposs => .opened r ?_, fun t h r hmem => (by cases hmem)⟩
    have hsynced : rows₀.Synced (.record h) := by
      rw [DurableStore.Synced, hopen]
      exact List.not_mem_nil
    exact (DurableStore.possible_iff_of_synced hsynced).1 hposs
  intro s s' act hr hI hok hT
  have hstay : s'.log = s.log → ∀ {h r}, Origin rows₀ s h r → Origin rows₀ s' h r := by
    intro hlog h r horigin
    refine horigin.mono (fun _ _ => System.job_step (System.step_of_transition hT)) ?_ ?_
    · intro t h hm
      rwa [minted, progressOf, hlog]
    · rw [hlog]
      exact fun _ hx => hx
  have hquiet : s'.log = s.log → (∀ h r, (proxyRows s').Possible (.record h) r →
      (proxyRows s).Possible (.record h) r) → TermsInv rows₀ s' := by
    intro hlog hrows
    refine ⟨fun h r hposs => hstay hlog (hI.rows h r (hrows h r hposs)), fun t h r hmem => ?_⟩
    rw [hlog] at hmem
    exact hstay hlog (hI.seen t h r hmem)
  cases hT with
  | start m sh hstart =>
    cases hstart
    exact hquiet rfl fun _ _ hposs => hposs
  | exec t c m o k ans sh htask hhandle => exact hI.advance hr htask hhandle
  | drop t m o k htask => exact hquiet rfl fun _ _ hposs => hposs
  | world w sh hworld =>
    obtain ⟨mask⟩ := w
    cases hworld
    exact hquiet rfl (rowsKept_crash _ mask).possible

/-- The record was read by a call, or it is in the store, or a crash may bring it back. -/
def Found (s : (proxyCalls hashKeyId).State) (h : String) (r : KeyRecord) : Prop :=
  (proxyRows s).Possible (.record h) r ∨
    ∃ t, (t, (⟨.get (.record h), .ok (some r)⟩ : Event)) ∈ s.log

/-- What is found of a key, at any time and by anybody, differs by the revocation at most; and it
is what the key was issued with. -/
structure TermsFixed (rows₀ : Rows) (s : (proxyCalls hashKeyId).State) (h : String) : Prop where
  agree : ∀ r r', Found s h r → Found s h r' → r.issued = r'.issued
  origin : ∀ r, Found s h r → (∃ r₀, rows₀.get (.record h) = some r₀ ∧ r.issued = r₀.issued) ∨
    ∃ t m, s.job t = some m ∧ minted s t = some h ∧ m.Issues r

theorem issues_issued {m : ProxyMethod} : m.Issues r.issued ↔ m.Issues r := by
  cases m <;> exact Iff.rfl

section Terms
variable (hopen : rows₀.pending = []) (hrun : ProxyRun hashKeyId rows₀ ok s)
include hopen hrun

theorem origin_of_found (hfound : Found s h r) : Origin rows₀ s h r.issued := by
  have hI := termsInv_of_run hopen hrun
  rcases hfound with hposs | ⟨t, hread⟩
  · exact hI.rows h r hposs
  · exact hI.seen t h r hread

theorem issued_of_found (hfound : Found s h r) (hfound' : Found s h r') :
    r.issued = r'.issued :=
  (origin_of_found hopen hrun hfound).unique (tokensFresh_of_run hopen hrun) hrun
    (origin_of_found hopen hrun hfound')

/-- In every run, the terms of a key are those it was issued with. -/
theorem termsFixed_of_run (h : String) : TermsFixed rows₀ s h := by
  refine ⟨fun r r' => issued_of_found hopen hrun, fun r hfound => ?_⟩
  have hissued := origin_of_found hopen hrun hfound
  generalize heq : r.issued = r₁ at hissued
  cases hissued with
  | opened r₀ hget => exact Or.inl ⟨r₀, hget, rfl⟩
  | issued t m r₁ hjob hminted hissues =>
    subst heq
    exact Or.inr ⟨t, m, hjob, hminted, issues_issued.1 hissues⟩

end Terms

theorem seen_of_record {past : List Event} (hkept : System.Kept (ConsumeDuty h) past)
    (hrecord : (view past).record = some r) :
    (⟨.get (.record h), .ok (some r)⟩ : Event) ∈ past := by
  induction past with
  | nil => cases hrecord
  | cons e past ih =>
    obtain ⟨hduty, hkept⟩ := hkept
    rcases record_next hrecord with hold | ⟨h', rfl⟩
    · exact List.mem_cons_of_mem _ (ih hkept hold)
    · obtain ⟨rfl, _⟩ := hduty
      exact List.mem_cons_self

/-- A call that succeeds tells the label of the record it found. -/
theorem found_of_consumed (hrun : ProxyRun hashKeyId rows₀ ok s) {n : Nat} {keyId : String}
    {key : ConsumedKey}
    (htask : s.tasks[n]? = some ⟨.tryConsume keyId, some (.ret ⟨.tryConsume keyId, .ok key⟩)⟩) :
    ∃ r, Found s (hashKeyId keyId) r ∧ key = ⟨hashKeyId keyId, r.label⟩ := by
  obtain ⟨a, heq, hconsumed⟩ := hrun.meets (consumeContract hashKeyId) (consume_served ok) htask
  cases heq
  obtain ⟨r, hrecord, hkey, _⟩ := hconsumed.of_ok key rfl
  have hkept := (hrun.kept (consumeContract hashKeyId) (consume_served ok)
    (System.job_of_task htask)).mono fun _ _ h => h.2
  exact ⟨r, Or.inr ⟨n, System.mem_trace.1 (seen_of_record hkept hrecord)⟩, hkey⟩

end Terms

section Revocation
variable {hashKeyId : String → String} {rows₀ : Rows} {s s' : (proxyCalls hashKeyId).State}
variable {ok : (proxyCalls hashKeyId).State → (proxyCalls hashKeyId).Action → Prop}
variable {h : String} {r : KeyRecord}

theorem record_of_wrote {m : ProxyMethod} {past : List Event} {e : Event} {rows rows' : Rows}
    (hw : Wrote hashKeyId m past rows e rows') (h : String) :
    rows'.get (.record h) = rows.get (.record h) ∨ ∃ r, e = ⟨.put ⟨.record h, r⟩, .ok ()⟩ := by
  cases hw with
  | nothing e hmaps => exact Or.inl rfl
  | record h' r hr =>
    by_cases heq : h = h'
    · subst heq
      exact Or.inr ⟨r, rfl⟩
    · exact Or.inl (DurableStore.get_put_ne _ (by simpa using heq))
  | counter => exact Or.inl (DurableStore.get_put_ne _ (by simp))
  | balance => exact Or.inl (DurableStore.get_commit_ne _ (by simp))
  | mapping => exact Or.inl (DurableStore.get_commit_ne _ (by simp))

/-- A key that has a record is not issued again. -/
theorem not_mints_of_found (hfresh : TokensFresh rows₀ s) (hI : TermsInv rows₀ s)
    (hget : (proxyRows s).get (.record h) = some r) {t : Nat} {r' : KeyRecord} :
    ¬ Mints hashKeyId (System.trace s.log t) h r' := by
  intro ⟨_, hrecorded, hminted⟩
  have hissued := hI.rows h r (DurableStore.possible_of_get hget)
  generalize r.issued = r₁ at hissued
  cases hissued with
  | opened r₀ hopened =>
    rw [(hfresh.fresh t h hminted).2] at hopened
    cases hopened
  | issued u m' _ hjob' hm _ hrevoked hput =>
    obtain rfl := hfresh.distinct t u h hminted hm
    rw [recorded_of_put hput hrevoked] at hrecorded
    cases hrecorded

/-- One access leaves a record as it is, or revokes it. -/
theorem record_advance (hopen : rows₀.pending = []) (hr : ProxyRun hashKeyId rows₀ ok s) {t : Nat}
    {m : ProxyMethod} {o : Op} {k : o.Ans → M ((m : ProxyMethod) × m.Ans)} {c : Input}
    {ans : o.Ans} {sh : Shared} (hr' : ProxyRun hashKeyId rows₀ ok (s.advance t m o k ans sh))
    (htask : s.tasks[t]? = some ⟨m, some (.op o k)⟩)
    (hhandle : handle hashKeyId s.shared t o c = some (ans, sh))
    (hget : (proxyRows s).get (.record h) = some r) :
    (proxyRows (s.advance t m o k ans sh)).get (.record h) = some r ∨
      (proxyRows (s.advance t m o k ans sh)).get (.record h) = some { r with revoked := true } := by
  have hw := wrote_of_step htask hr hhandle
  have hI := termsInv_of_run hopen hr
  rcases record_of_wrote hw h with hsame | ⟨r', he⟩
  · exact Or.inl (hsame.trans hget)
  have hput := hw.get_of_put he
  have hduty := (rowDuty_of_task hr htask ans).2
  rw [he] at hduty
  rcases mints_or_revokes hduty with hmints | hrevoked
  · exact absurd hmints (not_mints_of_found (tokensFresh_of_run hopen hr) hI hget)
  · have hterms : r'.issued = r.issued :=
      (hI.put hr htask hhandle he).unique (tokensFresh_of_run hopen hr') hr'
        ((hI.rows h r (DurableStore.possible_of_get hget)).advance hr htask hhandle)
    refine Or.inr ?_
    rw [hput]
    obtain ⟨label, createdAt, revoked, quotaRps, dailyQuota⟩ := r'
    cases hrevoked
    simp only [KeyRecord.issued, KeyRecord.mk.injEq, true_and] at hterms
    obtain ⟨rfl, rfl, rfl, rfl⟩ := hterms
    rfl

/-- The store stays open: it is not restarted. -/
def staysOpen (_ : (proxyCalls hashKeyId).State) : (proxyCalls hashKeyId).Action → Bool
  | .world _ => false
  | _ => true

/-- What is found of a revoked key, from its revocation to the next restart. -/
structure StaysRevoked (start : Nat) (h : String) (r : KeyRecord)
    (s : (proxyCalls hashKeyId).State) : Prop where
  row : (proxyRows s).get (.record h) = some r
  reads : ∀ t v, start ≤ t → (t, (⟨.get (.record h), .ok v⟩ : Event)) ∈ s.log → v = some r

theorem staysRevoked_of_run (hopen : rows₀.pending = []) (hrun : ProxyRun hashKeyId rows₀ ok s)
    (hget : (proxyRows s).get (.record h) = some r) (hrevoked : r.revoked = true)
    (hmore : System.Reach (proxyCalls hashKeyId) (fun s a => ok s a ∧ staysOpen s a = true) s s') :
    StaysRevoked s.tasks.length h r s' := by
  induction hmore with
  | refl =>
    refine ⟨hget, fun t v ht hmem => ?_⟩
    exact absurd (hrun.log_lt hmem) (Nat.not_lt.2 ht)
  | step hmore hok hstep ih =>
    have hr := hrun.trans (hmore.mono fun _ _ h => h.1)
    cases System.step_cases hstep with
    | start m sh hstart =>
      cases hstart
      exact ⟨ih.row, ih.reads⟩
    | exec t c m o k ans sh htask hhandle =>
      have hrow := record_advance hopen hr (hr.step hok.1 hstep) htask hhandle ih.row
      have hsame : ({ r with revoked := true } : KeyRecord) = r := by rw [← hrevoked]
      rw [hsame, or_self] at hrow
      refine ⟨hrow, fun u v hu hmem => ?_⟩
      rcases List.mem_cons.1 hmem with heq | hold
      · have he : (⟨o, ans⟩ : Event) = ⟨.get (.record h), .ok v⟩ := (congrArg Prod.snd heq).symm
        cases he
        exact (get_of_accessed (handle_cases (t := t) hhandle)).symm.trans ih.row
      · exact ih.reads u v hu hold
    | drop t m o k htask => exact ⟨ih.row, ih.reads⟩
    | world w sh hworld => cases hok.2

/-- The key's record was read, and it was not revoked. -/
def SeenLive (h : String) (past : List Event) : Prop :=
  ∃ r : KeyRecord, (⟨.get (.record h), .ok (some r)⟩ : Event) ∈ past ∧ r.revoked = false

/-- A consumption does nothing but read the record, unless it has read a live one. -/
def LiveDuty (h : String) (past : List Event) (e : Event) : Prop :=
  e.1 = .get (.record h) ∨ SeenLive h past

def LiveReturned (h : String) (past : List Event) (a : Except ConsumeError ConsumedKey) : Prop :=
  SeenLive h past ∨ (∃ e, a = .error (.ofValErr e)) ∨
    ((⟨.get (.record h), .ok none⟩ : Event) ∈ past ∧ a = .error .unknown) ∨ a = .error .revoked

theorem tryConsume_live (keyId : String) : (tryConsume hashKeyId keyId).Meets AnyEvent
    (LiveDuty (hashKeyId keyId)) (LiveReturned (hashKeyId keyId)) [] := by
  refine Prog.meets_perform_bind.2 fun found _ => ⟨Or.inl rfl, ?_⟩
  match found with
  | .error e => exact Or.inr (Or.inl ⟨e, rfl⟩)
  | .ok none => exact Or.inr (Or.inr (Or.inl ⟨List.mem_cons_self, rfl⟩))
  | .ok (some r) =>
    simp only
    split
    · exact Or.inr (Or.inr (Or.inr rfl))
    · rename_i hlive
      have hmem : (⟨.get (.record (hashKeyId keyId)), .ok (some r)⟩ : Event) ∈
        [(⟨.get (.record (hashKeyId keyId)), .ok (some r)⟩ : Event)] := List.mem_cons_self
      have hseen : ∀ past, (⟨.get (.record (hashKeyId keyId)), .ok (some r)⟩ : Event) ∈ past →
          SeenLive (hashKeyId keyId) past := fun past h => ⟨r, h, Bool.eq_false_iff.2 hlive⟩
      exact ((Prog.meets_mem _ hmem).mono_guar fun past e _ h => Or.inr (hseen past h)).mono
        fun past a h => Or.inl (hseen past h)

/-- A consumption of a revoked key reads its record and is refused. -/
def liveContract (hashKeyId : String → String) : System.Contract (proxyCalls hashKeyId) where
  rely := AnyEvent
  guar := fun m past e => ∀ keyId, m = .tryConsume keyId → LiveDuty (hashKeyId keyId) past e
  post := fun m past r => ∀ keyId, m = .tryConsume keyId →
    ∃ a, r = ⟨.tryConsume keyId, a⟩ ∧ LiveReturned (hashKeyId keyId) past a
  meets := fun m => by
    cases m with
    | tryConsume keyId =>
      refine (((tryConsume_live keyId).mono_guar fun past e _ h keyId' heq => ?_).bind
        fun past a h keyId' heq => ?_)
      · cases heq
        exact h
      · cases heq
        exact ⟨a, rfl, h⟩
    | _ =>
      refine ((Prog.meets_true _ _).mono_guar fun past e _ _ keyId heq => ?_).mono
        fun past a _ keyId heq => ?_
      · cases heq
      · cases heq

/-- What becomes of a call that begins to consume a revoked key. -/
structure RevokedRefused (hashKeyId : String → String) (s : (proxyCalls hashKeyId).State) (t : Nat)
    (h : String) : Prop where
  reads : ∀ e ∈ System.trace s.log t, e.1 = .get (.record h)
  refused : ∀ j a, s.tasks[t]? = some ⟨j, some (.ret a)⟩ → ∃ keyId e, j = .tryConsume keyId ∧
    a = ⟨.tryConsume keyId, .error e⟩ ∧ (e = .revoked ∨ ∃ v, e = .ofValErr v)

/-- Once a key is revoked, and as long as the store stays open, every call that begins to consume
it reads its record and is refused. -/
theorem revokedRefused_of_run (hopen : rows₀.pending = [])
    (hrun : ProxyRun hashKeyId rows₀ ok s) (hget : (proxyRows s).get (.record h) = some r)
    (hrevoked : r.revoked = true)
    (hmore : System.Reach (proxyCalls hashKeyId) (fun s a => ok s a ∧ staysOpen s a = true) s s')
    {t : Nat} {keyId : String} (ht : s.tasks.length ≤ t)
    (hjob : s'.job t = some (.tryConsume keyId)) (hkey : hashKeyId keyId = h) :
    RevokedRefused hashKeyId s' t h := by
  subst hkey
  have hr' := hrun.trans (hmore.mono fun _ _ h => h.1)
  have hstays := staysRevoked_of_run hopen hrun hget hrevoked hmore
  have hserved : (liveContract hashKeyId).Served ok := fun _ _ _ _ _ _ _ _ => trivial
  have hread : ∀ {v}, (⟨.get (.record (hashKeyId keyId)), .ok v⟩ : Event) ∈
      System.trace s'.log t → v = some r := fun hmem =>
    hstays.reads t _ ht (System.mem_trace.1 hmem)
  have hdead : ¬ SeenLive (hashKeyId keyId) (System.trace s'.log t) := by
    intro ⟨r', hmem, hlive⟩
    cases hread hmem
    rw [hrevoked] at hlive
    cases hlive
  refine ⟨fun e he => ?_, fun j a htask => ?_⟩
  · obtain ⟨late, early, hsplit⟩ := List.append_of_mem he
    obtain ⟨late', early', hlog, hearly⟩ := System.trace_split hsplit
    obtain ⟨j, hj, _, hduty⟩ := hr'.guar (liveContract hashKeyId) hserved hlog
    rw [hjob] at hj
    cases hj
    rcases hduty keyId rfl with hget | ⟨r', hmem, hlive⟩
    · exact hget
    · refine absurd ⟨r', ?_, hlive⟩ hdead
      rw [hsplit, ← hearly]
      exact List.mem_append_right _ (List.mem_cons_of_mem _ hmem)
  · obtain rfl : j = .tryConsume keyId := by
      rw [System.job_of_task htask] at hjob
      exact Option.some.inj hjob
    obtain ⟨a', rfl, hreturned⟩ := hr'.meets (liveContract hashKeyId) hserved htask keyId rfl
    rcases hreturned with hlive | ⟨v, rfl⟩ | ⟨hnone, _⟩ | rfl
    · exact absurd hlive hdead
    · exact ⟨keyId, _, rfl, rfl, Or.inr ⟨v, rfl⟩⟩
    · cases hread hnone
    · exact ⟨keyId, _, rfl, rfl, Or.inl rfl⟩

end Revocation

section Samples

def sampleRecord : KeyRecord := ⟨"label", 7, false, 0, 5⟩

/-- A key is issued and revoked, and somebody tries to use it. -/
def issuedAndRevoked : List (proxyCalls fun _ => "hash").Action :=
  System.script (S := proxyCalls fun _ => "hash") [.createKey "label" 0 5, .revokeHash "hash"]
    [(0, .uuid "u"), (0, .secs 7), (0, .ok), (1, .ok), (1, .ok)]

/-- The restart loses the revocation, and the terms are the same on both sides of it. -/
theorem termsFixed_of_run_sample : ∃ s,
    ProxyRun (fun _ => "hash") .empty (fun _ _ => True) s ∧
      Found s "hash" { sampleRecord with revoked := true } ∧ Found s "hash" sampleRecord ∧
        TermsFixed .empty s "hash" := by
  obtain ⟨s, hs, hread, hget⟩ : ∃ s, (proxyCalls fun _ => "hash").run (fun _ _ => true)
      ((proxyCalls fun _ => "hash").init (Shared.opened .empty))
      (issuedAndRevoked ++ [.start (.tryConsume "key"), .exec 2 .ok,
        .world (.restart [false, true])]) = some s ∧
      s.log.head? = some (2, ⟨.get (.record "hash"),
        .ok (some { sampleRecord with revoked := true })⟩) ∧
      (proxyRows s).get (.record "hash") = some sampleRecord := ⟨_, rfl, rfl, rfl⟩
  have hrun : ProxyRun (fun _ => "hash") .empty (fun _ _ => True) s :=
    System.Reach.of_run (fun _ _ _ => trivial) hs
  exact ⟨s, hrun, Or.inr ⟨2, List.mem_of_head? hread⟩, Or.inl (DurableStore.possible_of_get hget),
    termsFixed_of_run rfl hrun "hash"⟩

/-- The call that begins after the revocation is refused. -/
theorem revokedRefused_of_run_sample : ∃ s s',
    ProxyRun (fun _ => "hash") .empty (fun _ _ => True) s ∧ s.tasks.length = 2 ∧
      s'.tasks[2]?.map (·.job) = some (.tryConsume "key") ∧
        RevokedRefused (fun _ => "hash") s' 2 "hash" := by
  obtain ⟨s, hs, hlen, hget, s', hs', hjob⟩ : ∃ s, (proxyCalls fun _ => "hash").run
      (fun _ _ => true) ((proxyCalls fun _ => "hash").init (Shared.opened .empty))
      issuedAndRevoked = some s ∧ s.tasks.length = 2 ∧
      (proxyRows s).get (.record "hash") = some { sampleRecord with revoked := true } ∧
      ∃ s', (proxyCalls fun _ => "hash").run staysOpen s
        [.start (.tryConsume "key"), .exec 2 .ok] = some s' ∧
        s'.job 2 = some (.tryConsume "key") := ⟨_, rfl, rfl, rfl, _, rfl, rfl⟩
  have hrun : ProxyRun (fun _ => "hash") .empty (fun _ _ => True) s :=
    System.Reach.of_run (fun _ _ _ => trivial) hs
  refine ⟨s, s', hrun, hlen, hjob, revokedRefused_of_run rfl hrun hget rfl
    (System.Reach.of_run (fun _ _ hopen => ⟨trivial, hopen⟩) hs') (Nat.le_of_eq hlen) hjob rfl⟩

end Samples
end KeyStore
end Gateway
