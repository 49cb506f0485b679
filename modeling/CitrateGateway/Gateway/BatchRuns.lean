import CitrateGateway.Gateway.BatchDuty

/-!
# Batches in a run

Ids are made up once, so a batch has one submitter and one processor. Nobody else writes its
record: a slot that is done or errored was ended by that processor, once. What recovery would
refund from a snapshot therefore only falls while the batch is processed.
-/

namespace Gateway.App
set_option autoImplicit false
open Words Effects X402
open ApiKeyStore (Backend)

section Steps
variable {config : AppConfig}

/-- The operations on the live batches and on the ids in use. -/
def Op.isMap : Op → Bool
  | .live _ | .newUuid => true
  | _ => false

/-- What an operation does to the live batches and to the ids in use. -/
inductive MapStep (sh : Shared) : Event → Shared → Prop where
  | uuid (u : String) (sh' : Shared) (hnew : u ∉ sh.issued) (hissued : sh'.issued = u :: sh.issued)
      (hlive : sh'.live = sh.live) : MapStep sh ⟨.newUuid, u⟩ sh'
  | live (l : Live) (a : l.Ans) (sh' : Shared) (hperform : l.perform sh.live = some (a, sh'.live))
      (hissued : sh'.issued = sh.issued) : MapStep sh ⟨.live l, a⟩ sh'
  | other (e : Event) (sh' : Shared) (hissued : sh'.issued = sh.issued)
      (hlive : sh'.live = sh.live) (hquiet : e.1.isMap = false) : MapStep sh e sh'

theorem handle_mapStep {sh sh' : Shared} {o : Op} {c : Input} {a : o.Ans}
    (h : handle config sh o c = some (a, sh')) : MapStep sh ⟨o, a⟩ sh' := by
  cases o with
  | keys call =>
    cases c with
    | store minted cs =>
      obtain ⟨r, _, heq⟩ := Option.map_eq_some_iff.1 h
      cases heq
      exact .other _ _ rfl rfl rfl
    | _ => cases h
  | store call =>
    cases c with
    | store minted cs =>
      obtain ⟨r, _, heq⟩ := Option.map_eq_some_iff.1 h
      cases heq
      exact .other _ _ rfl rfl rfl
    | _ => cases h
  | lookupModel name =>
    cases c with
    | ok =>
      simp only [handle] at h
      split at h <;> cases h <;> exact .other _ _ rfl rfl rfl
    | fail e =>
      cases h
      exact .other _ _ rfl rfl rfl
    | _ => cases h
  | estimateCost _ _ _ _ =>
    cases c with
    | ok | fail e =>
      cases h
      exact .other _ _ rfl rfl rfl
    | _ => cases h
  | newUuid =>
    cases c with
    | uuid u =>
      simp only [handle] at h
      split at h
      · cases h
      · cases h
        exact .uuid _ _ ‹_› rfl rfl
    | _ => cases h
  | live l =>
    cases c with
    | ok =>
      obtain ⟨r, hr, heq⟩ := Option.map_eq_some_iff.1 h
      cases heq
      exact .live _ _ _ hr rfl
    | _ => cases h
  | layer act =>
    cases c <;> try cases h
    obtain ⟨r, _, heq⟩ := Option.map_eq_some_iff.1 h
    cases heq
    exact .other _ _ rfl rfl rfl
  | unwind => exact nomatch a
  | _ =>
    cases c <;> cases h
    exact .other _ _ rfl rfl rfl

end Steps

section Ids
variable {config : AppConfig} {ok : (node config).State → (node config).Action → Prop}
variable {start : Shared} {s : (node config).State}

/-- Every id in use was made up by one task. -/
structure IdsOwned (s : (node config).State) : Prop where
  issued : ∀ t u, (t, ⟨.newUuid, u⟩) ∈ s.log → u ∈ s.shared.issued
  owner : ∀ t t' u, (t, ⟨.newUuid, u⟩) ∈ s.log → (t', ⟨.newUuid, u⟩) ∈ s.log → t = t'

theorem IdsOwned.step {s s' : (node config).State} {t : Nat} {e : Event} (h : IdsOwned s)
    (hlog : s'.log = (t, e) :: s.log) (hstep : MapStep s.shared e s'.shared) :
    IdsOwned s' := by
  cases hstep with
  | uuid u sh' hnew hissued hlive =>
    constructor
    · intro t' u' hmem
      rw [hlog] at hmem
      rw [hissued]
      rcases List.mem_cons.1 hmem with heq | hmem
      · cases heq
        exact List.mem_cons_self
      · exact List.mem_cons_of_mem _ (h.issued t' u' hmem)
    · intro t₁ t₂ u' h₁ h₂
      rw [hlog] at h₁ h₂
      rcases List.mem_cons.1 h₁ with heq₁ | h₁
      · cases heq₁
        rcases List.mem_cons.1 h₂ with heq₂ | h₂
        · cases heq₂
          rfl
        · exact absurd (h.issued t₂ _ h₂) hnew
      · rcases List.mem_cons.1 h₂ with heq₂ | h₂
        · cases heq₂
          exact absurd (h.issued t₁ _ h₁) hnew
        · exact h.owner t₁ t₂ u' h₁ h₂
  | live l a sh' hperform hissued =>
    have hold : ∀ {t' u}, (t', ⟨.newUuid, u⟩) ∈ s'.log → (t', ⟨.newUuid, u⟩) ∈ s.log := by
      intro t' u hmem
      rw [hlog] at hmem
      rcases List.mem_cons.1 hmem with heq | hmem
      · cases heq
      · exact hmem
    exact ⟨fun t' u hmem => hissued ▸ h.issued t' u (hold hmem),
      fun t₁ t₂ u h₁ h₂ => h.owner t₁ t₂ u (hold h₁) (hold h₂)⟩
  | other e sh' hissued hlive hquiet =>
    have hold : ∀ {t' u}, (t', ⟨.newUuid, u⟩) ∈ s'.log → (t', ⟨.newUuid, u⟩) ∈ s.log := by
      intro t' u hmem
      rw [hlog] at hmem
      rcases List.mem_cons.1 hmem with heq | hmem
      · cases heq
        cases hquiet
      · exact hmem
    exact ⟨fun t' u hmem => hissued ▸ h.issued t' u (hold hmem),
      fun t₁ t₂ u h₁ h₂ => h.owner t₁ t₂ u (hold h₁) (hold h₂)⟩

/-- What a step does to the live batches, with the operation it logs. -/
inductive RunStep (s s' : (node config).State) : Prop where
  | perform (t : Nat) (j : Job) (e : Event) (hjob : s.job t = some j)
      (hlog : s'.log = (t, e) :: s.log) (hstep : MapStep s.shared e s'.shared)
  | quiet (hlog : s'.log = s.log) (hissued : s'.shared.issued = s.shared.issued)
      (hlive : s'.shared.live = s.shared.live ∨ s'.shared.live = fun _ => none)

theorem runStep_of_transition {s s' : (node config).State} {act : (node config).Action}
    (h : System.Transition s act s') : RunStep s s' := by
  cases h with
  | start j sh hstart =>
    have hsh : sh = s.shared := by
      cases j <;> first | (cases hstart; done) | exact (Option.some.inj hstart).symm
    subst hsh
    exact .quiet rfl rfl (Or.inl rfl)
  | exec t c j o k a sh htask hhandle =>
    refine .perform t j ⟨o, a⟩ ?_ rfl ?_
    · exact System.job_of_task htask
    · have hsettle : (node config).settle t (k a) sh = sh := by
        unfold System.settle
        split <;> rfl
      simpa only [System.State.advance, hsettle] using handle_mapStep hhandle
  | drop t j o k htask => exact .quiet rfl rfl (Or.inl rfl)
  | world w sh hworld =>
    cases w with
    | restart mask =>
      change restarted s.shared mask = some sh at hworld
      unfold restarted at hworld
      split at hworld
      · cases hworld
      · cases hworld
        exact .quiet rfl rfl (Or.inr rfl)
    | chain chain =>
      cases hworld
      exact .quiet rfl rfl (Or.inl rfl)

theorem idsOwned (hrun : System.Reach (node config) ok ((node config).init start) s) :
    IdsOwned s := by
  apply hrun.invariant IdsOwned
  · exact ⟨nofun, nofun⟩
  · intro s s' act _ hinv _ htrans
    cases runStep_of_transition htrans with
    | perform t j e hjob hlog hstep => exact hinv.step hlog hstep
    | quiet hlog hissued hlive =>
      constructor
      · intro t u hmem
        rw [hissued]
        exact hinv.issued t u (hlog ▸ hmem)
      · intro t t' u h h'
        exact hinv.owner t t' u (hlog ▸ h) (hlog ▸ h')

end Ids

section Owners
variable {config : AppConfig} {ok : (node config).State → (node config).Action → Prop}
variable {start : Shared} {s : (node config).State}

/-- The first snapshot of a record, where snapshots are kept. -/
def First (config : AppConfig) (r : BatchRecord) (first : List Event) : Prop :=
  if config.persist then ∃ a, first = [⟨.store (.persistBatch r.id (.fromRecord r false)), a⟩]
  else first = []

/-- What a request has done to batches. -/
inductive Submitted (config : AppConfig) : List Event → Prop where
  | idle : Submitted config []
  | stored (r : BatchRecord) (first : List Event) (hfirst : First config r first) :
      Submitted config first
  | opened (r : BatchRecord) (first : List Event) (hfirst : First config r first) :
      Submitted config (⟨.live (.insert r.id r), ()⟩ :: first)
  | checked (r current : BatchRecord) (first : List Event) (hfirst : First config r first) :
      Submitted config (⟨.live (.read r.id), current⟩ :: ⟨.live (.insert r.id r), ()⟩ :: first)
  | handed (r current : BatchRecord) (first : List Event) (hfirst : First config r first) :
      Submitted config (⟨.spawnProcessBatch r.id, ()⟩ :: ⟨.live (.read r.id), current⟩ ::
        ⟨.live (.insert r.id r), ()⟩ :: first)

theorem First.store {r : BatchRecord} {first : List Event} (h : First config r first)
    {e : Event} (he : e ∈ first) : ∃ a, e = ⟨.store (.persistBatch r.id (.fromRecord r false)), a⟩ := by
  unfold First at h
  split at h
  · obtain ⟨a, rfl⟩ := h
    exact ⟨a, List.mem_singleton.1 he⟩
  · rw [h] at he
    cases he

theorem submitted_of_kept {past : List Event} (h : System.Kept (SubmitDuty config) past) :
    Submitted config (batchOps past) := by
  induction past with
  | nil => exact .idle
  | cons e past ih =>
    obtain ⟨hduty, hkept⟩ := h
    have hpast := ih hkept
    cases hbatch : e.1.isBatch with
    | false =>
      rw [batchOps_cons_quiet hbatch]
      exact hpast
    | true =>
      rw [batchOps_cons hbatch]
      obtain ⟨o, a⟩ := e
      cases o with
      | store c =>
        cases c with
        | persistBatch id b =>
          obtain ⟨hpersist, hnone, r, _, rfl, rfl⟩ := hduty
          rw [hnone]
          refine .stored r _ ?_
          unfold First
          rw [if_pos hpersist]
          exact ⟨a, rfl⟩
        | _ => cases hduty
      | live l =>
        cases l with
        | insert id r =>
          obtain ⟨_, rfl, hfirst⟩ := hduty
          exact .opened r _ hfirst
        | read id =>
          obtain ⟨r, rest, hops⟩ := hduty
          rw [hops] at hpast ⊢
          cases hpast with
          | stored r' _ hfirst => cases (hfirst.store List.mem_cons_self).choose_spec
          | opened _ _ hfirst => exact .checked r a _ hfirst
        | _ => cases hduty
      | spawnProcessBatch id =>
        obtain ⟨r, current, rest, hops⟩ := hduty
        rw [hops] at hpast ⊢
        cases hpast with
        | stored r' _ hfirst => cases (hfirst.store List.mem_cons_self).choose_spec
        | checked _ _ _ hfirst => exact .handed _ _ _ hfirst
      | _ => cases hbatch

theorem Submitted.insert_unique {ops : List Event} (h : Submitted config ops) {id id' : String}
    {r r' : BatchRecord} (hr : ⟨.live (.insert id r), ()⟩ ∈ ops)
    (hr' : ⟨.live (.insert id' r'), ()⟩ ∈ ops) : r = r' := by
  have hone : ∃ r₀ : BatchRecord, ∀ id₁ r₁, (⟨.live (.insert id₁ r₁), ()⟩ : Event) ∈ ops →
      r₁ = r₀ := by
    have hnot : ∀ {r₀ : BatchRecord} {first : List Event}, First config r₀ first →
        ∀ id₁ r₁, (⟨.live (.insert id₁ r₁), ()⟩ : Event) ∉ first := by
      intro r₀ first hfirst id₁ r₁ hmem
      cases (hfirst.store hmem).choose_spec
    cases h with
    | idle => exact ⟨r, nofun⟩
    | stored r₀ first hfirst => exact ⟨r₀, fun id₁ r₁ h => absurd h (hnot hfirst id₁ r₁)⟩
    | opened r₀ first hfirst =>
      refine ⟨r₀, fun id₁ r₁ h => ?_⟩
      rcases List.mem_cons.1 h with heq | h
      · cases heq
        rfl
      · exact absurd h (hnot hfirst id₁ r₁)
    | checked r₀ current first hfirst =>
      refine ⟨r₀, fun id₁ r₁ h => ?_⟩
      rcases List.mem_cons.1 h with heq | h
      · cases heq
      rcases List.mem_cons.1 h with heq | h
      · cases heq
        rfl
      · exact absurd h (hnot hfirst id₁ r₁)
    | handed r₀ current first hfirst =>
      refine ⟨r₀, fun id₁ r₁ h => ?_⟩
      rcases List.mem_cons.1 h with heq | h
      · cases heq
      rcases List.mem_cons.1 h with heq | h
      · cases heq
      rcases List.mem_cons.1 h with heq | h
      · cases heq
        rfl
      · exact absurd h (hnot hfirst id₁ r₁)
  obtain ⟨r₀, hall⟩ := hone
  rw [hall id r hr, hall id' r' hr']

/-- Two records under one id were submitted by one task. -/
theorem Fresh.owner (hrun : System.Reach (node config) ok ((node config).init start) s)
    {t t' : Nat} {early early' : List (Nat × Event)} {r r' : BatchRecord}
    (h : Fresh (System.trace early t) r) (h' : Fresh (System.trace early' t') r')
    (hsub : early ⊆ s.log) (hsub' : early' ⊆ s.log) (hid : r.id = r'.id) : t = t' := by
  obtain ⟨u, hu, hname⟩ := h.named
  obtain ⟨u', hu', hname'⟩ := h'.named
  have huu : u = u' :=
    String.append_right_inj "batch_" |>.1 (hname.symm.trans (hid.trans hname'))
  subst huu
  exact (idsOwned hrun).owner t t' u (hsub (System.mem_trace.1 hu)) (hsub' (System.mem_trace.1 hu'))

theorem inserted_fresh (hrun : System.Reach (node config) ok ((node config).init start) s)
    {t : Nat} {req : Request} {id : String} {r : BatchRecord}
    (hjob : s.job t = some (.request req)) (h : (t, ⟨.live (.insert id r), ()⟩) ∈ s.log) :
    ∃ early, early ⊆ s.log ∧ Fresh (System.trace early t) r ∧ id = r.id := by
  obtain ⟨late, early, hlog⟩ := List.append_of_mem h
  obtain ⟨j, hj, _, hduty⟩ :=
    System.Reach.guar (batchContract config) (batchContract_served ok) hrun hlog
  cases hjob.symm.trans hj
  obtain ⟨hfresh, hid, _⟩ := hduty
  refine ⟨early, ?_, hfresh, hid⟩
  rw [hlog]
  exact fun x hx => List.mem_append_right _ (List.mem_cons_of_mem _ hx)

/-- An id that requests gave to two records was given by one request. -/
theorem inserted_once (hrun : System.Reach (node config) ok ((node config).init start) s)
    {t t' : Nat} {req req' : Request} {id : String} {r r' : BatchRecord}
    (hjob : s.job t = some (.request req)) (hjob' : s.job t' = some (.request req'))
    (h : (t, ⟨.live (.insert id r), ()⟩) ∈ s.log)
    (h' : (t', ⟨.live (.insert id r'), ()⟩) ∈ s.log) : t = t' ∧ r = r' := by
  obtain ⟨early, hsub, hfresh, hid⟩ := inserted_fresh hrun hjob h
  obtain ⟨early', hsub', hfresh', hid'⟩ := inserted_fresh hrun hjob' h'
  have ht := hfresh.owner hrun hfresh' hsub hsub' (hid.symm.trans hid')
  subst ht
  have hkept := System.Reach.kept (batchContract config) (batchContract_served ok) hrun hjob
  have hops : ∀ {r : BatchRecord}, (t, ⟨.live (.insert id r), ()⟩) ∈ s.log →
      ⟨.live (.insert id r), ()⟩ ∈ batchOps (System.trace s.log t) := fun hmem =>
    List.mem_filter.2 ⟨System.mem_trace.2 hmem, rfl⟩
  exact ⟨rfl, (submitted_of_kept hkept).insert_unique (hops h) (hops h')⟩

/-- A batch is handed to a processor by the request that opened it. -/
theorem spawn_submitter (hrun : System.Reach (node config) ok ((node config).init start) s)
    {t : Nat} {id : String} (h : (t, ⟨.spawnProcessBatch id, ()⟩) ∈ s.log) :
    ∃ req r, s.job t = some (.request req) ∧ (t, ⟨.live (.insert id r), ()⟩) ∈ s.log := by
  obtain ⟨late, early, hlog⟩ := List.append_of_mem h
  obtain ⟨j, hj, _, hduty⟩ :=
    System.Reach.guar (batchContract config) (batchContract_served ok) hrun hlog
  cases j with
  | request req =>
    obtain ⟨r, current, rest, hops⟩ := hduty
    have hmem : ⟨.live (.insert id r), ()⟩ ∈ batchOps (System.trace early t) := by
      rw [hops]
      simp
    refine ⟨req, r, hj, ?_⟩
    rw [hlog]
    exact List.mem_append_right _
      (List.mem_cons_of_mem _ (System.mem_trace.1 (List.mem_filter.1 hmem).1))
  | processBatch id' => cases hduty
  | recover => cases hduty
  | _ => cases hduty

/-- A request that is about to hand its batch on has not done so before. -/
theorem not_spawned (hrun : System.Reach (node config) ok ((node config).init start) s)
    {t : Nat} {j : Job} {id : String} (hjob : s.job t = some j)
    (hduty : BatchDuty config j (System.trace s.log t) ⟨.spawnProcessBatch id, ()⟩) (t' : Nat) :
    (t', ⟨.spawnProcessBatch id, ()⟩) ∉ s.log := by
  intro hmem
  cases j with
  | request req =>
    obtain ⟨r, current, rest, hops⟩ := hduty
    have hin : ∀ e : Event, e ∈ batchOps (System.trace s.log t) → (t, e) ∈ s.log := fun e he =>
      System.mem_trace.1 (List.mem_filter.1 he).1
    have hopened : (t, ⟨.live (.insert id r), ()⟩) ∈ s.log := by
      apply hin
      rw [hops]
      simp
    obtain ⟨req', r', hjob', hopened'⟩ := spawn_submitter hrun hmem
    obtain ⟨rfl, _⟩ := inserted_once hrun hjob hjob' hopened hopened'
    have hkept := System.Reach.kept (batchContract config) (batchContract_served ok) hrun hjob
    have hshape := submitted_of_kept hkept
    have hspawn : ⟨.spawnProcessBatch id, ()⟩ ∈ batchOps (System.trace s.log t) :=
      List.mem_filter.2 ⟨System.mem_trace.2 hmem, rfl⟩
    rw [hops] at hshape hspawn
    cases hshape with
    | stored r' _ hfirst => cases (hfirst.store List.mem_cons_self).choose_spec
    | checked r' _ _ hfirst =>
      rcases List.mem_cons.1 hspawn with heq | hspawn
      · cases heq
      rcases List.mem_cons.1 hspawn with heq | hspawn
      · cases heq
      · cases (hfirst.store hspawn).choose_spec
  | processBatch id' => cases hduty
  | recover => cases hduty
  | _ => cases hduty

/-- The processors of a run: each was handed its batch, and no batch has two. -/
structure Processors (s : (node config).State) : Prop where
  spawned : ∀ u id, s.job u = some (.processBatch id) →
    ∃ t, (t, ⟨.spawnProcessBatch id, ()⟩) ∈ s.log
  single : ∀ u u' id, s.job u = some (.processBatch id) → s.job u' = some (.processBatch id) →
    u = u'

theorem processors (hrun : System.Reach (node config) ok ((node config).init start) s) :
    Processors s := by
  apply hrun.invariant Processors
  · constructor
    · intro u id h
      cases h
    · intro u u' id h
      cases h
  · intro s s' act hr hinv _ htrans
    have hold : ∀ {u id}, s'.job u = some (.processBatch id) → u < s.tasks.length →
        s.job u = some (.processBatch id) := by
      intro u id hj hlt
      rwa [System.job_eq_of_step (System.step_of_transition htrans) hlt] at hj
    cases htrans with
    | exec t c j o k a sh htask hhandle =>
      have hnew : ∀ {u id}, (s.advance t j o k a sh).job u = some (.processBatch id) →
          s.tasks.length ≤ u → u = s.tasks.length ∧ o = .spawnProcessBatch id := by
        intro u id hj hge
        obtain ⟨hu, hspawn⟩ := System.job_of_advance hj hge
        refine ⟨hu, ?_⟩
        cases o with
        | spawnProcessBatch id' =>
          cases hspawn
          rfl
        | _ => cases hspawn
      constructor
      · intro u id hj
        by_cases hlt : u < s.tasks.length
        · obtain ⟨t', ht'⟩ := hinv.spawned u id (hold hj hlt)
          exact ⟨t', List.mem_cons_of_mem _ ht'⟩
        · obtain ⟨_, rfl⟩ := hnew hj (Nat.not_lt.1 hlt)
          exact ⟨t, List.mem_cons_self⟩
      · have hclash : ∀ {u u' id}, s.job u = some (.processBatch id) →
            (s.advance t j o k a sh).job u' = some (.processBatch id) →
            s.tasks.length ≤ u' → False := by
          intro u u' id hj hj' hge
          obtain ⟨_, rfl⟩ := hnew hj' hge
          obtain ⟨t', ht'⟩ := hinv.spawned u id hj
          have hmeets := hr.meets (batchContract config) (batchContract_served ok) htask
          exact not_spawned hr (System.job_of_task htask)
            (Prog.meets_op.1 hmeets () trivial).1 t' ht'
        intro u u' id hj hj'
        by_cases hlt : u < s.tasks.length
        · by_cases hlt' : u' < s.tasks.length
          · exact hinv.single u u' id (hold hj hlt) (hold hj' hlt')
          · exact (hclash (hold hj hlt) hj' (Nat.not_lt.1 hlt')).elim
        · by_cases hlt' : u' < s.tasks.length
          · exact (hclash (hold hj' hlt') hj (Nat.not_lt.1 hlt)).elim
          · rw [(hnew hj (Nat.not_lt.1 hlt)).1, (hnew hj' (Nat.not_lt.1 hlt')).1]
    | start j sh hstart =>
      have hall : ∀ {u id}, (s.begin j sh).job u = some (.processBatch id) →
          s.job u = some (.processBatch id) := by
        intro u id hj
        by_cases hlt : u < s.tasks.length
        · exact hold hj hlt
        · cases System.job_of_begin hj (Nat.not_lt.1 hlt)
          cases hstart
      exact ⟨fun u id hj => hinv.spawned u id (hall hj),
        fun u u' id hj hj' => hinv.single u u' id (hall hj) (hall hj')⟩
    | drop t j o k htask =>
      have hall : ∀ {u id}, (s.dropped t j).job u = some (.processBatch id) →
          s.job u = some (.processBatch id) := fun hj =>
        hold hj (by simpa [System.State.dropped] using System.lt_of_job hj)
      exact ⟨fun u id hj => hinv.spawned u id (hall hj),
        fun u u' id hj hj' => hinv.single u u' id (hall hj) (hall hj')⟩
    | world w sh hworld =>
      have hlen : (s.turned w sh).tasks.length = s.tasks.length := by
        simp only [System.State.turned]
        split
        · exact List.length_map _
        · rfl
      have hall : ∀ {u id}, (s.turned w sh).job u = some (.processBatch id) →
          s.job u = some (.processBatch id) := fun hj => hold hj (hlen ▸ System.lt_of_job hj)
      exact ⟨fun u id hj => hinv.spawned u id (hall hj),
        fun u u' id hj hj' => hinv.single u u' id (hall hj) (hall hj')⟩

end Owners

section Slots

def doneAt (id : String) (i : Nat) : Event → Bool
  | ⟨.live (.done x j _), _⟩ => x = id ∧ j = i
  | _ => false

def erroredAt (id : String) (i : Nat) : Event → Bool
  | ⟨.live (.errored x j _), _⟩ => x = id ∧ j = i
  | _ => false

def DoneIn (log : List (Nat × Event)) (id : String) (i : Nat) : Prop :=
  ∃ x ∈ log, doneAt id i x.2 = true

def ErroredIn (log : List (Nat × Event)) (id : String) (i : Nat) : Prop :=
  ∃ x ∈ log, erroredAt id i x.2 = true

/-- A slot as the work in the log has left it. -/
structure SlotAt (log : List (Nat × Event)) (id : String) (i : Nat) (x₀ x : RequestSlot) :
    Prop where
  quote : x.quotedCostGrains = x₀.quotedCostGrains
  request : x.request = x₀.request
  done : x.state = .done ↔ DoneIn log id i
  errored : x.state = .errored ↔ ErroredIn log id i
  explained : x.state = .errored → x.error.isSome = true

/-- A record as it grew out of the one that was submitted. -/
structure Described (log : List (Nat × Event)) (r₀ r : BatchRecord) : Prop where
  id : r.id = r₀.id
  paid : r.paidEscrowGrains = r₀.paidEscrowGrains
  payerApiKeyId : r.payerApiKeyId = r₀.payerApiKeyId
  x402Payer : r.x402Payer = r₀.x402Payer
  length : r.slots.length = r₀.slots.length
  slots : ∀ i x₀ x, r₀.slots[i]? = some x₀ → r.slots[i]? = some x → SlotAt log r₀.id i x₀ x

variable {log : List (Nat × Event)} {t : Nat} {e : Event}

theorem doneIn_cons {id : String} {i : Nat} :
    DoneIn ((t, e) :: log) id i ↔ doneAt id i e = true ∨ DoneIn log id i := by
  simp [DoneIn]

theorem erroredIn_cons {id : String} {i : Nat} :
    ErroredIn ((t, e) :: log) id i ↔ erroredAt id i e = true ∨ ErroredIn log id i := by
  simp [ErroredIn]

theorem SlotAt.cons {id : String} {i : Nat} {x₀ x : RequestSlot} (h : SlotAt log id i x₀ x)
    (hdone : doneAt id i e = false) (herrored : erroredAt id i e = false) :
    SlotAt ((t, e) :: log) id i x₀ x where
  quote := h.quote
  request := h.request
  done := by
    rw [doneIn_cons, hdone]
    simpa using h.done
  errored := by
    rw [erroredIn_cons, herrored]
    simpa using h.errored
  explained := h.explained

theorem SlotAt.setDispatched {id : String} {i : Nat} {x₀ x : RequestSlot} {a : Unit}
    (h : SlotAt log id i x₀ x) (hdone : ¬ DoneIn log id i) (herrored : ¬ ErroredIn log id i) :
    SlotAt ((t, ⟨.live (.setDispatched id i), a⟩) :: log) id i x₀
      { x with state := .dispatched } where
  quote := h.quote
  request := h.request
  done := by simp [doneIn_cons, doneAt, hdone]
  errored := by simp [erroredIn_cons, erroredAt, herrored]
  explained := nofun

theorem SlotAt.setDone {id : String} {i : Nat} {x₀ x : RequestSlot} {a : Unit}
    {response : ChatCompletionResponse} (h : SlotAt log id i x₀ x)
    (herrored : ¬ ErroredIn log id i) :
    SlotAt ((t, ⟨.live (.done id i response), a⟩) :: log) id i x₀
      { x with state := .done, response := some response } where
  quote := h.quote
  request := h.request
  done := by simp [doneIn_cons, doneAt]
  errored := by simp [erroredIn_cons, erroredAt, herrored]
  explained := nofun

theorem SlotAt.setErrored {id : String} {i : Nat} {x₀ x : RequestSlot} {a : Unit} {text : String}
    (h : SlotAt log id i x₀ x) (hdone : ¬ DoneIn log id i) :
    SlotAt ((t, ⟨.live (.errored id i text), a⟩) :: log) id i x₀
      { x with state := .errored, error := some text } where
  quote := h.quote
  request := h.request
  done := by simp [doneIn_cons, doneAt, hdone]
  errored := by simp [erroredIn_cons, erroredAt]
  explained := fun _ => rfl

/-- An event that ends no slot of the record keeps it as described, also when other fields of
it change. -/
theorem Described.cons {r₀ r r' : BatchRecord} (h : Described log r₀ r)
    (hdone : ∀ i, doneAt r₀.id i e = false) (herrored : ∀ i, erroredAt r₀.id i e = false)
    (hsame : r' = { r with
      status := r'.status, releasedGrains := r'.releasedGrains,
      refundedGrains := r'.refundedGrains }) :
    Described ((t, e) :: log) r₀ r' := by
  rw [hsame]
  exact {
    id := h.id
    paid := h.paid
    payerApiKeyId := h.payerApiKeyId
    x402Payer := h.x402Payer
    length := h.length
    slots := fun i x₀ x h₀ hx => (h.slots i x₀ x h₀ hx).cons (hdone i) (herrored i) }

theorem Described.onSlot {r₀ r : BatchRecord} (h : Described log r₀ r) {i : Nat}
    {f : RequestSlot → RequestSlot}
    (hdone : ∀ j, j ≠ i → doneAt r₀.id j e = false)
    (herrored : ∀ j, j ≠ i → erroredAt r₀.id j e = false)
    (hslot : ∀ x₀ x, SlotAt log r₀.id i x₀ x → SlotAt ((t, e) :: log) r₀.id i x₀ (f x)) :
    Described ((t, e) :: log) r₀ (Live.onSlot i f r) where
  id := h.id
  paid := h.paid
  payerApiKeyId := h.payerApiKeyId
  x402Payer := h.x402Payer
  length := by
    rw [← h.length]
    exact List.length_modify _ _ _
  slots := by
    intro j x₀ x h₀ hx
    simp only [Live.onSlot, List.getElem?_modify] at hx
    obtain ⟨y, hy, rfl⟩ := Option.map_eq_some_iff.1 hx
    by_cases hj : i = j
    · subst hj
      rw [if_pos rfl]
      exact hslot x₀ y (h.slots i x₀ y h₀ hy)
    · rw [if_neg hj]
      exact (h.slots j x₀ y h₀ hy).cons (hdone j (Ne.symm hj)) (herrored j (Ne.symm hj))

theorem described_fresh {past : List Event} {r : BatchRecord} (h : Fresh past r)
    (hdone : ∀ i, ¬ DoneIn log r.id i) (herrored : ∀ i, ¬ ErroredIn log r.id i) :
    Described log r r where
  id := rfl
  paid := rfl
  payerApiKeyId := rfl
  x402Payer := rfl
  length := rfl
  slots := by
    intro i x₀ x h₀ hx
    cases h₀.symm.trans hx
    obtain ⟨hpending, _⟩ := h.idle x₀ (List.mem_of_getElem? h₀)
    constructor
    · rfl
    · rfl
    · simp [hpending, hdone i]
    · simp [hpending, herrored i]
    · intro herr
      rw [hpending] at herr
      cases herr

end Slots

section Lives
variable {config : AppConfig} {ok : (node config).State → (node config).Action → Prop}
variable {start : Shared} {s : (node config).State}

/-- Up to here recovery has not opened the record of this batch. -/
def NotRecovered (s : (node config).State) (log : List (Nat × Event)) (id : String) : Prop :=
  ∀ t r, s.job t = some .recover → (t, ⟨.live (.insert id r), ()⟩) ∉ log

/-- Only its processor ends a slot of a batch. -/
theorem ended_worker (hrun : System.Reach (node config) ok ((node config).init start) s)
    {u : Nat} {e : Event} (hmem : (u, e) ∈ s.log) {id : String} {i : Nat}
    (hends : doneAt id i e = true ∨ erroredAt id i e = true) :
    s.job u = some (.processBatch id) ∧ ends i e = true := by
  obtain ⟨late, early, hlog⟩ := List.append_of_mem hmem
  obtain ⟨j, hj, _, hduty⟩ :=
    System.Reach.guar (batchContract config) (batchContract_served ok) hrun hlog
  obtain ⟨o, a⟩ := e
  cases o with
  | live l =>
    cases l with
    | done x k response =>
      have hwhere : x = id ∧ k = i := by simpa [doneAt, erroredAt] using hends
      obtain ⟨rfl, rfl⟩ := hwhere
      cases j with
      | processBatch id' =>
        obtain ⟨rfl, _⟩ := hduty
        exact ⟨hj, decide_eq_true rfl⟩
      | request req => cases hduty
      | recover => cases hduty
      | _ => cases hduty
    | errored x k text =>
      have hwhere : x = id ∧ k = i := by simpa [doneAt, erroredAt] using hends
      obtain ⟨rfl, rfl⟩ := hwhere
      cases j with
      | processBatch id' =>
        obtain ⟨rfl, _⟩ := hduty
        exact ⟨hj, decide_eq_true rfl⟩
      | request req => cases hduty
      | recover => cases hduty
      | _ => cases hduty
    | _ => rcases hends with h | h <;> cases h
  | _ => rcases hends with h | h <;> cases h

/-- A slot that its processor has not ended was not ended. -/
theorem not_ended (hrun : System.Reach (node config) ok ((node config).init start) s)
    {u : Nat} {id : String} {i : Nat} (hjob : s.job u = some (.processBatch id))
    (hends : ∀ e ∈ inward (System.trace s.log u), ends i e = false) :
    ¬ DoneIn s.log id i ∧ ¬ ErroredIn s.log id i := by
  have hnot : ∀ x ∈ s.log, doneAt id i x.2 = true ∨ erroredAt id i x.2 = true → False := by
    intro x hx h
    obtain ⟨hworker, hend⟩ := ended_worker hrun (u := x.1) (e := x.2) hx h
    have hu := (processors hrun).single x.1 u id hworker hjob
    have hinward : x.2.1.isInward = true := by
      obtain ⟨v, o, a⟩ := x
      cases o with
      | live l => rfl
      | _ => rcases h with h | h <;> cases h
    have hmem : x.2 ∈ inward (System.trace s.log u) :=
      List.mem_filter.2 ⟨System.mem_trace.2 (hu ▸ hx), hinward⟩
    rw [hends x.2 hmem] at hend
    cases hend
  exact ⟨fun ⟨x, hx, h⟩ => hnot x hx (Or.inl h), fun ⟨x, hx, h⟩ => hnot x hx (Or.inr h)⟩

/-- Every live record that was not recovered grew out of the one its request opened. -/
def LiveRecords (s : (node config).State) : Prop :=
  ∀ id r, NotRecovered s s.log id → s.shared.live id = some r →
    ∃ t req r₀, s.job t = some (.request req) ∧ (t, ⟨.live (.insert id r₀), ()⟩) ∈ s.log ∧
      r₀.id = id ∧ Described s.log r₀ r

theorem modify_cases {live live' : String → Option BatchRecord} {id : String}
    {f : BatchRecord → BatchRecord} {a : Unit} (h : Live.modify live id f = some (a, live')) :
    ∃ r, live id = some r ∧ live' = Function.update live id (some (f r)) := by
  obtain ⟨r, hr, heq⟩ := Option.map_eq_some_iff.1 h
  cases heq
  exact ⟨r, hr, rfl⟩

/-- What a critical section makes of the record it finds. -/
def Live.change : Live → BatchRecord → BatchRecord
  | .insert _ record, _ => record
  | .setRunning _, r => { r with status := .running }
  | .slotCount _, r | .isTerminal _ _, r | .request _ _, r | .read _, r => r
  | .setDispatched _ i, r => Live.onSlot i (fun s => { s with state := .dispatched }) r
  | .done _ i response, r =>
    Live.onSlot i (fun s => { s with state := .done, response := some response }) r
  | .errored _ i error, r =>
    Live.onSlot i (fun s => { s with state := .errored, error := some error }) r
  | .finish _, r => r.finish

/-- A critical section replaces one record by what it makes of it, or opens one. -/
theorem perform_cases {l : Live} {live live' : String → Option BatchRecord} {a : l.Ans}
    (h : l.perform live = some (a, live')) :
    (∃ id r, l = .insert id r ∧ live' = Function.update live id (some r)) ∨
      ∃ r, live l.batch = some r ∧ live' = Function.update live l.batch (some (l.change r)) ∧
        ∀ id r', l ≠ .insert id r' := by
  have hkept : ∀ {id : String} {r : BatchRecord}, live id = some r →
      live = Function.update live id (some r) := fun hr => by rw [← hr, Function.update_eq_self]
  cases l with
  | insert id r =>
    cases h
    exact Or.inl ⟨id, r, rfl, rfl⟩
  | setRunning x | setDispatched x i | done x i response | errored x i text =>
    obtain ⟨r, hr, hupdate⟩ := modify_cases h
    exact Or.inr ⟨r, hr, hupdate, nofun⟩
  | slotCount x =>
    obtain ⟨r, hr, heq⟩ := Option.map_eq_some_iff.1 h
    cases heq
    exact Or.inr ⟨r, hr, hkept hr, nofun⟩
  | read x =>
    obtain ⟨r, hr, heq⟩ := Option.map_eq_some_iff.1 h
    cases heq
    exact Or.inr ⟨a, hr, hkept hr, nofun⟩
  | finish x =>
    obtain ⟨r, hr, heq⟩ := Option.map_eq_some_iff.1 h
    cases heq
    exact Or.inr ⟨r, hr, rfl, nofun⟩
  | isTerminal x i | request x i =>
    obtain ⟨r, hr, h⟩ := Option.bind_eq_some_iff.1 h
    obtain ⟨slot, _, h⟩ := Option.bind_eq_some_iff.1 h
    cases h
    exact Or.inr ⟨r, hr, hkept hr, nofun⟩

theorem perform_other {l : Live} {live live' : String → Option BatchRecord} {a : l.Ans}
    (h : l.perform live = some (a, live')) {id : String} (hid : l.batch ≠ id) :
    live' id = live id := by
  obtain ⟨x, r, rfl, hlive⟩ | ⟨r, _, hlive, _⟩ := perform_cases h <;> rw [hlive]
  · exact Function.update_of_ne (Ne.symm hid) _ live
  · exact Function.update_of_ne (Ne.symm hid) _ live

theorem not_at_of_quiet {e : Event} (h : e.1.isMap = false) (id : String) (i : Nat) :
    doneAt id i e = false ∧ erroredAt id i e = false := by
  obtain ⟨o, a⟩ := e
  cases o with
  | live l => cases h
  | _ => exact ⟨rfl, rfl⟩

theorem not_at_of_other {l : Live} {a : l.Ans} {id : String} (h : l.batch ≠ id) (i : Nat) :
    doneAt id i ⟨.live l, a⟩ = false ∧ erroredAt id i ⟨.live l, a⟩ = false := by
  cases l with
  | done x j response => exact ⟨decide_eq_false fun hx => h hx.1, rfl⟩
  | errored x j text => exact ⟨rfl, decide_eq_false fun hx => h hx.1⟩
  | _ => exact ⟨rfl, rfl⟩

/-- No slot of a batch is ended before its request opens it. -/
theorem unended_opening {s' : (node config).State}
    (hrun : System.Reach (node config) ok ((node config).init start) s)
    (hrun' : System.Reach (node config) ok ((node config).init start) s')
    (hjobs : ∀ t j, s.job t = some j → s'.job t = some j) {t : Nat} {req : Request}
    {r : BatchRecord} (hlog : s'.log = (t, ⟨.live (.insert r.id r), ()⟩) :: s.log)
    (hjob : s.job t = some (.request req))
    (hduty : SubmitDuty config (System.trace s.log t) ⟨.live (.insert r.id r), ()⟩) (i : Nat) :
    ¬ DoneIn s.log r.id i ∧ ¬ ErroredIn s.log r.id i := by
  have hnot : ∀ x ∈ s.log, doneAt r.id i x.2 = true ∨ erroredAt r.id i x.2 = true → False := by
    intro x hx h
    obtain ⟨hworker, _⟩ := ended_worker hrun (u := x.1) (e := x.2) hx h
    obtain ⟨t₀, hspawn⟩ := (processors hrun).spawned x.1 r.id hworker
    obtain ⟨req₀, r₀, hjob₀, hopened⟩ := spawn_submitter hrun hspawn
    have hold : (t₀, ⟨.live (.insert r.id r₀), ()⟩) ∈ s'.log :=
      hlog ▸ List.mem_cons_of_mem _ hopened
    have hnew : (t, ⟨.live (.insert r.id r), ()⟩) ∈ s'.log := hlog ▸ List.mem_cons_self
    obtain ⟨rfl, _⟩ := inserted_once hrun' (hjobs _ _ hjob₀) (hjobs _ _ hjob) hold hnew
    have hops : ⟨.live (.insert r.id r₀), ()⟩ ∈ batchOps (System.trace s.log t₀) :=
      List.mem_filter.2 ⟨System.mem_trace.2 hopened, rfl⟩
    obtain ⟨_, _, hfirst⟩ := hduty
    split at hfirst
    · obtain ⟨a, hstored⟩ := hfirst
      rw [hstored] at hops
      cases List.mem_singleton.1 hops
    · rw [hfirst] at hops
      cases hops
  exact ⟨fun ⟨x, hx, h⟩ => hnot x hx (Or.inl h), fun ⟨x, hx, h⟩ => hnot x hx (Or.inr h)⟩

theorem LiveRecords.step {s' : (node config).State}
    (hrun : System.Reach (node config) ok ((node config).init start) s)
    (hrun' : System.Reach (node config) ok ((node config).init start) s')
    (hjobs : ∀ t j, s.job t = some j → s'.job t = some j) (hinv : LiveRecords s) {t : Nat}
    {e : Event} (hlog : s'.log = (t, e) :: s.log) (hstep : MapStep s.shared e s'.shared)
    (hjob : ∃ j, s.job t = some j) : LiveRecords s' := by
  intro id r hnot hlive
  have hgrows : ∀ x ∈ s.log, x ∈ s'.log := fun x hx => hlog ▸ List.mem_cons_of_mem _ hx
  have hnot₀ : NotRecovered s s.log id := fun t' r' hj hmem =>
    hnot t' r' (hjobs t' _ hj) (hgrows _ hmem)
  obtain ⟨j, hj⟩ := hjob
  obtain ⟨j', hj', _, hduty⟩ := System.Reach.guar (batchContract config)
    (batchContract_served ok) hrun' (show s'.log = [] ++ (t, e) :: s.log from hlog)
  cases (hjobs t j hj).symm.trans hj'
  -- the record is as before, but for its status and its amounts
  have hcarry : ∀ r₁, s.shared.live id = some r₁ →
      (∀ i, doneAt id i e = false ∧ erroredAt id i e = false) →
      r = { r₁ with
        status := r.status, releasedGrains := r.releasedGrains,
        refundedGrains := r.refundedGrains } →
      ∃ t req r₀, s'.job t = some (.request req) ∧
        (t, ⟨.live (.insert id r₀), ()⟩) ∈ s'.log ∧ r₀.id = id ∧ Described s'.log r₀ r := by
    intro r₁ hr₁ hat hsame
    obtain ⟨t₀, req, r₀, hj₀, hmem₀, rfl, hdesc⟩ := hinv id r₁ hnot₀ hr₁
    refine ⟨t₀, req, r₀, hjobs _ _ hj₀, hgrows _ hmem₀, rfl, ?_⟩
    rw [hlog]
    exact hdesc.cons (fun i => (hat i).1) (fun i => (hat i).2) hsame
  -- one slot of the record has changed
  have hslots : ∀ r₁ i f, s.shared.live id = some r₁ → r = Live.onSlot i f r₁ →
      (∀ j, j ≠ i → doneAt id j e = false ∧ erroredAt id j e = false) →
      (∀ x₀ x, SlotAt s.log id i x₀ x → SlotAt ((t, e) :: s.log) id i x₀ (f x)) →
      ∃ t req r₀, s'.job t = some (.request req) ∧
        (t, ⟨.live (.insert id r₀), ()⟩) ∈ s'.log ∧ r₀.id = id ∧ Described s'.log r₀ r := by
    intro r₁ i f hr₁ hr hat hslot
    obtain ⟨t₀, req, r₀, hj₀, hmem₀, rfl, hdesc⟩ := hinv id r₁ hnot₀ hr₁
    refine ⟨t₀, req, r₀, hjobs _ _ hj₀, hgrows _ hmem₀, rfl, ?_⟩
    rw [hlog, hr]
    exact hdesc.onSlot (fun j hj => (hat j hj).1) (fun j hj => (hat j hj).2) hslot
  cases hstep with
  | uuid u sh' hnew hissued hkept =>
    exact hcarry r (hkept ▸ hlive) (fun i => ⟨rfl, rfl⟩) rfl
  | other e sh' hissued hkept hquiet =>
    exact hcarry r (hkept ▸ hlive) (not_at_of_quiet hquiet id) rfl
  | live l a sh' hperform hissued =>
    by_cases hid : l.batch = id
    · obtain ⟨x, r₁, rfl, hupdate⟩ | ⟨r₁, hr₁, hupdate, hinsert⟩ := perform_cases hperform
      · have hx : x = id := hid
        subst hx
        rw [hupdate] at hlive
        have hr : r₁ = r := Option.some.inj
          ((Function.update_self x (some r₁) s.shared.live).symm.trans hlive)
        subst hr
        cases j with
        | request req =>
          have hopening := hduty
          obtain ⟨hfresh, rfl, _⟩ := hopening
          have hun := unended_opening hrun hrun' hjobs hlog hj hduty
          refine ⟨t, req, r₁, hj', hlog ▸ List.mem_cons_self, rfl, ?_⟩
          rw [hlog]
          exact (described_fresh hfresh (fun i => (hun i).1) fun i => (hun i).2).cons
            (fun _ => rfl) (fun _ => rfl) rfl
        | recover => exact (hnot t r₁ hj' (hlog ▸ List.mem_cons_self)).elim
        | processBatch id' => cases hduty
        | _ => cases hduty
      · rw [hid] at hr₁ hupdate
        rw [hupdate] at hlive
        cases (Function.update_self id (some (l.change r₁)) s.shared.live).symm.trans hlive
        cases l with
        | insert x r₂ => exact (hinsert x r₂ rfl).elim
        | setRunning x | finish x | slotCount x | read x | isTerminal x i | request x i =>
          exact hcarry r₁ hr₁ (fun _ => ⟨rfl, rfl⟩) rfl
        | setDispatched x i =>
          cases j with
          | processBatch id' =>
            have hx : x = id := hid
            obtain ⟨hx', _, _, hends, _⟩ := hduty
            subst hx hx'
            obtain ⟨hdone, herrored⟩ := not_ended hrun hj hends
            exact hslots r₁ i _ hr₁ rfl (fun _ _ => ⟨rfl, rfl⟩) fun _ _ h =>
              h.setDispatched hdone herrored
          | request req => cases hduty
          | recover => cases hduty
          | _ => cases hduty
        | done x i response =>
          cases j with
          | processBatch id' =>
            have hx : x = id := hid
            obtain ⟨hx', _, hends, _⟩ := hduty
            subst hx hx'
            obtain ⟨_, herrored⟩ := not_ended hrun hj hends
            exact hslots r₁ i _ hr₁ rfl (fun k hk => ⟨decide_eq_false fun h => hk h.2.symm, rfl⟩)
              fun _ _ h => h.setDone herrored
          | request req => cases hduty
          | recover => cases hduty
          | _ => cases hduty
        | errored x i text =>
          cases j with
          | processBatch id' =>
            have hx : x = id := hid
            obtain ⟨hx', _, hends, _⟩ := hduty
            subst hx hx'
            obtain ⟨hdone, _⟩ := not_ended hrun hj hends
            exact hslots r₁ i _ hr₁ rfl (fun k hk => ⟨rfl, decide_eq_false fun h => hk h.2.symm⟩)
              fun _ _ h => h.setErrored hdone
          | request req => cases hduty
          | recover => cases hduty
          | _ => cases hduty
    · exact hcarry r (perform_other hperform hid ▸ hlive) (not_at_of_other hid) rfl

theorem liveRecords (hrun : System.Reach (node config) ok ((node config).init start) s)
    (hstart : start.live = fun _ => none) : LiveRecords s := by
  have hall : System.Reach (node config) ok ((node config).init start) s ∧ LiveRecords s := by
    apply hrun.invariant fun s =>
      System.Reach (node config) ok ((node config).init start) s ∧ LiveRecords s
    · refine ⟨.refl, fun id r _ hlive => ?_⟩
      change start.live id = some r at hlive
      rw [hstart] at hlive
      cases hlive
    · intro s s' act hr hinv hok htrans
      have hr' := hr.step hok (System.step_of_transition htrans)
      refine ⟨hr', ?_⟩
      have hstep : System.Reach (node config) ok s s' :=
        .step .refl hok (System.step_of_transition htrans)
      have hjobs : ∀ t j, s.job t = some j → s'.job t = some j := fun t j hj =>
        hstep.job_mono hj
      cases runStep_of_transition htrans with
      | perform t j e hjob hlog hstep =>
        exact hinv.2.step hr hr' hjobs hlog hstep ⟨j, hjob⟩
      | quiet hlog hissued hlive =>
        intro id r hnot hr₁
        rcases hlive with hlive | hlive
        · have hnot₀ : NotRecovered s s.log id := fun t r' hj hmem =>
            hnot t r' (hjobs t _ hj) (hlog ▸ hmem)
          obtain ⟨t, req, r₀, hj, hmem, hid, hdesc⟩ := hinv.2 id r hnot₀ (hlive ▸ hr₁)
          exact ⟨t, req, r₀, hjobs _ _ hj, hlog ▸ hmem, hid, hlog ▸ hdesc⟩
        · rw [hlive] at hr₁
          cases hr₁
  exact hall.2

/-- What a task reads of a batch grew out of the record its request opened. -/
theorem read_described (hrun : System.Reach (node config) ok ((node config).init start) s)
    (hstart : start.live = fun _ => none) {u : Nat} {id : String} {r : BatchRecord}
    {late early : List (Nat × Event)} (hnot : NotRecovered s early id)
    (hlog : s.log = late ++ (u, ⟨.live (.read id), r⟩) :: early) :
    ∃ t req r₀, s.job t = some (.request req) ∧ (t, ⟨.live (.insert id r₀), ()⟩) ∈ early ∧
      r₀.id = id ∧ Described early r₀ r := by
  obtain ⟨s₁, c, j, k, sh, hr, hearly, hok, htask, hhandle, hrest⟩ := hrun.event hlog
  have hlive : s₁.shared.live id = some r := by
    cases c with
    | ok =>
      obtain ⟨x, hx, heq⟩ := Option.map_eq_some_iff.1 hhandle
      obtain ⟨y, hy, rfl⟩ := Option.map_eq_some_iff.1 hx
      cases heq
      exact hy
    | _ => cases hhandle
  have hjobs : ∀ t j, s₁.job t = some j → s.job t = some j := fun t j hj =>
    hrest.job_mono (System.job_step
      (System.step_of_transition (.exec u c _ _ _ _ sh htask hhandle)) hj)
  have hnot₁ : NotRecovered s₁ s₁.log id := fun t r' hj hmem =>
    hnot t r' (hjobs t _ hj) (hearly ▸ hmem)
  obtain ⟨t, req, r₀, hj, hmem, hid, hdesc⟩ := liveRecords hr hstart id r hnot₁ hlive
  rw [hearly] at hmem hdesc
  exact ⟨t, req, r₀, hjobs t _ hj, hmem, hid, hdesc⟩

end Lives
end Gateway.App
