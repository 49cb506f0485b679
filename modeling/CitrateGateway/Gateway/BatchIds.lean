import CitrateGateway.Gateway.BatchRows
import CitrateGateway.Gateway.BatchRuns

/-!
# Ids on disk, and recovery at boot

Every batch that is live or on disk has an id that was made up once. So when recovery runs
before anything else does, no batch that it opens is ever being processed.
-/

namespace Gateway.App
set_option autoImplicit false
open Words Effects X402 KeyStore
open ApiKeyStore (Backend Minted)

section Steps
variable {config : AppConfig}

/-- What an operation does to the key store. -/
inductive KeysStep (config : AppConfig) (sh : Shared) : Event → Shared → Prop where
  | call (c : ApiKeyStore.Call) (minted : Minted) (cs : List KeyStore.Input) (a : c.Ans)
      (sh' : Shared)
      (hperform : sh.keys.perform config.hashKeyId minted cs c = some (a, sh'.keys)) :
      KeysStep config sh ⟨.keys c, a⟩ sh'
  | method (c : BatchCall) (cs : List KeyStore.Input) (a : c.toMethod.Ans) (sh' : Shared)
      (hmethod : sh.keys.method config.hashKeyId cs c.toMethod = some (a, sh'.keys)) :
      KeysStep config sh ⟨.store c, a⟩ sh'
  | other (e : Event) (sh' : Shared) (hkeys : sh'.keys = sh.keys)
      (hquiet : ∀ c a, e ≠ ⟨.store c, a⟩) : KeysStep config sh e sh'

theorem handle_keysStep {sh sh' : Shared} {o : Op} {c : Input} {a : o.Ans}
    (h : handle config sh o c = some (a, sh')) : KeysStep config sh ⟨o, a⟩ sh' := by
  cases o with
  | keys call =>
    cases c with
    | store minted cs =>
      obtain ⟨r, hr, heq⟩ := Option.map_eq_some_iff.1 h
      cases heq
      exact .call _ _ _ _ _ hr
    | _ => cases h
  | store call =>
    cases c with
    | store minted cs =>
      obtain ⟨r, hr, heq⟩ := Option.map_eq_some_iff.1 h
      cases heq
      exact .method _ _ _ _ hr
    | _ => cases h
  | lookupModel name =>
    cases c with
    | ok =>
      simp only [handle] at h
      split at h <;> cases h <;> exact .other _ _ rfl (fun _ _ heq => by cases heq)
    | fail e =>
      cases h
      exact .other _ _ rfl (fun _ _ heq => by cases heq)
    | _ => cases h
  | estimateCost _ _ _ _ =>
    cases c with
    | ok | fail e =>
      cases h
      exact .other _ _ rfl (fun _ _ heq => by cases heq)
    | _ => cases h
  | newUuid =>
    cases c with
    | uuid u =>
      simp only [handle] at h
      split at h
      · cases h
      · cases h
        exact .other _ _ rfl (fun _ _ heq => by cases heq)
    | _ => cases h
  | live l | layer act =>
    cases c <;> try cases h
    obtain ⟨r, _, heq⟩ := Option.map_eq_some_iff.1 h
    cases heq
    exact .other _ _ rfl (fun _ _ heq => by cases heq)
  | unwind => cases a
  | _ =>
    cases c <;> cases h
    exact .other _ _ rfl (fun _ _ heq => by cases heq)

end Steps

section Ids
variable {config : AppConfig} {ok : (node config).State → (node config).Action → Prop}
variable {start : Shared} {s : (node config).State}

/-- The id of a batch, made of an id in use. -/
def Named (issued : List String) (id : String) : Prop := ∃ u ∈ issued, id = "batch_" ++ u

/-- A snapshot under the id it has. -/
def Own (issued : List String) (id : String) (b : PersistedBatch) : Prop :=
  b.id = id ∧ Named issued id

/-- The ids that an answer brings, each with the id of the record under it. -/
def brought : Event → List (String × String)
  | ⟨.live (.read id), r⟩ => [(id, r.id)]
  | ⟨.live (.finish id), r⟩ => [(id, r.id)]
  | ⟨.store .loadBatches, .ok found⟩ => found.map fun x => (x.1, x.2.id)
  | _ => []

/-- Every batch is known under its own id, which a task made up. -/
structure Filed (s : (node config).State) : Prop where
  disk : s.shared.keys.Snapshots (Own s.shared.issued)
  live : ∀ id r, s.shared.live id = some r → r.id = id ∧ Named s.shared.issued id
  brought : ∀ x ∈ s.log, ∀ p ∈ brought x.2, p.2 = p.1 ∧ Named s.shared.issued p.1

theorem Named.mono {issued issued' : List String} {id : String} (h : Named issued id)
    (hsub : issued ⊆ issued') : Named issued' id := by
  obtain ⟨u, hu, hid⟩ := h
  exact ⟨u, hsub hu, hid⟩

theorem issued_mono {sh sh' : Shared} {e : Event} (h : MapStep sh e sh') :
    sh.issued ⊆ sh'.issued := by
  cases h with
  | uuid u sh' hnew hissued hlive =>
    rw [hissued]
    exact List.subset_cons_self _ _
  | live l a sh' hperform hissued =>
    rw [hissued]
    exact List.Subset.refl _
  | other e sh' hissued hlive hquiet =>
    rw [hissued]
    exact List.Subset.refl _

theorem snapshot_settleCall (batchId : String) (payer : Option String) (x402Payer : Option H160)
    (refund : U256) (terminal : PersistedBatch) :
    (settleCall batchId payer x402Payer refund terminal).toMethod.snapshot =
      some (batchId, terminal) := by
  unfold settleCall
  split
  · cases payer <;> rfl
  · rfl

theorem Fresh.isNamed {t : Nat} {r : BatchRecord} (hids : IdsOwned s)
    (h : Fresh (System.trace s.log t) r) : Named s.shared.issued r.id := by
  obtain ⟨u, hu, hid⟩ := h.named
  exact ⟨u, hids.issued t u (System.mem_trace.1 hu), hid⟩

theorem Filed.inward (hfiled : Filed s) {t : Nat} {e : Event}
    (he : e ∈ inward (System.trace s.log t)) :
    ∀ p ∈ App.brought e, p.2 = p.1 ∧ Named s.shared.issued p.1 :=
  hfiled.brought (t, e) (System.mem_trace.1 (List.mem_filter.1 he).1)

/-- What a task writes of a batch is under the id of the batch. -/
theorem own_of_duty (hfiled : Filed s) (hids : IdsOwned s) {t : Nat} {j : Job} {c : BatchCall}
    {a : c.toMethod.Ans} (hduty : BatchDuty config j (System.trace s.log t) ⟨.store c, a⟩)
    {id : String} {b : PersistedBatch} (hsnapshot : c.toMethod.snapshot = some (id, b)) :
    Own s.shared.issued id b := by
  cases j with
  | request req =>
    cases c with
    | persistBatch x y =>
      cases hsnapshot
      obtain ⟨_, _, r, hfresh, rfl, rfl⟩ := hduty
      exact ⟨rfl, hfresh.isNamed hids⟩
    | loadBatches | batchWasSettled => cases hsnapshot
    | _ => cases hduty
  | processBatch batchId =>
    have hsettle : ∀ {record : BatchRecord} {rest : List Event},
        inward (System.trace s.log t) = ⟨.live (.finish batchId), record⟩ :: rest →
        c = settleCall record.id record.payerApiKeyId record.x402Payer record.refundedGrains
          (.fromRecord record true) → Own s.shared.issued id b := by
      intro record rest hops hcall
      rw [hcall, snapshot_settleCall] at hsnapshot
      cases hsnapshot
      obtain ⟨hid, hnamed⟩ := hfiled.inward (e := ⟨.live (.finish batchId), record⟩)
        (by rw [hops]; exact List.mem_cons_self) _ List.mem_cons_self
      exact ⟨rfl, (show record.id = batchId from hid) ▸ hnamed⟩
    cases c with
    | persistBatch x y =>
      cases hsnapshot
      obtain ⟨record, answer, rest, hops, rfl, rfl⟩ := hduty
      obtain ⟨hid, hnamed⟩ := hfiled.inward (e := ⟨.live (.read batchId), record⟩)
        (by rw [hops]; simp) _ List.mem_cons_self
      exact ⟨rfl, (show record.id = batchId from hid) ▸ hnamed⟩
    | loadBatches | batchWasSettled => cases hsnapshot
    | markBatchSettled x y =>
      obtain ⟨_, record, rest, hops, hcall⟩ := hduty
      exact hsettle hops hcall
    | settleBatchRefund keyId refund x y =>
      obtain ⟨_, record, rest, hops, hcall⟩ := hduty
      exact hsettle hops hcall
    | recordRefundOwed x payer refund y =>
      obtain ⟨_, record, rest, hops, hcall⟩ := hduty
      exact hsettle hops hcall
  | recover =>
    have hsettle : SettlesSnapshot (App.inward (System.trace s.log t)) c →
        Own s.shared.issued id b := by
      rintro ⟨found, x, snapshot, answer, rest, hloaded, hmem, _, _, hcall⟩
      rw [hcall, snapshot_settleCall] at hsnapshot
      cases hsnapshot
      exact hfiled.inward hloaded _ (List.mem_map_of_mem hmem)
    cases c with
    | loadBatches | batchWasSettled => cases hsnapshot
    | persistBatch x y => exact hsettle hduty
    | markBatchSettled x y => exact hsettle hduty
    | settleBatchRefund keyId refund x y => exact hsettle hduty
    | recordRefundOwed x payer refund y => exact hsettle hduty
  | _ => cases hduty

/-- What a task opens to readers is a record under its own id. -/
theorem named_of_insert (hfiled : Filed s) (hids : IdsOwned s) {t : Nat} {j : Job} {id : String}
    {r : BatchRecord}
    (hduty : BatchDuty config j (System.trace s.log t) ⟨.live (.insert id r), ()⟩) :
    r.id = id ∧ Named s.shared.issued id := by
  cases j with
  | request req =>
    obtain ⟨hfresh, rfl, _⟩ := hduty
    exact ⟨rfl, hfresh.isNamed hids⟩
  | processBatch batchId => cases hduty
  | recover =>
    obtain ⟨found, snapshot, hloaded, hmem, hr⟩ := hduty
    have hown := hfiled.inward hloaded (id, snapshot.id)
      (List.mem_map_of_mem (f := fun x => (x.1, x.2.id)) hmem)
    rcases hr with ⟨_, _, rfl⟩ | ⟨rfl, _⟩
    · exact hown
    · exact hown
  | _ => cases hduty

theorem change_id {l : Live} (h : ∀ id r, l ≠ .insert id r) (r : BatchRecord) :
    (l.change r).id = r.id := by
  cases l with
  | insert id r' => exact absurd rfl (h id r')
  | _ => rfl

/-- What an operation brings is known under its own id. -/
theorem Filed.brings {sh' : Shared} {o : Op} {a : o.Ans} (hfiled : Filed s)
    (hkeys : KeysStep config s.shared ⟨o, a⟩ sh') (hmap : MapStep s.shared ⟨o, a⟩ sh') :
    ∀ p ∈ App.brought ⟨o, a⟩, p.2 = p.1 ∧ Named s.shared.issued p.1 := by
  cases o with
  | store c =>
    cases c with
    | loadBatches =>
      cases a with
      | error e => exact nofun
      | ok found =>
        intro p hp
        obtain ⟨x, hx, rfl⟩ := List.mem_map.1 hp
        generalize he : (⟨.store .loadBatches, .ok found⟩ : Event) = e at hkeys
        cases hkeys with
        | call c minted cs a sh' hperform => cases he
        | method c cs a sh' hmethod =>
          cases he
          exact hfiled.disk.loaded hmethod x hx
        | other e sh' hkept hquiet => exact absurd he.symm (hquiet _ _)
    | _ => exact nofun
  | live l =>
    generalize he : (⟨.live l, a⟩ : Event) = e at hmap
    cases hmap with
    | uuid u sh' hnew hissued hkept => cases he
    | other e sh' hissued hkept hquiet =>
      rw [← he] at hquiet
      cases hquiet
    | live l' a' sh' hperform hissued =>
      cases he
      cases l with
      | read id =>
        obtain ⟨r, hr, heq⟩ := Option.map_eq_some_iff.1 hperform
        obtain rfl : r = a := congrArg Prod.fst heq
        intro p hp
        cases List.mem_singleton.1 hp
        exact hfiled.live id r hr
      | finish id =>
        obtain ⟨r, hr, heq⟩ := Option.map_eq_some_iff.1 hperform
        obtain rfl : r.finish = a := congrArg Prod.fst heq
        intro p hp
        cases List.mem_singleton.1 hp
        exact hfiled.live id r hr
      | _ => exact nofun
  | _ => exact nofun

/-- One operation keeps the batches under their ids. -/
theorem Filed.step {s' : (node config).State} {t : Nat} {j : Job} {o : Op} {a : o.Ans}
    (hfiled : Filed s) (hids : IdsOwned s)
    (hduty : BatchDuty config j (System.trace s.log t) ⟨o, a⟩)
    (hlog : s'.log = (t, ⟨o, a⟩) :: s.log) (hkeys : KeysStep config s.shared ⟨o, a⟩ s'.shared)
    (hmap : MapStep s.shared ⟨o, a⟩ s'.shared) : Filed s' := by
  have hissued := issued_mono hmap
  have hdisk : s'.shared.keys.Snapshots (Own s.shared.issued) := by
    cases hkeys with
    | call c minted cs a sh' hperform => exact hfiled.disk.perform hperform
    | method c cs a sh' hmethod =>
      exact hfiled.disk.method (fun id b hb => own_of_duty hfiled hids hduty hb) hmethod
    | other e sh' hkept hquiet =>
      rw [hkept]
      exact hfiled.disk
  have hlive : ∀ id r, s'.shared.live id = some r → r.id = id ∧ Named s.shared.issued id := by
    intro id r hr
    cases hmap with
    | uuid u sh' hnew hissued hkept => exact hfiled.live id r (hkept ▸ hr)
    | other e sh' hissued hkept hquiet => exact hfiled.live id r (hkept ▸ hr)
    | live l a sh' hperform hissued =>
      by_cases hid : l.batch = id
      · obtain ⟨x, r₁, rfl, hupdate⟩ | ⟨r₁, hr₁, hupdate, hinsert⟩ := perform_cases hperform
        · cases hid
          rw [hupdate, show (Live.insert x r₁).batch = x from rfl, Function.update_self] at hr
          cases hr
          exact named_of_insert hfiled hids hduty
        · rw [hid] at hr₁ hupdate
          rw [hupdate, Function.update_self] at hr
          cases hr
          rw [change_id hinsert]
          exact hfiled.live id r₁ hr₁
      · exact hfiled.live id r (perform_other hperform hid ▸ hr)
  constructor
  · exact hdisk.mono fun id b hown => ⟨hown.1, hown.2.mono hissued⟩
  · intro id r hr
    exact ⟨(hlive id r hr).1, (hlive id r hr).2.mono hissued⟩
  · intro x hx p hp
    rw [hlog] at hx
    have hold : p.2 = p.1 ∧ Named s.shared.issued p.1 := by
      rcases List.mem_cons.1 hx with rfl | hx
      · exact hfiled.brings hkeys hmap p hp
      · exact hfiled.brought x hx p hp
    exact ⟨hold.1, hold.2.mono hissued⟩

theorem Snapshots.restarted {sh sh' : Shared} {Q : String → PersistedBatch → Prop}
    {mask : List Bool} (h : sh.keys.Snapshots Q) (hr : restarted sh mask = some sh') :
    sh'.keys.Snapshots Q ∧ sh'.live = (fun _ => none) ∧ sh'.issued = sh.issued := by
  unfold App.restarted at hr
  split at hr
  · cases hr
  · rename_i st hst
    rw [hst] at h
    cases hr
    exact ⟨SnapshotsAre.crash h mask, rfl, rfl⟩

theorem filed (hrun : System.Reach (node config) ok ((node config).init start) s)
    (hlive : start.live = fun _ => none) (hdisk : start.keys.Snapshots (Own start.issued)) :
    Filed s := by
  apply hrun.invariant Filed
  · refine ⟨hdisk, fun id r hr => ?_, fun x hx => (List.not_mem_nil hx).elim⟩
    change start.live id = some r at hr
    rw [hlive] at hr
    cases hr
  · intro s s' act hr hfiled _ htrans
    cases htrans with
    | start j sh hstart =>
      have hsh : sh = s.shared := by
        cases j <;> first | (cases hstart; done) | exact (Option.some.inj hstart).symm
      subst hsh
      exact ⟨hfiled.disk, hfiled.live, hfiled.brought⟩
    | exec t c j o k a sh htask hhandle =>
      have hshared : (s.advance t j o k a sh).shared = sh := by
        unfold System.State.advance System.settle
        split <;> rfl
      have hkeys := handle_keysStep hhandle
      have hmap := handle_mapStep hhandle
      rw [← hshared] at hkeys hmap
      have hmeets := hr.meets (batchContract config) (batchContract_served ok) htask
      exact hfiled.step (idsOwned hr) (Prog.meets_op.1 hmeets a trivial).1 rfl hkeys hmap
    | drop t j o k htask => exact ⟨hfiled.disk, hfiled.live, hfiled.brought⟩
    | world w sh hworld =>
      cases w with
      | restart mask =>
        obtain ⟨hdisk', hlive', hissued⟩ := Snapshots.restarted hfiled.disk hworld
        refine ⟨?_, fun id r hr => ?_, fun x hx p hp => ?_⟩
        · change sh.keys.Snapshots (Own sh.issued)
          rw [hissued]
          exact hdisk'
        · change sh.live id = some r at hr
          rw [hlive'] at hr
          cases hr
        · change _ ∧ Named sh.issued p.1
          rw [hissued]
          exact hfiled.brought x hx p hp
      | chain chain =>
        cases hworld
        exact ⟨hfiled.disk, hfiled.live, hfiled.brought⟩

end Ids

section Boot
variable {config : AppConfig} {ok : (node config).State → (node config).Action → Prop}
variable {start : Shared} {s : (node config).State}

/-- Recovery begins when nothing runs, and nothing begins while it runs. -/
def AtBoot (s : (node config).State) : (node config).Action → Prop
  | .start .recover => ∀ t, s.running t = false
  | .start _ => ∀ t, s.job t = some .recover → s.running t = false
  | _ => True

variable (hboot : ∀ s act, ok s act → AtBoot s act)
include hboot

theorem not_recovering_of_start {j : Job} (hok : ok s (.start j)) {t : Nat}
    (hj : s.job t = some .recover) : s.running t = false := by
  have h := hboot s _ hok
  cases j with
  | recover => exact h t
  | _ => exact h t hj

/-- While recovery runs, nothing else does. -/
theorem recovery_alone (hrun : System.Reach (node config) ok ((node config).init start) s)
    {t u : Nat} (hj : s.job t = some .recover) (ht : s.running t = true)
    (hu : s.running u = true) : u = t := by
  have hall : ∀ t u, s.job t = some .recover → s.running t = true → s.running u = true →
      u = t := by
    apply hrun.invariant fun s : (node config).State => ∀ t u, s.job t = some .recover →
      s.running t = true → s.running u = true → u = t
    · intro t u hj
      cases hj
    · intro s s' act hr hinv hok htrans t u hj ht hu
      have hold : ∀ {v : Nat}, v < s.tasks.length → s'.running v = true → s.running v = true :=
        System.running_of_transition htrans
      by_cases hlt : t < s.tasks.length
      · have hj₀ : s.job t = some .recover := by
          rwa [System.job_eq_of_step (System.step_of_transition htrans) hlt] at hj
        have ht₀ := hold hlt ht
        by_cases hlu : u < s.tasks.length
        · exact hinv t u hj₀ ht₀ (hold hlu hu)
        · obtain ⟨j, o, k, htask⟩ := System.task_of_running hu
          obtain ⟨_, rfl | ⟨v, c, j', o', k', a, rfl, htask', hspawn, _⟩⟩ :=
            System.new_of_transition htrans (System.job_of_task htask) (Nat.not_lt.1 hlu)
          · rw [not_recovering_of_start hboot hok hj₀] at ht₀
            cases ht₀
          · obtain rfl := hinv t v hj₀ ht₀ (System.running_of_task htask')
            obtain rfl : j' = .recover :=
              Option.some.inj ((System.job_of_task htask').symm.trans hj₀)
            have hmeets := hr.meets (batchContract config) (batchContract_served ok) htask'
            cases o' with
            | spawnProcessBatch id => cases (Prog.meets_op.1 hmeets () trivial).1
            | _ => cases hspawn
      · obtain ⟨ht', rfl | ⟨v, c, j', o', k', a, rfl, _, hspawn, _⟩⟩ :=
          System.new_of_transition htrans hj (Nat.not_lt.1 hlt)
        · by_cases hlu : u < s.tasks.length
          · have hnone := hboot s _ hok u
            rw [hold hlu hu] at hnone
            cases hnone
          · obtain ⟨j, o, k, htask⟩ := System.task_of_running hu
            obtain ⟨hu', _⟩ :=
              System.new_of_transition htrans (System.job_of_task htask) (Nat.not_lt.1 hlu)
            rw [hu', ht']
        · cases o' <;> cases hspawn
  exact hall t u hj ht hu

/-- Nobody works on a batch any more that recovery has opened. -/
structure Forgone (s : (node config).State) (id : String) : Prop where
  named : Named s.shared.issued id
  request : ∀ u req w, s.job u = some (.request req) → (u, ⟨.newUuid, w⟩) ∈ s.log →
    id = "batch_" ++ w → s.running u = false
  processor : ∀ u, s.job u = some (.processBatch id) → s.running u = false

omit hboot in
theorem Forgone.step {s' : (node config).State} {act : (node config).Action} {id : String}
    (h : Forgone s id) (hr : System.Reach (node config) ok ((node config).init start) s)
    (hr' : System.Reach (node config) ok ((node config).init start) s')
    (htrans : System.Transition s act s') : Forgone s' id := by
  have hold : ∀ {v : Nat}, v < s.tasks.length → s'.running v = true → s.running v = true :=
    System.running_of_transition htrans
  have hjobs : ∀ {v : Nat} {j : Job}, v < s.tasks.length → s'.job v = some j →
      s.job v = some j := fun hlt hj => by
    rwa [System.job_eq_of_step (System.step_of_transition htrans) hlt] at hj
  have hstep := runStep_of_transition htrans
  constructor
  · cases hstep with
    | perform t j e hjob hlog hmap => exact h.named.mono (issued_mono hmap)
    | quiet hlog hissued hlive =>
      rw [hissued]
      exact h.named
  · intro u req w hj hmem hid
    apply Bool.eq_false_of_not_eq_true
    intro hrun
    have hpast : (u, ⟨.newUuid, w⟩) ∈ s.log → False := fun hin => by
      have hlt := hr.log_lt hin
      have hstopped := h.request u req w (hjobs hlt hj) hin hid
      rw [hold hlt hrun] at hstopped
      cases hstopped
    cases hstep with
    | quiet hlog hissued hlive => exact hpast (hlog ▸ hmem)
    | perform t j e hjob hlog hmap =>
      rw [hlog] at hmem
      rcases List.mem_cons.1 hmem with heq | hin
      · cases heq
        cases hmap with
        | uuid w sh' hnew hissued hlive =>
          obtain ⟨w', hw', hid'⟩ := h.named
          have hww : w = w' := String.append_right_inj "batch_" |>.1 (hid.symm.trans hid')
          exact hnew (hww ▸ hw')
        | other e sh' hissued hlive hquiet => cases hquiet
      · exact hpast hin
  · intro u hj
    apply Bool.eq_false_of_not_eq_true
    intro hrun
    by_cases hlt : u < s.tasks.length
    · have hstopped := h.processor u (hjobs hlt hj)
      rw [hold hlt hrun] at hstopped
      cases hstopped
    obtain ⟨_, rfl | ⟨v, c, j', o, k, a, rfl, htask, hspawn, hlog⟩⟩ :=
      System.new_of_transition htrans hj (Nat.not_lt.1 hlt)
    · cases htrans with
      | start j sh hstart => cases hstart
    · cases o with
      | spawnProcessBatch id' =>
        cases hspawn
        have hmem : (v, ⟨.spawnProcessBatch id, ()⟩) ∈ s'.log := hlog ▸ List.mem_cons_self
        obtain ⟨req, r₀, hj₀, hopened⟩ := spawn_submitter hr' hmem
        obtain ⟨early, hsub, hfresh, hid⟩ := inserted_fresh hr' hj₀ hopened
        obtain ⟨w, hw, hname⟩ := hfresh.named
        have hin := hsub (System.mem_trace.1 hw)
        rw [hlog] at hin
        rcases List.mem_cons.1 hin with heq | hin
        · cases heq
        have hstopped := h.request v req w (hjobs (hr.log_lt hin) hj₀) hin (hid.trans hname)
        rw [System.running_of_task htask] at hstopped
        cases hstopped
      | _ => cases hspawn

theorem forgone (hrun : System.Reach (node config) ok ((node config).init start) s)
    (hlive : start.live = fun _ => none) (hdisk : start.keys.Snapshots (Own start.issued))
    {t : Nat} {id : String} {r : BatchRecord} (hj : s.job t = some .recover)
    (hmem : (t, ⟨.live (.insert id r), ()⟩) ∈ s.log) : Forgone s id := by
  have hall : ∀ t id r, s.job t = some .recover → (t, ⟨.live (.insert id r), ()⟩) ∈ s.log →
      Forgone s id := by
    apply hrun.invariant fun s : (node config).State => ∀ t id r, s.job t = some .recover →
      (t, ⟨.live (.insert id r), ()⟩) ∈ s.log → Forgone s id
    · intro t id r hj
      cases hj
    · intro s s' act hr hinv hok htrans t id r hj hmem
      have hr' := hr.step hok (System.step_of_transition htrans)
      have hjobs : ∀ {v : Nat} {j : Job}, v < s.tasks.length → s'.job v = some j →
          s.job v = some j := fun hlt hj => by
        rwa [System.job_eq_of_step (System.step_of_transition htrans) hlt] at hj
      by_cases hin : (t, ⟨.live (.insert id r), ()⟩) ∈ s.log
      · exact (hinv t id r (hjobs (hr.log_lt hin) hj) hin).step hr hr' htrans
      -- recovery opens the batch in this very step, and so nothing else runs
      cases htrans with
      | exec v c j o k a sh htask hhandle =>
        rcases List.mem_cons.1 hmem with heq | hold
        · cases heq
          have hlt := (List.getElem?_eq_some_iff.1 htask).1
          have hj₀ := hjobs hlt hj
          have halone : ∀ u, (s.advance t j (.live (.insert id r)) k () sh).running u = true →
              u = t := by
            intro u hu
            by_cases hlu : u < s.tasks.length
            · exact recovery_alone hboot hr hj₀ (System.running_of_task htask)
                (System.running_of_transition (.exec t c j _ k _ sh htask hhandle) hlu hu)
            · obtain ⟨j₁, o₁, k₁, htask₁⟩ := System.task_of_running hu
              obtain ⟨_, hspawn⟩ := System.job_of_advance (System.job_of_task htask₁)
                (Nat.not_lt.1 hlu)
              cases hspawn
          have hstopped : ∀ {u : Nat} {j' : Job}, j' ≠ .recover →
              (s.advance t j (.live (.insert id r)) k () sh).job u = some j' →
              (s.advance t j (.live (.insert id r)) k () sh).running u = false := by
            intro u j' hne hju
            apply Bool.eq_false_of_not_eq_true
            intro hu
            obtain rfl := halone u hu
            exact hne (Option.some.inj (hju.symm.trans hj))
          have hmeets := hr.meets (batchContract config) (batchContract_served ok) htask
          have hnamed := named_of_insert (filed hr hlive hdisk) (idsOwned hr)
            (Prog.meets_op.1 hmeets () trivial).1
          constructor
          · cases runStep_of_transition (.exec t c j _ k _ sh htask hhandle) with
            | perform v j₁ e hjob hlog hmap => exact hnamed.2.mono (issued_mono hmap)
            | quiet hlog hissued hlive =>
              rw [hissued]
              exact hnamed.2
          · intro u req w hju _ _
            exact hstopped (fun heq => by cases heq) hju
          · intro u hju
            exact hstopped (fun heq => by cases heq) hju
        · exact absurd hold hin
      | start j sh hstart => exact absurd hmem hin
      | drop v j o k htask => exact absurd hmem hin
      | world w sh hworld => exact absurd hmem hin
  exact hall t id r hj hmem

/-- A batch that is being processed is not one that recovery opened. -/
theorem processing_not_recovered
    (hrun : System.Reach (node config) ok ((node config).init start) s)
    (hlive : start.live = fun _ => none) (hdisk : start.keys.Snapshots (Own start.issued))
    {u : Nat} {id : String} (hj : s.job u = some (.processBatch id)) (hu : s.running u = true) :
    NotRecovered s s.log id := by
  intro t r hrecover hmem
  have hstopped := (forgone hboot hrun hlive hdisk hrecover hmem).processor u hj
  rw [hu] at hstopped
  cases hstopped

end Boot
end Gateway.App
