import CitrateGateway.Gateway.BatchIds
import CitrateGateway.Gateway.BudgetRefunds

/-!
# Recovery agrees with live processing

Submission and the checkpoints write the snapshots of a batch. Each is a record as the work so
far has left it, so recovery from it comes to the accounts of the processor on the same slots,
and from a later snapshot it never refunds more.
-/

namespace Gateway.App
set_option autoImplicit false
open Words Effects X402

section Origins
variable {config : AppConfig} {ok : (node config).State → (node config).Action → Prop}
variable {start : Shared} {s : (node config).State}

/-- What a request had done when it persisted its record. -/
structure SubmittedSnapshot (config : AppConfig) (early : List (Nat × Event)) (t : Nat)
    (snapshot : PersistedBatch) (r : BatchRecord) : Prop where
  persist : config.persist = true
  first : batchOps (System.trace early t) = []
  fresh : Fresh (System.trace early t) r
  snapshot : snapshot = .fromRecord r false

/-- What a processor had done when it checkpointed the record it had read. -/
structure CheckpointSnapshot (early before : List (Nat × Event)) (t : Nat) (id : String)
    (snapshot : PersistedBatch) (r : BatchRecord) : Prop where
  read : (t, ⟨.live (.read id), r⟩) :: before <:+ early
  last : ∃ a, inward (System.trace early t) =
    ⟨.store (.batchWasSettled r.id), a⟩ :: ⟨.live (.read id), r⟩ :: inward (System.trace before t)
  snapshot : ∃ settled, snapshot = .fromRecord r settled

theorem inward_split {past rest : List Event} {e e' : Event} (h : inward past = e :: e' :: rest) :
    ∃ l₁ l₂, past = l₁ ++ e' :: l₂ ∧ inward l₂ = rest := by
  obtain ⟨l₁, l₂, rfl, _, _, h₂⟩ := List.filter_eq_cons_iff.1 h
  obtain ⟨l₃, l₄, rfl, _, _, h₄⟩ := List.filter_eq_cons_iff.1 h₂
  exact ⟨l₁ ++ e :: l₃, l₄, by simp, h₄⟩

/-- A snapshot was written by a request that submits or by a processor that checkpoints. -/
theorem snapshot_cases (hrun : System.Reach (node config) ok ((node config).init start) s)
    {t : Nat} {id : String} {snapshot : PersistedBatch} {a : (BatchCall.persistBatch id snapshot).toMethod.Ans}
    {late early : List (Nat × Event)}
    (hlog : s.log = late ++ (t, ⟨.store (.persistBatch id snapshot), a⟩) :: early) :
    (∃ req r, s.job t = some (.request req) ∧ r.id = id ∧
        SubmittedSnapshot config early t snapshot r) ∨
      ∃ batchId before r, s.job t = some (.processBatch batchId) ∧ r.id = id ∧
        CheckpointSnapshot early before t batchId snapshot r := by
  obtain ⟨j, hj, _, hduty⟩ :=
    System.Reach.guar (batchContract config) (batchContract_served ok) hrun hlog
  cases j with
  | request req =>
    obtain ⟨hpersist, hfirst, r, hfresh, hid, hsnapshot⟩ := hduty
    exact Or.inl ⟨req, r, hj, hid.symm, hpersist, hfirst, hfresh, hsnapshot⟩
  | processBatch batchId =>
    obtain ⟨r, answer, rest, hops, rfl, hsnapshot⟩ := hduty
    obtain ⟨l₁, l₂, hpast, hrest⟩ := inward_split hops
    obtain ⟨late', before, hearly, htrace⟩ := System.trace_split hpast
    refine Or.inr ⟨batchId, before, r, hj, rfl, ⟨late', hearly.symm⟩, ⟨answer, ?_⟩, _, hsnapshot⟩
    rw [hops, htrace, hrest]
  | recover =>
    obtain ⟨_, _, _, _, _, _, _, _, _, hcall⟩ := hduty
    have hsettle := congrArg BatchCall.isSettle hcall
    rw [settleCall_isSettle] at hsettle
    cases hsettle
  | _ => cases hduty

theorem Submitted.persist_unique {ops : List Event} (h : Submitted config ops) {id id' : String}
    {r : BatchRecord} {snapshot : PersistedBatch}
    {a : (BatchCall.persistBatch id' snapshot).toMethod.Ans}
    (hr : ⟨.live (.insert id r), ()⟩ ∈ ops)
    (hsnapshot : ⟨.store (.persistBatch id' snapshot), a⟩ ∈ ops) :
    snapshot = .fromRecord r false := by
  have hfirsts : ∀ {r₀ : BatchRecord} {first : List Event}, First config r₀ first →
      ⟨.store (.persistBatch id' snapshot), a⟩ ∈ first → snapshot = .fromRecord r₀ false := by
    intro r₀ first hfirst hmem
    obtain ⟨a', heq⟩ := hfirst.store hmem
    cases heq
    rfl
  have hopened : ∀ {r₀ : BatchRecord}, ⟨.live (.insert r₀.id r₀), ()⟩ ∈ ops → r₀ = r :=
    fun h₀ => h.insert_unique h₀ hr
  cases h with
  | idle => cases hr
  | stored r₀ first hfirst => cases (hfirst.store hr).choose_spec
  | opened r₀ first hfirst =>
    obtain rfl : r₀ = r := hopened (by simp)
    rcases List.mem_cons.1 hsnapshot with heq | hmem
    · cases heq
    · exact hfirsts hfirst hmem
  | checked r₀ current first hfirst =>
    obtain rfl : r₀ = r := hopened (by simp)
    rcases List.mem_cons.1 hsnapshot with heq | hmem
    · cases heq
    rcases List.mem_cons.1 hmem with heq | hmem
    · cases heq
    · exact hfirsts hfirst hmem
  | handed r₀ current first hfirst =>
    obtain rfl : r₀ = r := hopened (by simp)
    rcases List.mem_cons.1 hsnapshot with heq | hmem
    · cases heq
    rcases List.mem_cons.1 hmem with heq | hmem
    · cases heq
    rcases List.mem_cons.1 hmem with heq | hmem
    · cases heq
    · exact hfirsts hfirst hmem

/-- Of two checkpoints of one processor, the later one reads its record after the earlier one
was written. -/
theorem read_after {t : Nat} {batchId : String} {e : Event} {r : BatchRecord}
    {snapshot : PersistedBatch} {early early' before : List (Nat × Event)}
    (hsnapshot : CheckpointSnapshot early' before t batchId snapshot r)
    (he : e.1.isInward = true) (hread : e ≠ ⟨.live (.read batchId), r⟩)
    (hasked : ∀ a, e ≠ ⟨.store (.batchWasSettled r.id), a⟩)
    (hsuffix : (t, e) :: early <:+ early') : early <:+ before := by
  have hbefore : before <:+ early' := (List.suffix_cons _ _).trans hsnapshot.read
  rcases List.suffix_or_suffix_of_suffix hsuffix hbefore with h | h
  · exact (List.suffix_cons _ _).trans h
  rcases List.suffix_cons_iff.1 h with h | h
  · rw [h]
    exact List.suffix_cons _ _
  -- otherwise the record was read before, and too few operations lie between
  obtain ⟨a, hlast⟩ := hsnapshot.last
  obtain ⟨late, rfl⟩ := hsuffix
  obtain ⟨mid, rfl⟩ := h
  have htrace : inward (System.trace (late ++ (t, e) :: (mid ++ before)) t) =
      inward (System.trace late t) ++ e :: (inward (System.trace mid t) ++
        inward (System.trace before t)) := by
    simp [System.trace, inward, he]
  rw [htrace] at hlast
  cases hlate : inward (System.trace late t) with
  | nil =>
    rw [hlate] at hlast
    exact absurd (List.cons.inj hlast).1 (hasked a)
  | cons x xs =>
    rw [hlate] at hlast
    have hlength := congrArg List.length hlast
    simp only [List.length_append, List.length_cons] at hlength
    have hxs : xs = [] := List.length_eq_zero_iff.1 (by omega)
    rw [hxs] at hlast
    exact absurd (List.cons.inj (List.cons.inj hlast).2).1 hread

end Origins

section Lag
variable {config : AppConfig} {ok : (node config).State → (node config).Action → Prop}
variable {start : Shared} {s : (node config).State}

theorem Described.advances {early late : List (Nat × Event)} {r₀ r r' : BatchRecord}
    (h : Described early r₀ r) (h' : Described late r₀ r') (hsub : early ⊆ late) :
    List.Forall₂ Advances r.slots r'.slots := by
  rw [List.forall₂_iff_get]
  refine ⟨h.length.trans h'.length.symm, fun i hi hi' => ?_⟩
  have hi₀ : i < r₀.slots.length := h.length ▸ hi
  have hslot := h.slots i r₀.slots[i] r.slots[i] (List.getElem?_eq_getElem hi₀)
    (List.getElem?_eq_getElem hi)
  have hslot' := h'.slots i r₀.slots[i] r'.slots[i] (List.getElem?_eq_getElem hi₀)
    (List.getElem?_eq_getElem hi')
  refine ⟨hslot'.quote.trans hslot.quote.symm, fun hdone => hslot'.done.2 ?_⟩
  obtain ⟨x, hx, hat⟩ := hslot.done.1 hdone
  exact ⟨x, hsub hx, hat⟩

theorem Described.advances_fresh {log : List (Nat × Event)} {past : List Event}
    {r₀ r : BatchRecord} (h : Described log r₀ r) (hfresh : Fresh past r₀) :
    List.Forall₂ Advances r₀.slots r.slots := by
  rw [List.forall₂_iff_get]
  refine ⟨h.length.symm, fun i hi hi' => ?_⟩
  have hslot := h.slots i r₀.slots[i] r.slots[i] (List.getElem?_eq_getElem hi)
    (List.getElem?_eq_getElem hi')
  refine ⟨hslot.quote, fun hdone => ?_⟩
  have hpending := (hfresh.idle r₀.slots[i] (List.getElem_mem hi)).1
  rw [show r₀.slots.get ⟨i, hi⟩ = r₀.slots[i] from rfl, hpending] at hdone
  cases hdone

theorem recoveredRefund_fromRecord (r : BatchRecord) (settled : Bool) :
    (PersistedBatch.fromRecord r settled).intoRecord.reconcile.refundedGrains =
      recoveredRefund r.slots := by
  rw [intoRecord_fromRecord]
  unfold recoveredRefund BatchRecord.reconcile BatchRecord.bare
  simp only [List.foldl_map]
  rfl

theorem Described.explained {log : List (Nat × Event)} {r₀ r : BatchRecord}
    (h : Described log r₀ r) : r.Explained := by
  intro slot hslot
  obtain ⟨i, hi, rfl⟩ := List.getElem_of_mem hslot
  have hi₀ : i < r₀.slots.length := h.length ▸ hi
  exact (h.slots i r₀.slots[i] r.slots[i] (List.getElem?_eq_getElem hi₀)
    (List.getElem?_eq_getElem hi)).explained

/-- Before the request of a batch persists it nothing was done under its id. -/
theorem unopened_submitting (hrun : System.Reach (node config) ok ((node config).init start) s)
    {early : List (Nat × Event)} (hearly : early ⊆ s.log) {t t₀ : Nat} {req₀ : Request}
    {snapshot : PersistedBatch} {r r₀ : BatchRecord} {id : String}
    (hsnapshot : SubmittedSnapshot config early t snapshot r) (hid : r.id = id)
    (hjob₀ : s.job t₀ = some (.request req₀)) :
    (t₀, ⟨.live (.insert id r₀), ()⟩) ∉ early := by
  intro hmem
  obtain ⟨early₀, hsub₀, hfresh₀, hid₀⟩ := inserted_fresh hrun hjob₀ (hearly hmem)
  obtain rfl := hfresh₀.owner hrun hsnapshot.fresh hsub₀ hearly (hid₀.symm.trans hid.symm)
  have hops : ⟨.live (.insert id r₀), ()⟩ ∈ batchOps (System.trace early t₀) :=
    List.mem_filter.2 ⟨System.mem_trace.2 hmem, rfl⟩
  rw [hsnapshot.first] at hops
  cases hops

section Boot
variable (hboot : ∀ s act, ok s act → AtBoot s act)
variable (hlive : start.live = fun _ => none)
variable (hdisk : start.keys.Snapshots (Own start.issued))
include hboot hlive hdisk

/-- The record of a checkpoint grew out of the one that the request of its batch opened. -/
theorem checkpoint_described
    (hrun : System.Reach (node config) ok ((node config).init start) s) {t : Nat} {o : Op}
    {a : o.Ans} {batchId : String} {snapshot : PersistedBatch} {r : BatchRecord}
    {late early before : List (Nat × Event)} (hlog : s.log = late ++ (t, ⟨o, a⟩) :: early)
    (hjob : s.job t = some (.processBatch batchId))
    (hsnapshot : CheckpointSnapshot early before t batchId snapshot r) :
    ∃ t₀ req r₀, s.job t₀ = some (.request req) ∧
      (t₀, ⟨.live (.insert batchId r₀), ()⟩) ∈ before ∧ r₀.id = batchId ∧
        Described before r₀ r := by
  obtain ⟨s₁, c, j, k, sh, hr, rfl, hok, htask, hhandle, hrest⟩ := hrun.event hlog
  have hjobs : ∀ t j, s₁.job t = some j → s.job t = some j := fun t' j' hj =>
    hrest.job_mono (System.job_step
      (System.step_of_transition (.exec t c _ _ _ _ sh htask hhandle)) hj)
  obtain rfl : j = .processBatch batchId :=
    Option.some.inj ((hjobs t j (System.job_of_task htask)).symm.trans hjob)
  have hnot := processing_not_recovered hboot hr hlive hdisk (System.job_of_task htask)
    (System.running_of_task htask)
  obtain ⟨late', hread⟩ := hsnapshot.read
  have hsub : before ⊆ s₁.log := ((List.suffix_cons _ _).trans hsnapshot.read).subset
  obtain ⟨t₀, req, r₀, hj₀, hmem, hid, hdesc⟩ :=
    read_described hr hlive (fun u r' hj hmem => hnot u r' hj (hsub hmem)) hread.symm
  exact ⟨t₀, req, r₀, hjobs _ _ hj₀, hmem, hid, hdesc⟩

/-- A later snapshot of a batch refunds no more than an earlier one. -/
theorem lagging_snapshot (hrun : System.Reach (node config) ok ((node config).init start) s)
    {t t' : Nat} {id : String} {snapshot snapshot' : PersistedBatch}
    {a : (BatchCall.persistBatch id snapshot).toMethod.Ans}
    {a' : (BatchCall.persistBatch id snapshot').toMethod.Ans} {late mid early : List (Nat × Event)}
    (hlog : s.log = late ++ (t', ⟨.store (.persistBatch id snapshot'), a'⟩) ::
      (mid ++ (t, ⟨.store (.persistBatch id snapshot), a⟩) :: early)) :
    snapshot'.intoRecord.reconcile.refundedGrains.toNat ≤
      snapshot.intoRecord.reconcile.refundedGrains.toNat := by
  have hlog₁ : s.log = (late ++ (t', ⟨.store (.persistBatch id snapshot'), a'⟩) :: mid) ++
      (t, ⟨.store (.persistBatch id snapshot), a⟩) :: early := by
    rw [hlog]
    simp
  generalize hearly' : mid ++ (t, ⟨.store (.persistBatch id snapshot), a⟩) :: early = early'
    at hlog
  have hsuffix : (t, ⟨.store (.persistBatch id snapshot), a⟩) :: early <:+ early' :=
    ⟨mid, hearly'⟩
  have hsub : early ⊆ early' := ((List.suffix_cons _ _).trans hsuffix).subset
  have hsub' : early' ⊆ s.log := by
    rw [hlog]
    exact fun x hx => List.mem_append_right _ (List.mem_cons_of_mem _ hx)
  have hmem : (t, ⟨.store (.persistBatch id snapshot), a⟩) ∈ early' :=
    hsuffix.subset List.mem_cons_self
  rcases snapshot_cases hrun hlog with ⟨req', r', hj', hid', hnew⟩ |
    ⟨batchId', before', r', hj', hid', hnew⟩
  · -- the request of a batch writes its first snapshot
    exfalso
    rcases snapshot_cases hrun hlog₁ with ⟨req, r, hj, hid, hfirst⟩ |
      ⟨batchId, before, r, hj, hid, hfirst⟩
    · obtain rfl := hfirst.fresh.owner hrun hnew.fresh (List.Subset.trans hsub hsub') hsub'
        (hid.trans hid'.symm)
      have hops : ⟨.store (.persistBatch id snapshot), a⟩ ∈ batchOps (System.trace early' t) :=
        List.mem_filter.2 ⟨System.mem_trace.2 hmem, rfl⟩
      rw [hnew.first] at hops
      cases hops
    · obtain ⟨t₀, req₀, r₀, hj₀, hopened, hid₀, hdesc⟩ :=
        checkpoint_described hboot hlive hdisk hrun hlog₁ hj hfirst
      obtain rfl : batchId = id := hid₀.symm.trans (hdesc.id.symm.trans hid)
      have hbefore : before ⊆ early := ((List.suffix_cons _ _).trans hfirst.read).subset
      exact unopened_submitting hrun hsub' hnew hid' hj₀ (hsub (hbefore hopened))
  · obtain ⟨t₀', req₀', r₀', hj₀', hopened', hid₀', hdesc'⟩ :=
      checkpoint_described hboot hlive hdisk hrun hlog hj' hnew
    obtain rfl : batchId' = id := hid₀'.symm.trans (hdesc'.id.symm.trans hid')
    obtain ⟨settled', hsnapshot'⟩ := hnew.snapshot
    rw [hsnapshot', recoveredRefund_fromRecord]
    have hbefore' : before' ⊆ early' := ((List.suffix_cons _ _).trans hnew.read).subset
    rcases snapshot_cases hrun hlog₁ with ⟨req, r, hj, hid, hfirst⟩ |
      ⟨batchId, before, r, hj, hid, hfirst⟩
    · -- the first snapshot is of the record that was opened
      have hopened₀ := hsub' (hbefore' hopened')
      obtain ⟨early₀, hsub₀, hfresh₀, hid₀⟩ := inserted_fresh hrun hj₀' hopened₀
      obtain rfl := hfirst.fresh.owner hrun hfresh₀ (List.Subset.trans hsub hsub') hsub₀
        (hid.trans hid₀)
      have hkept := System.Reach.kept (batchContract config) (batchContract_served ok) hrun hj₀'
      have hops : ∀ {e : Event}, e.1.isBatch = true → (t, e) ∈ s.log →
          e ∈ batchOps (System.trace s.log t) := fun he hin =>
        List.mem_filter.2 ⟨System.mem_trace.2 hin, he⟩
      have hopening := (submitted_of_kept hkept).persist_unique (hops rfl hopened₀)
        (hops rfl (hsub' hmem))
      rw [hopening, recoveredRefund_fromRecord]
      exact recoveredRefund_antitone (hdesc'.advances_fresh hfresh₀)
    · obtain ⟨t₀, req₀, r₀, hj₀, hopened, hid₀, hdesc⟩ :=
        checkpoint_described hboot hlive hdisk hrun hlog₁ hj hfirst
      obtain rfl : batchId = batchId' := hid₀.symm.trans (hdesc.id.symm.trans hid)
      obtain rfl := (processors hrun).single t t' batchId hj hj'
      have hbefore : before ⊆ early := ((List.suffix_cons _ _).trans hfirst.read).subset
      obtain ⟨_, rfl⟩ := inserted_once hrun hj₀ hj₀'
        (hsub' (hsub (hbefore hopened))) (hsub' (hbefore' hopened'))
      have hlater := (read_after hnew rfl (fun heq => by cases heq) (fun _ heq => by cases heq)
        hsuffix).subset
      obtain ⟨settled, hsnapshot⟩ := hfirst.snapshot
      rw [hsnapshot, recoveredRefund_fromRecord]
      exact recoveredRefund_antitone (hdesc.advances hdesc' (List.Subset.trans hbefore hlater))

end Boot
end Lag

section Agreement
variable {config : AppConfig} {ok : (node config).State → (node config).Action → Prop}
variable {start : Shared} {s : (node config).State}

/-- Recovery does the accounts of the processor. -/
structure RecoveryAgrees (log : List (Nat × Event)) : Prop where
  /-- From any snapshot it comes to the accounts of the processor on the same slots, the
  unfinished ones counted as errored. Once every slot is over it comes to the very record that
  the processor settles, as far as snapshots keep it. -/
  accounts : ∀ t id snapshot a, (t, ⟨.store (.persistBatch id snapshot), a⟩) ∈ log →
    ∃ r settled, r.id = id ∧ snapshot = .fromRecord r settled ∧
      SameAccounts snapshot.intoRecord.reconcile r.abandoned.finish ∧
      (r.allTerminal = true → snapshot.intoRecord.reconcile = r.finish.bare)
  /-- A snapshot that lags behind never costs the buyer. -/
  lagging : ∀ late mid early t t' id snapshot snapshot' a a',
    log = late ++ (t', ⟨.store (.persistBatch id snapshot'), a'⟩) ::
      (mid ++ (t, ⟨.store (.persistBatch id snapshot), a⟩) :: early) →
    snapshot'.intoRecord.reconcile.refundedGrains.toNat ≤
      snapshot.intoRecord.reconcile.refundedGrains.toNat

/-- In every run in which recovery runs at boot, recovery agrees with live processing. -/
theorem recovery_agrees (hboot : ∀ s act, ok s act → AtBoot s act)
    (hlive : start.live = fun _ => none) (hdisk : start.keys.Snapshots (Own start.issued))
    (hrun : System.Reach (node config) ok ((node config).init start) s) :
    RecoveryAgrees s.log := by
  constructor
  · intro t id snapshot a hmem
    obtain ⟨late, early, hlog⟩ := List.append_of_mem hmem
    have haccounts : ∀ {r : BatchRecord} {settled : Bool}, snapshot = .fromRecord r settled →
        r.Explained → SameAccounts snapshot.intoRecord.reconcile r.abandoned.finish ∧
          (r.allTerminal = true → snapshot.intoRecord.reconcile = r.finish.bare) := by
      intro r settled heq hexplained
      rw [heq, intoRecord_fromRecord]
      exact ⟨reconcile_agrees r, fun hterminal => reconcile_eq_finish hterminal hexplained⟩
    rcases snapshot_cases hrun hlog with ⟨req, r, hj, hid, hsubmitted⟩ |
      ⟨batchId, before, r, hj, hid, hcheckpoint⟩
    · refine ⟨r, false, hid, hsubmitted.snapshot, haccounts hsubmitted.snapshot ?_⟩
      intro slot hslot herrored
      rw [(hsubmitted.fresh.idle slot hslot).1] at herrored
      cases herrored
    · obtain ⟨settled, hsnapshot⟩ := hcheckpoint.snapshot
      obtain ⟨t₀, req, r₀, _, _, _, hdesc⟩ :=
        checkpoint_described hboot hlive hdisk hrun hlog hj hcheckpoint
      exact ⟨r, settled, hid, hsnapshot, haccounts hsnapshot hdesc.explained⟩
  · intro late mid early t t' id snapshot snapshot' a a' hlog
    exact lagging_snapshot hboot hlive hdisk hrun hlog

end Agreement

section Sample

def batchJson : Bytes :=
  utf8 ("\x7b\"requests\":[\x7b\"model\":\"llama-3-8b\"," ++
    "\"messages\":[\x7b\"role\":\"user\",\"content\":\"hi\"\x7d]\x7d]\x7d")

/-- The readers of a body, on a batch of one request. -/
def batchFormat : BodyFormat where
  Value := Unit
  extractChat _ _ := .error (.dataError "missing field `model`")
  extractBatch _ body :=
    if body = batchJson then .ok [sampleChat llama] else .error (.syntaxError "expected value")
  fromSlice body := if body = batchJson then .ok () else .error "expected value"
  chatFromValue _ := .error "missing field `model`"
  batchFromValue _ := .ok [sampleChat llama]

def batchApp : AppConfig := { sampleApp with format := batchFormat }

def batchStart : Shared := Shared.booted (.persistent ⟨.empty, []⟩) sampleChain

def batchRequest : Request :=
  { sampleRequest with route := .batch, line := ⟨"POST", "/v1/batch"⟩ }

/-- The batch is priced, paid for by the key and submitted. -/
def submitted : List Input :=
  [served, .layer ⟨.bufferRequestBody, .ok batchJson⟩, .ok, .ok, served, .ok, .ok, .ok,
    .uuid "1", .secs 7, served, .ok, .ok, .ok, .ok]

/-- Its one slot is served. -/
def slotServed : List Input :=
  [.ok, .ok, .ok, .ok, .ok, .ok, .providers (.ok [sampleProvider]), .pools (.ok []),
    .provider (.ok ⟨"hello", none, none, none⟩), .uuid "2", .secs 8, .ok, .ok, served, served]

def Job.isRecover : Job → Bool
  | .recover => true
  | _ => false

/-- No recovery at all. -/
def bootCheck (s : (node batchApp).State) : (node batchApp).Action → Bool
  | .start j => !j.isRecover && s.tasks.all fun k => !k.job.isRecover
  | _ => true

theorem atBoot_of_check {s : (node batchApp).State} {act : (node batchApp).Action}
    (h : bootCheck s act = true) : AtBoot s act := by
  cases act with
  | start j =>
    obtain ⟨hj, hall⟩ := Bool.and_eq_true_iff.1 h
    have hnone : ∀ t, s.job t ≠ some .recover := by
      intro t hjob
      obtain ⟨p, hp⟩ := System.job_eq_some.1 hjob
      have hk := List.all_eq_true.1 hall _ (List.mem_of_getElem? hp)
      cases hk
    cases j with
    | recover => cases hj
    | _ => exact fun t hjob => absurd hjob (hnone t)
  | _ => trivial

def batchRun : Option (node batchApp).State :=
  (node batchApp).run bootCheck ((node batchApp).init batchStart)
    (System.script [.createKey "acme" 1000 0 .credits, .request batchRequest]
      ((0, keyCreated) :: submitted.map (1, ·) ++ slotServed.map (2, ·)))

/-- What recovery would refund from a snapshot. -/
def refundOf : Nat × Event → Option U256
  | (_, ⟨.store (.persistBatch _ snapshot), _⟩) => some snapshot.intoRecord.reconcile.refundedGrains
  | _ => none

theorem recovery_agrees_sample : ∃ s, batchRun = some s ∧
    s.log.filterMap refundOf = [0, 7] ∧ RecoveryAgrees s.log := by
  obtain ⟨s, hs, hrefunds⟩ : ∃ s, batchRun = some s ∧ s.log.filterMap refundOf = [0, 7] :=
    ⟨_, rfl, rfl⟩
  have hrun : System.Reach (node batchApp) AtBoot ((node batchApp).init batchStart) s :=
    .of_run (fun _ _ hcheck => atBoot_of_check hcheck) hs
  have hdisk : batchStart.keys.Snapshots (Own batchStart.issued) :=
    fun row hrow => (List.not_mem_nil hrow).elim
  exact ⟨s, hs, hrefunds, recovery_agrees (fun _ _ h => h) rfl hdisk hrun⟩

end Sample
end Gateway.App
