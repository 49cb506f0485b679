import CitrateGateway.Gateway.KeyTerms
import CitrateGateway.Gateway.DailyQuota
import CitrateGateway.Gateway.ProxyRequests

/-!
# Requests and the calls of the key store

The key store of a proxy runs as it would alone, whatever the requests do around it. Every call
that a request begins is its own, and a request goes on with what its own call returned.
-/

namespace Gateway.LocalProxy
set_option autoImplicit false
open Words Effects Durable
open KeyStore (ProxyMethod ProxyRun proxyCalls)

section KeyRuns
variable {config : Config} {rows₀ : Rows} {s s' : (server config).State}
variable {ok : (server config).State → (server config).Action → Prop}
variable {ok' : (proxyCalls config.hashKeyId).State → (proxyCalls config.hashKeyId).Action → Prop}

/-- What a step of the proxy is for its key store. -/
def keyAction (s : (server config).State) :
    (server config).Action → Option (proxyCalls config.hashKeyId).Action
  | .exec t _ =>
    match s.tasks[t]? with
    | some ⟨_, some (.op (.begin m) _)⟩ => some (.start m)
    | _ => none
  | .world (.keys n c) => some (.exec n c)
  | .world (.operator m) => some (.start m)
  | .world (.restart mask) => some (.world (.restart mask))
  | _ => none

/-- The key store takes steps of these kinds only. -/
def KeysOk (ok : (server config).State → (server config).Action → Prop)
    (ok' : (proxyCalls config.hashKeyId).State → (proxyCalls config.hashKeyId).Action → Prop) :
    Prop :=
  ∀ s act b, ok s act → keyAction s act = some b → ok' s.shared.keys b

theorem keysOk_true (ok : (server config).State → (server config).Action → Prop) :
    KeysOk ok fun _ _ => True :=
  fun _ _ _ _ _ => trivial

theorem keys_advance {t : Nat} {j : Job} {o : Op} {k : o.Ans → M Response} {a : o.Ans}
    {sh : Shared config} : (s.advance t j o k a sh).shared.keys = sh.keys := by
  show ((server config).settle t (k a) sh).keys = sh.keys
  cases k a <;> rfl

/-- An operation begins one call, or leaves the key store alone. -/
theorem keys_of_handle {sh sh' : Shared config} {t : Nat} {o : Op} {c : Input} {a : o.Ans}
    (h : handle sh t o c = some (a, sh')) :
    (∃ m, (⟨o, a⟩ : Event) = ⟨.begin m, sh.keys.tasks.length⟩ ∧
        sh'.keys = sh.keys.begin m sh.keys.shared) ∨
      ((∀ m, o ≠ .begin m) ∧ sh'.keys = sh.keys) := by
  cases handle_cases h with
  | begin m => exact Or.inl ⟨m, rfl, rfl⟩
  | _ => exact Or.inr ⟨fun _ h => (by cases h), rfl⟩

/-- A step of the proxy is a step of its key store, or none. -/
theorem keys_step {act : (server config).Action} (hT : System.Transition s act s') :
    (keyAction s act = none ∧ s'.shared.keys = s.shared.keys) ∨
      ∃ b, keyAction s act = some b ∧
        (proxyCalls config.hashKeyId).step s.shared.keys b = some s'.shared.keys := by
  cases hT with
  | start j sh hstart =>
    cases hstart
    exact Or.inl ⟨rfl, rfl⟩
  | exec t c j o k a sh htask hhandle =>
    rw [keys_advance]
    simp only [keyAction, htask]
    rcases keys_of_handle hhandle with ⟨m, he, hkeys⟩ | ⟨hnot, hkeys⟩
    · cases he
      exact Or.inr ⟨.start m, rfl, by rw [hkeys]; rfl⟩
    · refine Or.inl ⟨?_, hkeys⟩
      cases o with
      | begin m => exact absurd rfl (hnot m)
      | _ => rfl
  | drop t j o k htask => exact Or.inl ⟨rfl, rfl⟩
  | world w sh hworld =>
    refine Or.inr ?_
    cases w with
    | keys n c =>
      obtain ⟨keys, hstep, rfl⟩ := Option.map_eq_some_iff.1 hworld
      exact ⟨.exec n c, rfl, hstep⟩
    | operator m =>
      simp only [turn] at hworld
      split at hworld
      · cases hworld
        exact ⟨.start m, rfl, rfl⟩
      · cases hworld
    | restart mask =>
      change turn s.shared (.restart mask) = some sh at hworld
      unfold turn at hworld
      obtain ⟨keys, hstep, rfl⟩ := Option.map_eq_some_iff.1 hworld
      exact ⟨.world (.restart mask), rfl, hstep⟩

/-- The key store of a proxy runs as it would alone. -/
theorem keysRun_of_run (hok : KeysOk ok ok') (hrun : ServerRun config rows₀ ok s) :
    ProxyRun config.hashKeyId rows₀ ok' s.shared.keys := by
  induction hrun with
  | refl => exact .refl
  | step hr hact hstep ih =>
    rcases keys_step (System.step_cases hstep) with ⟨-, hkeys⟩ | ⟨b, hb, hkeys⟩
    · rw [hkeys]
      exact ih
    · exact ih.step (hok _ _ b hact hb) hkeys

end KeyRuns

section Calls
variable {config : Config} {rows₀ : Rows} {s s' : (server config).State}
variable {ok : (server config).State → (server config).Action → Prop}
variable {m : ProxyMethod} {n : Nat}

theorem returned_iff {keys : (proxyCalls config.hashKeyId).State} {a : m.Ans} :
    returned keys m n = some a ↔ ∃ j, keys.tasks[n]? = some ⟨j, some (.ret ⟨m, a⟩)⟩ := by
  constructor
  · intro h
    unfold returned at h
    split at h
    · rename_i r hprog
      obtain ⟨⟨j, p⟩, htask, hp⟩ := Option.bind_eq_some_iff.1 hprog
      split at h
      · rename_i hm
        obtain ⟨m', b⟩ := r
        subst hm
        cases h
        cases hp
        exact ⟨j, htask⟩
      · cases h
    · cases h
  · intro ⟨j, htask⟩
    simp [returned, htask]

/-- A call that was begun is there, and no other request began it; an answer is what the call
returned. -/
structure CallsInv (s : (server config).State) : Prop where
  begun : ∀ t m n, (t, (⟨.begin m, n⟩ : Event)) ∈ s.log → s.shared.keys.job n = some m
  apart : ∀ t u m m' n, (t, (⟨.begin m, n⟩ : Event)) ∈ s.log →
    (u, (⟨.begin m', n⟩ : Event)) ∈ s.log → t = u
  answered : ∀ t m n (a : m.Ans), (t, (⟨.await m n, a⟩ : Event)) ∈ s.log →
    returned s.shared.keys m n = some a

theorem callsInv_of_run (hrun : ServerRun config rows₀ ok s) : CallsInv s := by
  refine System.Reach.invariant CallsInv hrun ?_ ?_
  · exact ⟨fun _ _ _ h => (by cases h), fun _ _ _ _ _ h => (by cases h),
      fun _ _ _ _ h => (by cases h)⟩
  intro s s' act hr hI hok hT
  have hjob : ∀ {n m}, s.shared.keys.job n = some m → s'.shared.keys.job n = some m := by
    intro n m hj
    rcases keys_step hT with ⟨-, hkeys⟩ | ⟨b, -, hstep⟩
    · rwa [hkeys]
    · exact System.job_step hstep hj
  have hreturned : ∀ {m n} {a : m.Ans}, returned s.shared.keys m n = some a →
      returned s'.shared.keys m n = some a := by
    intro m n a ha
    rcases keys_step hT with ⟨-, hkeys⟩ | ⟨b, -, hstep⟩
    · rwa [hkeys]
    · obtain ⟨j, htask⟩ := returned_iff.1 ha
      exact returned_iff.2 ⟨j, System.finished_of_transition (System.step_cases hstep) htask⟩
  have hquiet : s'.log = s.log → CallsInv s' := by
    intro hlog
    constructor <;> rw [hlog]
    · exact fun t m n hmem => hjob (hI.begun t m n hmem)
    · exact hI.apart
    · exact fun t m n a hmem => hreturned (hI.answered t m n a hmem)
  cases hT with
  | start j sh hstart => exact hquiet rfl
  | drop t j o k htask => exact hquiet rfl
  | world w sh hworld => exact hquiet rfl
  | exec t c j o k a sh htask hhandle =>
    have hkeys : ∀ {m n}, (⟨o, a⟩ : Event) = ⟨.begin m, n⟩ → n = s.shared.keys.tasks.length ∧
        sh.keys = s.shared.keys.begin m s.shared.keys.shared := by
      intro m n he
      rcases keys_of_handle hhandle with ⟨m', he', hkeys⟩ | ⟨hnot, -⟩
      · rw [he'] at he
        cases he
        exact ⟨rfl, hkeys⟩
      · cases he
        exact absurd rfl (hnot m)
    have hnew : ∀ {u m m' n}, (⟨o, a⟩ : Event) = ⟨.begin m, n⟩ →
        (u, (⟨.begin m', n⟩ : Event)) ∉ s.log := by
      intro u m m' n he hmem
      have hlt := System.lt_of_job (hI.begun u m' n hmem)
      rw [(hkeys he).1] at hlt
      exact absurd hlt (Nat.lt_irrefl _)
    refine ⟨fun u m n hmem => ?_, fun u v m m' n hmem hmem' => ?_, fun u m n b hmem => ?_⟩
    · rcases List.mem_cons.1 hmem with heq | hold
      · obtain ⟨rfl, hbegin⟩ := hkeys (congrArg Prod.snd heq).symm
        rw [keys_advance, hbegin]
        simp [System.State.job, System.State.begin]
      · exact hjob (hI.begun u m n hold)
    · rcases List.mem_cons.1 hmem with heq | hold
      · rcases List.mem_cons.1 hmem' with heq' | hold'
        · exact (congrArg Prod.fst heq).trans (congrArg Prod.fst heq').symm
        · exact (hnew (congrArg Prod.snd heq).symm hold').elim
      · rcases List.mem_cons.1 hmem' with heq' | hold'
        · exact (hnew (congrArg Prod.snd heq').symm hold).elim
        · exact hI.apart u v m m' n hold hold'
    · rcases List.mem_cons.1 hmem with heq | hold
      · have he : (⟨o, a⟩ : Event) = ⟨.await m n, b⟩ := (congrArg Prod.snd heq).symm
        cases he
        cases handle_cases hhandle with
        | await _ _ _ ha => exact hreturned ha
      · exact hreturned (hI.answered u m n b hold)

end Calls

section Charges
variable {config : Config} {rows₀ : Rows} {s : (server config).State}
variable {ok : (server config).State → (server config).Action → Prop}
variable {req : Request} {past : List Event}

/-- The call that a request began, and what it answered. -/
structure Called (req : Request) (past : List Event) : Prop where
  begun : ∀ n, (view past).call = some n → ∃ keyId, Admissible req keyId ∧
    (⟨.begin (.tryConsume keyId), n⟩ : Event) ∈ past
  answered : ∀ a, (view past).consumed = some a → ∃ keyId n,
    extractBearer req.headers = some keyId ∧ (view past).call = some n ∧
      (⟨.await (.tryConsume keyId) n, a⟩ : Event) ∈ past

theorem Called.cons (h : Called req past) {e : Event}
    (hcall : ((view past).next e).call = (view past).call)
    (hconsumed : ((view past).next e).consumed = (view past).consumed) : Called req (e :: past) := by
  refine ⟨fun n hn => ?_, fun a ha => ?_⟩
  · obtain ⟨keyId, hkey, hmem⟩ := h.begun n (hcall ▸ hn)
    exact ⟨keyId, hkey, List.mem_cons_of_mem _ hmem⟩
  · obtain ⟨keyId, n, hkey, hn, hmem⟩ := h.answered a (hconsumed ▸ ha)
    exact ⟨keyId, n, hkey, hcall.trans hn, List.mem_cons_of_mem _ hmem⟩

theorem called_of_kept (hkept : System.Kept (fun past e => Duty config req (view past) e) past) :
    Called req past := by
  induction past with
  | nil => exact ⟨fun n h => (by cases h), fun a h => (by cases h)⟩
  | cons e past ih =>
    obtain ⟨hduty, hkept⟩ := hkept
    have hold := ih hkept
    have hview : view (e :: past) = (view past).next e := rfl
    generalize hv : view past = v at hduty
    rw [hv] at hview
    cases hduty with
    | begin keyId n hreq =>
      refine ⟨fun n' hn' => ⟨keyId, hreq, ?_⟩, fun a ha => ?_⟩
      · rw [hview] at hn'
        cases hn'
        exact List.mem_cons_self
      · rw [hview] at ha
        cases ha
    | await keyId n a hreq =>
      refine ⟨fun n' hn' => ?_, fun a' ha' => ⟨keyId, n, hreq.key, by rw [hview]; rfl, ?_⟩⟩
      · rw [hview] at hn'
        cases hn'
        obtain ⟨keyId', hkey, hmem⟩ := hold.begun n (by rw [hv])
        exact ⟨keyId', hkey, List.mem_cons_of_mem _ hmem⟩
      · rw [hview] at ha'
        cases ha'
        exact List.mem_cons_self
    | _ => exact hold.cons (by rw [hv]; rfl) (by rw [hv]; rfl)

def viewOf (s : (server config).State) (t : Nat) : View := view (System.trace s.log t)

theorem called_of_run (hrun : ServerRun config rows₀ ok s) {t : Nat}
    (hjob : s.job t = some (.proxy req)) : Called req (System.trace s.log t) :=
  called_of_kept (hrun.kept (contract config) (contract_served ok) hjob)

theorem consumed_of_view {a : Except ConsumeError ConsumedKey}
    (h : (view past).consumed = some a) :
    ∃ keyId n, (⟨.await (.tryConsume keyId) n, a⟩ : Event) ∈ past := by
  obtain ⟨e, hmem, v, hold, hnew⟩ := event_of_view (P := (·.consumed = some a)) nofun h
  unfold View.next at hnew
  split at hnew <;> first | exact absurd hnew hold | skip
  cases hnew
  exact ⟨_, _, hmem⟩

theorem View.consumed_of_key {v : View} {key : ConsumedKey} (h : v.key = some key) :
    v.consumed = some (.ok key) := by
  unfold View.key at h
  split at h
  · rename_i hconsumed
    cases h
    exact hconsumed
  · cases h

/-- Only requests to the proxy are charged. -/
theorem job_of_key (hrun : ServerRun config rows₀ ok s) {t : Nat} {key : ConsumedKey}
    (hkey : (viewOf s t).key = some key) : ∃ req, s.job t = some (.proxy req) := by
  obtain ⟨keyId, n, hmem⟩ := consumed_of_view (View.consumed_of_key hkey)
  obtain ⟨late, early, hlog⟩ := List.append_of_mem (System.mem_trace.1 hmem)
  obtain ⟨j, hj, _, hduty⟩ := hrun.guar (contract config) (contract_served ok) hlog
  cases j with
  | proxy req => exact ⟨req, hj⟩
  | memberKey headers =>
    exfalso
    have hnever : ∀ {past e}, IssueDuty config headers past e →
        ∀ a, e ≠ (⟨.await (.tryConsume keyId) n, a⟩ : Event) := by
      intro past e h a heq
      cases h <;> cases heq
    exact hnever hduty _ rfl

/-- What a request was charged, its own call charged. -/
theorem charge_of_key (hrun : ServerRun config rows₀ ok s) {t : Nat} {key : ConsumedKey}
    (hjob : s.job t = some (.proxy req)) (hkey : (viewOf s t).key = some key) :
    ∃ keyId n, extractBearer req.headers = some keyId ∧ (viewOf s t).call = some n ∧
      s.shared.keys.tasks[n]? =
        some ⟨.tryConsume keyId, some (.ret ⟨.tryConsume keyId, .ok key⟩)⟩ := by
  have hcalled := called_of_run hrun hjob
  have hI := callsInv_of_run hrun
  obtain ⟨keyId, n, hbearer, hn, hmem⟩ := hcalled.answered _ (View.consumed_of_key hkey)
  obtain ⟨keyId', hreq, hbegun⟩ := hcalled.begun n hn
  obtain rfl : keyId = keyId' := Option.some.inj (hbearer.symm.trans hreq.key)
  obtain ⟨j, htask⟩ := returned_iff.1 (hI.answered t _ n _ (System.mem_trace.1 hmem))
  have hj := hI.begun t _ n (System.mem_trace.1 hbegun)
  rw [System.job_of_task htask] at hj
  cases hj
  exact ⟨keyId, n, hbearer, hn, htask⟩

/-- Two requests do not share a call. -/
theorem call_apart (hrun : ServerRun config rows₀ ok s) {t u n : Nat} {req' : Request}
    (hjob : s.job t = some (.proxy req)) (hjob' : s.job u = some (.proxy req'))
    (hn : (viewOf s t).call = some n) (hn' : (viewOf s u).call = some n) : t = u := by
  obtain ⟨keyId, _, hmem⟩ := (called_of_run hrun hjob).begun n hn
  obtain ⟨keyId', _, hmem'⟩ := (called_of_run hrun hjob').begun n hn'
  exact (callsInv_of_run hrun).apart t u _ _ n (System.mem_trace.1 hmem) (System.mem_trace.1 hmem')

/-- Some request was told what it was charged to. -/
def Told (s : (server config).State) (key : ConsumedKey) : Prop :=
  ∃ t keyId n, (t, (⟨.await (.tryConsume keyId) n, .ok key⟩ : Event)) ∈ s.log

theorem told_of_view {t : Nat} {key : ConsumedKey} (h : (viewOf s t).key = some key) :
    Told s key := by
  obtain ⟨keyId, n, hmem⟩ := consumed_of_view (View.consumed_of_key h)
  exact ⟨t, keyId, n, System.mem_trace.1 hmem⟩

theorem found_of_told (hrun : ServerRun config rows₀ ok s) {key : ConsumedKey} (h : Told s key) :
    ∃ r, KeyStore.Found s.shared.keys key.hash r ∧ key.label = r.label := by
  obtain ⟨t, keyId, n, hmem⟩ := h
  have hkeys := keysRun_of_run (keysOk_true ok) hrun
  obtain ⟨j, htask⟩ := returned_iff.1 ((callsInv_of_run hrun).answered t _ n _ hmem)
  have hserved := KeyStore.consume_served fun (_ : (proxyCalls config.hashKeyId).State) _ => True
  obtain ⟨a, heq, _⟩ := hkeys.meets (KeyStore.consumeContract config.hashKeyId) hserved htask
  cases heq
  obtain ⟨r, hfound, rfl⟩ := KeyStore.found_of_consumed hkeys htask
  exact ⟨r, hfound, rfl⟩

/-- All requests with a key see the same label. -/
theorem label_of_hash (hopen : rows₀.pending = []) (hrun : ServerRun config rows₀ ok s)
    {key key' : ConsumedKey} (h : Told s key) (h' : Told s key') (hhash : key.hash = key'.hash) :
    key.label = key'.label := by
  obtain ⟨r, hfound, hlabel⟩ := found_of_told hrun h
  obtain ⟨r', hfound', hlabel'⟩ := found_of_told hrun h'
  rw [← hhash] at hfound'
  have hkeys := keysRun_of_run (keysOk_true ok) hrun
  have hterms := KeyStore.issued_of_found hopen hkeys hfound hfound'
  have hlabels : r.issued.label = r'.issued.label := by rw [hterms]
  exact hlabel.trans (hlabels.trans hlabel'.symm)

end Charges

section Samples

def sampleConfig : Config where
  state := (LocalProxyState.new ["http://chat"] (List.cons_ne_nil _ _)).withLimits 16 1 1
  hashKeyId := id
  format := sampleFormat
  sha256 := id
  parseIp := some

/-- Two keys, the first with a daily quota of two. -/
def sampleRows : Rows :=
  ⟨[⟨.record "one", ⟨"label", 0, false, 0, 2⟩⟩, ⟨.record "two", ⟨"label", 0, false, 0, 0⟩⟩], []⟩

def listModels (keyId : String) : Job :=
  .proxy ⟨"GET", ⟨"/v1/models", none⟩, [("authorization", utf8 ("Bearer " ++ keyId))]⟩

end Samples
end Gateway.LocalProxy
