import CitrateGateway.Gateway.ProxyKeys
import CitrateGateway.Gateway.StorePromise

/-!
# What one consumption does

A call of `tryConsume` reads the record of its key once, the pool's cap once if the key is a
member's, and the day once. It raises a counter by one, under that counter's lock and below its
limit, or it leaves it alone.
-/

namespace Gateway.KeyStore
set_option autoImplicit false
open Words Effects Durable

section View

/-- What a call has seen and written so far. -/
structure View where
  record : Option KeyRecord
  cap : Option UInt64
  day : Option String
  keyCounter : Option UInt64
  poolCounter : Option UInt64
  keyDays : List String
  poolDays : List String

def View.next (v : View) : Event → View
  | ⟨.get (.record _), .ok (some r)⟩ => { v with record := some r }
  | ⟨.memberPoolDaily, c⟩ => { v with cap := some c }
  | ⟨.today, d⟩ => { v with day := some d }
  | ⟨.get (.quota (.key _) _), .ok n⟩ => { v with keyCounter := some ((n : Option UInt64).getD 0) }
  | ⟨.get (.quota .memberPool _), .ok n⟩ =>
    { v with poolCounter := some ((n : Option UInt64).getD 0) }
  | ⟨.put ⟨.quota (.key _) d, _⟩, .ok ()⟩ => { v with keyDays := d :: v.keyDays }
  | ⟨.put ⟨.quota .memberPool d, _⟩, .ok ()⟩ => { v with poolDays := d :: v.poolDays }
  | _ => v

def view : List Event → View
  | [] => ⟨none, none, none, none, none, [], []⟩
  | e :: past => (view past).next e

/-- The value of a counter as the call read it. -/
def View.counter (v : View) : QuotaOwner → Option UInt64
  | .key _ => v.keyCounter
  | .memberPool => v.poolCounter

/-- The days that the call charged to a counter. -/
def View.charged (v : View) : QuotaOwner → List String
  | .key _ => v.keyDays
  | .memberPool => v.poolDays

def View.limit (v : View) : QuotaOwner → Option UInt64
  | .key _ => v.record.map (·.dailyQuota)
  | .memberPool => v.cap

def lockOf : QuotaOwner → LockName
  | .key h => .key h
  | .memberPool => .pool

end View

section Promise

/-- The call is at the counter, under its lock, and has not charged it. -/
structure Counting (h : String) (past : List Event) (owner : QuotaOwner) (day : String) :
    Prop where
  own : owner = .key h ∨ owner = .memberPool
  held : 0 < depth (lockOf owner) past
  day : (view past).day = some day
  uncharged : (view past).charged owner = []
  limited : ∃ limit, (view past).limit owner = some limit ∧ 0 < limit

def ConsumeDuty (h : String) (past : List Event) (e : Event) : Prop :=
  match e.1 with
  | .get (.record h') => h' = h ∧ (view past).record = none
  | .get (.quota owner day) => Counting h past owner day ∧ (view past).counter owner = none
  | .put ⟨.quota owner day, n⟩ => Counting h past owner day ∧
      ∃ cur limit, (view past).counter owner = some cur ∧ (view past).limit owner = some limit ∧
        cur < limit ∧ n = cur + 1
  | .checkRate h' now quotaRps => h' = h ∧ ⟨.nowSecs, now⟩ ∈ past ∧ 0 < quotaRps ∧
      ∃ r, (view past).record = some r ∧ r.quotaRps = quotaRps
  | .memberPoolDaily => (view past).cap = none ∧
      ∃ r, (view past).record = some r ∧ isMemberLabel r.label = true
  | .today => (view past).day = none
  | .lock _ => (view past).keyCounter = none
  | .lockPool => (view past).poolCounter = none
  | .get _ | .contains _ | .put _ | .putSynced _ | .writeBatch _ | .scanBatches | .scanBudgets _
  | .newUuid | .setMemberPoolDaily _ => False
  | _ => True

/-- What a call returns says what it has charged. -/
structure Consumed (h : String) (past : List Event) (a : Except ConsumeError ConsumedKey) :
    Prop where
  of_ok : ∀ key, a = .ok key → ∃ r, (view past).record = some r ∧ key = ⟨h, r.label⟩ ∧
    (0 < r.dailyQuota → ∃ day, (view past).day = some day ∧ (view past).keyDays = [day]) ∧
    (isMemberLabel r.label = true → ∃ cap, (view past).cap = some cap ∧
      (0 < cap → ∃ day, (view past).day = some day ∧ (view past).poolDays = [day]))
  of_error : ∀ e, a = .error e → past.any failed = true ∨
    ((view past).keyDays = [] ∧ (view past).poolDays = [])

variable {h : String} {past : List Event} {owner : QuotaOwner} {day : String}

abbrev Consuming {α : Type} (h : String) (p : M α) (post : List Event → α → Prop)
    (past : List Event) : Prop :=
  p.Meets AnyEvent (ConsumeDuty h) post past

theorem readCounter_consuming (hcount : Counting h past owner day)
    (hnew : (view past).counter owner = none) :
    Consuming h (readCounter owner day) (fun past' a => match a with
      | .ok cur => ∃ n : Option UInt64, past' = ⟨.get (.quota owner day), .ok n⟩ :: past ∧
          cur = n.getD 0
      | .error _ => past'.any failed = true) past := by
  refine Prog.meets_perform_bind.2 fun answer _ => ⟨⟨hcount, hnew⟩, ?_⟩
  rcases answer with e | ⟨_ | n⟩
  · rfl
  · exact ⟨none, rfl, rfl⟩
  · exact ⟨some n, rfl, rfl⟩

theorem writeCounter_consuming {cur : UInt64} (limit : UInt64) (hcount : Counting h past owner day)
    (hcur : (view past).counter owner = some cur) (hlimit : (view past).limit owner = some limit)
    (hlt : cur < limit) :
    Consuming h (writeCounter owner day (cur + 1)) (fun past' a => match a with
      | .ok () => past' = ⟨.put ⟨.quota owner day, cur + 1⟩, .ok ()⟩ :: past
      | .error _ => past'.any failed = true) past := by
  refine Prog.meets_perform_bind.2 fun w _ => ⟨⟨hcount, cur, limit, hcur, hlimit, hlt, rfl⟩, ?_⟩
  cases w <;> rfl

/-- A member's draw on the pool: the caller's own counter and lock are as they were. -/
theorem drawPool_consuming {v : View} {cap : UInt64} (hview : view past = v)
    (hcap : v.cap = some cap) (hpos : 0 < cap) (hday : v.day = some day)
    (hcounter : v.poolCounter = none) (hpool : v.poolDays = []) (hkey : v.keyDays = []) :
    Consuming h (drawPool day cap) (fun past' a => match a with
      | .ok () => (∃ n, view past' = { v with poolCounter := n, poolDays := [day] }) ∧
          ∀ h', depth (.key h') past' = depth (.key h') past
      | .error _ => past'.any failed = true ∨
          ((view past').keyDays = [] ∧ (view past').poolDays = [])) past := by
  subst hview
  refine Prog.meets_perform_bind.2 fun _ _ => ⟨hcounter, ?_⟩
  have hcount : ∀ l, view l = view past → 0 < depth .pool l →
      Counting h l .memberPool day := fun l hl hd =>
    ⟨Or.inr rfl, hd, by rw [hl, hday], by rw [hl]; exact hpool, cap, by rw [hl]; exact hcap, hpos⟩
  rw [Prog.meets_bind]
  refine Prog.Meets.bind (readCounter_consuming (hcount _ rfl (by simp [depth])) hcounter) ?_
  intro past₁ a ha
  cases a with
  | error e => exact Prog.meets_perform_bind.2 fun _ _ => ⟨trivial, Or.inl ha⟩
  | ok used =>
    obtain ⟨n, rfl, rfl⟩ := ha
    simp only
    split
    · refine Prog.meets_perform_bind.2 fun secs _ => ⟨trivial, ?_⟩
      exact Prog.meets_perform_bind.2 fun _ _ => ⟨trivial, Or.inr ⟨hkey, hpool⟩⟩
    · rename_i hlow
      have hcounting : Counting h
          (⟨.get (.quota .memberPool day), .ok n⟩ :: ⟨.lockPool, ()⟩ :: past) .memberPool day :=
        ⟨Or.inr rfl, by simp [depth, lockOf], hday, hpool, cap, hcap, hpos⟩
      refine (writeCounter_consuming cap hcounting rfl hcap (UInt64.not_le.1 hlow)).mono
        fun past₂ w hw => ?_
      cases w with
      | error e => exact Prog.meets_perform_bind.2 fun _ _ => ⟨trivial, Or.inl hw⟩
      | ok u =>
        subst hw
        refine Prog.meets_perform_bind.2 fun _ _ => ⟨trivial, ⟨some (n.getD 0), ?_⟩, fun h' => ?_⟩
        · simp [view, View.next, hpool]
        · simp [depth]

theorem chargeDay_consuming {r : KeyRecord} {c : Option UInt64} {cap : UInt64}
    (hview : view past = ⟨some r, c, none, none, none, [], []⟩) (hcap : 0 < cap → c = some cap) :
    Consuming h (chargeDay h r.dailyQuota cap) (fun past' a => match a with
      | .ok () => (view past').record = some r ∧ (view past').cap = c ∧
          (0 < r.dailyQuota → ∃ day, (view past').day = some day ∧ (view past').keyDays = [day]) ∧
          (0 < cap → ∃ day, (view past').day = some day ∧ (view past').poolDays = [day])
      | .error _ => past'.any failed = true ∨
          ((view past').keyDays = [] ∧ (view past').poolDays = [])) past := by
  refine Prog.meets_perform_bind.2 fun _ _ => ⟨congrArg View.keyCounter hview, ?_⟩
  rw [Prog.meets_bind]
  refine Prog.meets_perform_bind.2 fun day _ => ⟨congrArg View.day hview, ?_⟩
  generalize hpast₁ : (⟨.today, day⟩ :: ⟨.lock h, ()⟩ :: past : List Event) = past₁
  have hview₁ : view past₁ = ⟨some r, c, some day, none, none, [], []⟩ := by
    rw [← hpast₁]
    simp only [view, View.next, hview]
  have hheld₁ : 0 < depth (.key h) past₁ := by
    rw [← hpast₁]
    simp [depth]
  have hread : Consuming h
      (if r.dailyQuota > 0 then readCounter (.key h) day else return .ok 0)
      (fun past' a => match a with
        | .ok cur => (∃ n, view past' = ⟨some r, c, some day, n, none, [], []⟩ ∧
            (0 < r.dailyQuota → n = some cur)) ∧ 0 < depth (.key h) past'
        | .error _ => past'.any failed = true) past₁ := by
    split
    · rename_i hquota
      refine (readCounter_consuming ⟨Or.inl rfl, hheld₁, by rw [hview₁], by rw [hview₁]; rfl,
        r.dailyQuota, by rw [hview₁]; rfl, hquota⟩ (by rw [hview₁]; rfl)).mono fun past₂ a ha => ?_
      cases a with
      | error e => exact ha
      | ok cur =>
        obtain ⟨n, rfl, rfl⟩ := ha
        refine ⟨⟨some (n.getD 0), ?_, fun _ => rfl⟩, by simpa [depth] using hheld₁⟩
        simp only [view, View.next, hview₁]
    · rename_i hquota
      exact ⟨⟨none, hview₁, fun hpos => absurd hpos hquota⟩, hheld₁⟩
  refine Prog.Meets.bind hread fun past₂ a ha => ?_
  cases a with
  | error e => exact Prog.meets_perform_bind.2 fun _ _ => ⟨trivial, Or.inl ha⟩
  | ok cur =>
    obtain ⟨⟨n, hview₂, hn⟩, hheld₂⟩ := ha
    simp only
    split
    · refine Prog.meets_perform_bind.2 fun secs _ => ⟨trivial, ?_⟩
      refine Prog.meets_perform_bind.2 fun _ _ => ⟨trivial, Or.inr ?_⟩
      simp [view, View.next, hview₂]
    · rename_i hlow
      have hdraw : Consuming h (if cap > 0 then drawPool day cap else return .ok ())
          (fun past' a => match a with
            | .ok () => (∃ p days, view past' = ⟨some r, c, some day, n, p, [], days⟩ ∧
                (0 < cap → days = [day])) ∧ 0 < depth (.key h) past'
            | .error _ => past'.any failed = true ∨
                ((view past').keyDays = [] ∧ (view past').poolDays = [])) past₂ := by
        split
        · rename_i hpool
          refine (drawPool_consuming hview₂ (hcap hpool) hpool rfl rfl rfl rfl).mono
            fun past₃ a ha => ?_
          cases a with
          | error e => exact ha
          | ok u =>
            obtain ⟨⟨p, hview₃⟩, hdepth⟩ := ha
            exact ⟨⟨p, [day], hview₃, fun _ => rfl⟩, (hdepth h).symm ▸ hheld₂⟩
        · rename_i hpool
          exact ⟨⟨none, [], hview₂, fun hpos => absurd hpos hpool⟩, hheld₂⟩
      refine Prog.Meets.bind hdraw fun past₃ a ha => ?_
      cases a with
      | error e =>
        exact Prog.meets_perform_bind.2 fun _ _ => ⟨trivial, ha⟩
      | ok u =>
        obtain ⟨⟨p, days, hview₃, hdays⟩, hheld₃⟩ := ha
        simp only
        split
        · rename_i hquota
          refine (writeCounter_consuming r.dailyQuota ⟨Or.inl rfl, hheld₃,
            by rw [hview₃], by rw [hview₃]; rfl, r.dailyQuota, by rw [hview₃]; rfl, hquota⟩
            (by rw [hview₃]; exact hn hquota) (by rw [hview₃]; rfl)
            (UInt64.not_le.1 fun hge => hlow ⟨hquota, hge⟩)).mono fun past₄ w hw => ?_
          cases w with
          | error e => exact Prog.meets_perform_bind.2 fun _ _ => ⟨trivial, Or.inl hw⟩
          | ok u =>
            subst hw
            refine Prog.meets_perform_bind.2 fun _ _ => ⟨trivial, ?_⟩
            simpa [view, View.next, hview₃] using hdays
        · rename_i hquota
          refine Prog.meets_perform_bind.2 fun _ _ => ⟨trivial, ?_⟩
          simpa [view, View.next, hview₃, hquota] using hdays

theorem passesRate_consuming {r : KeyRecord} {v : View} (hview : view past = v)
    (hrecord : v.record = some r) :
    Consuming h (passesRate h r.quotaRps) (fun past' _ => view past' = v) past := by
  unfold passesRate
  split
  · rename_i hpos
    refine Prog.meets_perform_bind.2 fun now _ => ⟨trivial, ?_⟩
    refine Prog.meets_perform.2 fun passed _ => ⟨?_, hview⟩
    exact ⟨rfl, List.mem_cons_self, hpos, r, (congrArg View.record hview).trans hrecord, rfl⟩
  · exact hview

theorem poolCap_consuming {r : KeyRecord}
    (hview : view past = ⟨some r, none, none, none, none, [], []⟩) :
    Consuming h (poolCap r.label) (fun past' cap =>
      ∃ c, view past' = ⟨some r, c, none, none, none, [], []⟩ ∧ (0 < cap → c = some cap) ∧
        (isMemberLabel r.label = true → c = some cap)) past := by
  unfold poolCap
  split
  · rename_i hmember
    refine Prog.meets_perform.2 fun cap _ => ⟨⟨congrArg View.cap hview, r, ?_, hmember⟩, ?_⟩
    · exact congrArg View.record hview
    · refine ⟨some cap, ?_, fun _ => rfl, fun _ => rfl⟩
      simp only [view, View.next, hview]
  · rename_i hmember
    exact ⟨none, hview, fun hpos => absurd hpos (by decide), fun h => absurd h hmember⟩

theorem consumed_error {e : ConsumeError} (hview : (view past).keyDays = [] ∧
    (view past).poolDays = []) : Consumed h past (.error e) :=
  ⟨fun _ hok => (by cases hok), fun _ _ => Or.inr hview⟩

theorem tryConsume_consuming {hashKeyId : String → String} (keyId : String) :
    Consuming (hashKeyId keyId) (tryConsume hashKeyId keyId) (Consumed (hashKeyId keyId)) [] := by
  refine Prog.meets_perform_bind.2 fun found _ => ⟨⟨rfl, rfl⟩, ?_⟩
  match found with
  | .error e => exact ⟨fun _ hok => (by cases hok), fun _ _ => Or.inl rfl⟩
  | .ok none => exact consumed_error ⟨rfl, rfl⟩
  | .ok (some r) =>
    simp only
    split
    · exact consumed_error ⟨rfl, rfl⟩
    · refine Prog.Meets.bind (passesRate_consuming rfl rfl) fun past₁ passed hview₁ => ?_
      split
      · refine Prog.Meets.bind (poolCap_consuming hview₁) fun past₂ cap hcap => ?_
        obtain ⟨c, hview₂, hpos, hmember⟩ := hcap
        split
        · refine Prog.Meets.bind (chargeDay_consuming hview₂ hpos) fun past₃ charged hcharged => ?_
          cases charged with
          | error e => exact ⟨fun _ hok => (by cases hok), fun _ _ => hcharged⟩
          | ok u =>
            obtain ⟨hrecord, hcap, hkey, hpool⟩ := hcharged
            refine ⟨fun key hok => ?_, fun _ herr => by cases herr⟩
            cases hok
            refine ⟨r, hrecord, rfl, hkey, fun hm => ⟨cap, hcap.trans (hmember hm), hpool⟩⟩
        · rename_i hnone
          refine ⟨fun key hok => ?_, fun _ herr => by cases herr⟩
          cases hok
          refine ⟨r, by rw [hview₂], rfl, fun hq => absurd (Or.inl hq) hnone, fun hm => ?_⟩
          refine ⟨cap, by rw [hview₂, hmember hm], fun hp => absurd (Or.inr hp) hnone⟩
      · refine consumed_error ?_
        rw [hview₁]
        exact ⟨rfl, rfl⟩

def ProxyMethod.Duty (hashKeyId : String → String) (m : ProxyMethod) (past : List Event)
    (e : Event) : Prop :=
  match m with
  | .tryConsume keyId => ConsumeDuty (hashKeyId keyId) past e
  | .setMemberPoolDaily cap => e.1 = .setMemberPoolDaily cap
  | _ => True

def ProxyMethod.Returned (hashKeyId : String → String) :
    (m : ProxyMethod) → List Event → m.Ans → Prop
  | .tryConsume keyId, past, a => Consumed (hashKeyId keyId) past a
  | _, _, _ => True

theorem proxy_meets {hashKeyId : String → String} (m : ProxyMethod) :
    (m.prog hashKeyId).Meets AnyEvent (m.Duty hashKeyId) (m.Returned hashKeyId) [] := by
  cases m with
  | tryConsume keyId => exact tryConsume_consuming keyId
  | setMemberPoolDaily cap => exact Prog.meets_perform.2 fun _ _ => ⟨rfl, trivial⟩
  | _ => exact Prog.meets_true _ _

/-- The locks of every call, and what the consumptions do. -/
def consumeContract (hashKeyId : String → String) : System.Contract (proxyCalls hashKeyId) where
  rely := AnyEvent
  guar := fun m past e => Guarded past e ∧ m.Duty hashKeyId past e
  post := fun m past r => ∃ a, r = ⟨m, a⟩ ∧ m.Returned hashKeyId past a
  meets := fun m => ((proxy_balanced m []).and (proxy_meets m)).bind
    fun _ a hret => ⟨a, rfl, hret.2⟩

end Promise

section Runs
variable {hashKeyId : String → String}

variable (hashKeyId) in
/-- The runs of the proxy-key calls on a store opened with the rows. -/
abbrev ProxyRun (rows₀ : Rows)
    (ok : (proxyCalls hashKeyId).State → (proxyCalls hashKeyId).Action → Prop) :=
  System.Reach (proxyCalls hashKeyId) ok ((proxyCalls hashKeyId).init (Shared.opened rows₀))

abbrev proxyRows (s : (proxyCalls hashKeyId).State) : Rows := s.shared.store.rows

def ProxyMethod.isConsumer : ProxyMethod → Bool
  | .tryConsume _ | .setMemberPoolDaily _ => true
  | _ => false

/-- Only consumptions and changes of the pool's cap are called, and nothing written is lost. -/
def ConsumerStep (s : (proxyCalls hashKeyId).State) : (proxyCalls hashKeyId).Action → Prop
  | .start m => m.isConsumer = true
  | .world (.restart mask) => keep mask (proxyRows s).pending = (proxyRows s).pending
  | _ => True

variable {rows₀ : Rows} {s : (proxyCalls hashKeyId).State}
variable {ok : (proxyCalls hashKeyId).State → (proxyCalls hashKeyId).Action → Prop}

theorem consume_served (ok : (proxyCalls hashKeyId).State → (proxyCalls hashKeyId).Action → Prop) :
    (consumeContract hashKeyId).Served ok :=
  fun _ _ _ _ _ _ _ _ => trivial

theorem proxyDuty_of_task (hr : ProxyRun hashKeyId rows₀ ok s) {t : Nat} {m : ProxyMethod} {o : Op}
    {k : o.Ans → M ((m : ProxyMethod) × m.Ans)} (htask : s.tasks[t]? = some ⟨m, some (.op o k)⟩)
    (a : o.Ans) : Guarded (System.trace s.log t) ⟨o, a⟩ ∧
      m.Duty hashKeyId (System.trace s.log t) ⟨o, a⟩ :=
  (Prog.meets_op.1 (hr.meets (consumeContract hashKeyId) (consume_served ok) htask) a trivial).1

theorem proxyHeld_of_run (hr : ProxyRun hashKeyId rows₀ ok s) : Held s :=
  held_of_run (consumeContract hashKeyId) (fun _ _ _ h => h.1) (consume_served ok) hr

theorem get_crash_of_kept {rows : Rows} {mask : List Bool} (hkept : keep mask rows.pending = rows.pending)
    (k : RowKey) : (rows.crash mask).get k = rows.get k := by
  rw [DurableStore.get_crash, hkept, DurableStore.get_eq]

/-- A consumer writes counters only. -/
theorem row_of_consumer {m : ProxyMethod} {past : List Event} {e : Event} {sh sh' : Shared}
    {t : Nat} {k : RowKey} (hcons : m.isConsumer = true) (hduty : m.Duty hashKeyId past e)
    (hacc : Accessed hashKeyId sh t e sh') (hk : ∀ owner day, k ≠ .quota owner day) :
    sh'.store.rows.get k = sh.store.rows.get k := by
  cases m with
  | tryConsume keyId =>
    cases hacc with
    | put row =>
      obtain ⟨key, v⟩ := row
      cases key with
      | quota owner day => exact DurableStore.get_put_ne _ (hk owner day)
      | _ => exact hduty.elim
    | putSynced row => exact hduty.elim
    | writeBatch group => exact hduty.elim
    | _ => rfl
  | setMemberPoolDaily cap =>
    cases hacc <;> first | rfl | cases hduty
  | _ => cases hcons

structure ConsumerInv (rows₀ : Rows) (s : (proxyCalls hashKeyId).State) : Prop where
  jobs : ∀ t m, s.job t = some m → m.isConsumer = true
  records : ∀ h, (proxyRows s).get (.record h) = rows₀.get (.record h)
  seen : ∀ t keyId r, s.job t = some (.tryConsume keyId) →
    (view (System.trace s.log t)).record = some r →
      rows₀.get (.record (hashKeyId keyId)) = some r

theorem record_next {v : View} {e : Event} {r : KeyRecord} (h : (v.next e).record = some r) :
    v.record = some r ∨ ∃ h, e = ⟨.get (.record h), .ok (some r)⟩ := by
  unfold View.next at h
  split at h <;> first | exact Or.inl h | skip
  cases h
  exact Or.inr ⟨_, rfl⟩

theorem consumerInv_of_run (hok : ∀ s a, ok s a → ConsumerStep s a)
    (hrun : ProxyRun hashKeyId rows₀ ok s) : ConsumerInv rows₀ s := by
  refine System.Reach.invariant (ConsumerInv rows₀) hrun ?_ ?_
  · refine ⟨fun t m hjob => ?_, fun h => rfl, fun t keyId r hjob => ?_⟩ <;>
      simp [System.State.job, System.init] at hjob
  intro s s' act hr hI hact hT
  have hcons := hok s act hact
  have hjobs : ∀ u m, s'.job u = some m → s.job u = some m ∨ act = .start m := by
    intro u m hj
    rcases System.job_cases hT hj with hold | ⟨-, hstart | ⟨_, ho⟩⟩
    · exact Or.inl hold
    · exact Or.inr hstart
    · cases ho
  have hnew : ∀ u m, s'.job u = some m → m.isConsumer = true := by
    intro u m hj
    rcases hjobs u m hj with hold | rfl
    · exact hI.jobs u m hold
    · exact hcons
  have hseen : s'.log = s.log → ∀ u keyId r, s'.job u = some (.tryConsume keyId) →
      (view (System.trace s'.log u)).record = some r →
        rows₀.get (.record (hashKeyId keyId)) = some r := by
    intro hlog u keyId r hj hrec
    rw [hlog] at hrec
    rcases System.job_cases hT hj with hold | ⟨hge, _⟩
    · exact hI.seen u keyId r hold hrec
    · rw [hr.trace_eq_nil hge] at hrec
      cases hrec
  cases hT with
  | start m sh hstart =>
    cases hstart
    exact ⟨hnew, hI.records, hseen rfl⟩
  | exec t c m o k a sh htask hhandle =>
    have hacc := handle_cases hhandle
    have hduty := (proxyDuty_of_task hr htask a).2
    refine ⟨hnew, fun h => ?_, fun u keyId r hj hrec => ?_⟩
    · rw [proxyRows, advance_store, row_of_consumer (hI.jobs t m (System.job_of_task htask)) hduty
        hacc (fun _ _ hk => by cases hk)]
      exact hI.records h
    · have hold : s.job u = some (.tryConsume keyId) :=
        (hjobs u _ hj).resolve_right fun h => by cases h
      by_cases hut : u = t
      · subst hut
        rw [System.trace_advance_self] at hrec
        rcases record_next hrec with hbefore | ⟨h, he⟩
        · exact hI.seen u keyId r hold hbefore
        · rw [System.job_of_task htask] at hold
          cases hold
          cases he
          obtain ⟨rfl, _⟩ := hduty
          rw [← hI.records]
          exact get_of_accessed hacc
      · rw [System.trace_advance_ne s hut] at hrec
        exact hI.seen u keyId r hold hrec
  | drop t m o k htask => exact ⟨hnew, hI.records, hseen rfl⟩
  | world w sh hworld =>
    obtain ⟨mask⟩ := w
    cases hworld
    exact ⟨hnew, fun h => (get_crash_of_kept hcons _).trans (hI.records h), hseen rfl⟩

end Runs
end Gateway.KeyStore
