import CitrateGateway.Gateway.ProxyKeys

/-!
# What a failed request of a proxy key leaves behind

One call of `try_consume` on an idle store, whose accesses the environment may refuse one by one.
The pool's counter is written before the counter of the key, and nothing takes the first write
back when the second one fails.
-/

namespace Gateway.KeyStore
set_option autoImplicit false
open Words Effects Durable

section Alone

/-- What the environment decides of a call: the accesses that it refuses, and the clock. -/
structure Answers where
  get : RowKey → Option ValErr
  put : Row → Option ValErr
  now : UInt64
  day : String
  untilNextDay : UInt64

def Answers.input (w : Answers) : Op → Input
  | .get k => (w.get k).elim .ok .fail
  | .put row => (w.put row).elim .ok .fail
  | .nowSecs => .secs w.now
  | .today => .day w.day
  | .secondsUntilNextUtcDay => .secs w.untilNextDay
  | _ => .ok

variable (hashKeyId : String → String) (w : Answers)

/-- A call with nothing in between, on the whole of the store. -/
def runAlone {α : Type} : M α → Shared → Option (α × Shared)
  | .ret a, sh => some (a, sh)
  | .op o k, sh => (handle hashKeyId sh 0 o (w.input o)).bind fun r => runAlone (k r.1) r.2

/-- A store that no call is using. -/
def Shared.idle (store : Store) (rate : String → Option RateWindow) (cap : UInt64) : Shared :=
  ⟨store, fun _ => none, none, rate, cap⟩

/-- A counter as the call reads it. -/
def Answers.counter (rows : Rows) (owner : QuotaOwner) : Except ConsumeError UInt64 :=
  match w.get (.quota owner w.day) with
  | some e => .error (.ofValErr e)
  | none => .ok ((rows.get (.quota owner w.day)).getD 0)

variable {hashKeyId w} {α β : Type} {sh : Shared}

theorem runAlone_bind (p : M β) (f : β → M α) :
    runAlone hashKeyId w (p >>= f) sh =
      (runAlone hashKeyId w p sh).bind fun r => runAlone hashKeyId w (f r.1) r.2 := by
  induction p generalizing sh with
  | ret a => rfl
  | op o k ih =>
    rw [Prog.op_bind, runAlone, runAlone, Option.bind_assoc]
    exact congrArg _ (funext fun r => ih r.1)

theorem runAlone_pure (a : α) : runAlone hashKeyId w (pure a : M α) sh = some (a, sh) := rfl

theorem runAlone_get (k : RowKey) : runAlone hashKeyId w (get k) sh =
    some ((w.get k).elim (.ok (sh.store.rows.get k)) .error, sh) := by
  rw [get, Prog.perform, runAlone, Answers.input]
  cases w.get k with
  | none => rfl
  | some e => rfl

theorem runAlone_put (row : Row) : runAlone hashKeyId w (put row) sh =
    some ((w.put row).elim (.ok (), { sh with store.rows := sh.store.rows.put row })
      fun e => (.error e, sh)) := by
  rw [put, Prog.perform, runAlone, Answers.input]
  cases w.put row with
  | none => rfl
  | some e => rfl

theorem runAlone_readCounter (owner : QuotaOwner) :
    runAlone hashKeyId w (readCounter owner w.day) sh = some (w.counter sh.store.rows owner, sh) := by
  rw [readCounter, runAlone_bind, runAlone_get, Option.bind_some, Answers.counter]
  cases w.get (.quota owner w.day) with
  | some e => rfl
  | none =>
    cases hrow : sh.store.rows.get (.quota owner w.day) with
    | none => simp [runAlone_pure]
    | some n => simp [runAlone_pure]

/-- The same store with other rows. -/
def Shared.withRows (sh : Shared) (rows : Rows) : Shared := { sh with store.rows := rows }

/-- The rows once a counter was written, or the write was refused. -/
def Answers.written (rows : Rows) (owner : QuotaOwner) (n : UInt64) :
    Except ConsumeError Unit × Rows :=
  match w.put ⟨.quota owner w.day, n⟩ with
  | some e => (.error (.ofValErr e), rows)
  | none => (.ok (), rows.put ⟨.quota owner w.day, n⟩)

/-- A call that leaves this answer and these rows behind, and the rest of the store as it was. -/
def Leaves (hashKeyId : String → String) (w : Answers) (p : M α) (sh : Shared)
    (r : α × Rows) : Prop :=
  runAlone hashKeyId w p sh = some (r.1, sh.withRows r.2)

theorem Leaves.pure (a : α) : Leaves hashKeyId w (pure a : M α) sh (a, sh.store.rows) := rfl

theorem Leaves.bind {p : M β} {f : β → M α} {r : β × Rows} {r' : α × Rows}
    (hp : Leaves hashKeyId w p sh r) (hf : Leaves hashKeyId w (f r.1) (sh.withRows r.2) r') :
    Leaves hashKeyId w (p >>= f) sh r' := by
  rw [Leaves, runAlone_bind, hp, Option.bind_some, hf]
  rfl

theorem leaves_writeCounter (owner : QuotaOwner) (n : UInt64) :
    Leaves hashKeyId w (writeCounter owner w.day n) sh (w.written sh.store.rows owner n) := by
  rw [Leaves, writeCounter, runAlone_bind, runAlone_put, Option.bind_some, Answers.written]
  cases w.put ⟨.quota owner w.day, n⟩ with
  | none => rfl
  | some e => rfl

theorem leaves_readCounter (owner : QuotaOwner) :
    Leaves hashKeyId w (readCounter owner w.day) sh
      (w.counter sh.store.rows owner, sh.store.rows) :=
  runAlone_readCounter owner

theorem leaves_dailyQuotaExceeded :
    Leaves hashKeyId w (dailyQuotaExceeded : M (Except ConsumeError α)) sh
      (.error (.dailyQuotaExceeded w.untilNextDay), sh.store.rows) := rfl

theorem Leaves.withLock {h : String} {body : M α} {r : α × Rows} (hfree : sh.holder h = none)
    (hbody : ∀ holder, Leaves hashKeyId w body { sh with holder := holder } r) :
    Leaves hashKeyId w (withLock h body) sh r := by
  have hlock : runAlone hashKeyId w (lock h) sh =
      some ((), { sh with holder := Function.update sh.holder h (some 0) }) := by
    show (if sh.holder h = none then _ else none : Option _).bind _ = _
    rw [if_pos hfree]
    rfl
  have hback : Function.update (Function.update sh.holder h (some 0)) h none = sh.holder := by
    rw [Function.update_idem, ← hfree, Function.update_eq_self]
  rw [Leaves, KeyStore.withLock, runAlone_bind, hlock, Option.bind_some, runAlone_bind, hbody,
    Option.bind_some]
  show some (r.1, { sh.withRows r.2 with
    holder := Function.update (Function.update sh.holder h (some 0)) h none }) = _
  rw [hback]
  rfl

theorem Leaves.withPool {body : M α} {r : α × Rows} (hfree : sh.poolHolder = none)
    (hbody : ∀ poolHolder, Leaves hashKeyId w body { sh with poolHolder := poolHolder } r) :
    Leaves hashKeyId w (withPool body) sh r := by
  have hlock : runAlone hashKeyId w lockPool sh = some ((), { sh with poolHolder := some 0 }) := by
    show (if sh.poolHolder = none then _ else none : Option _).bind _ = _
    rw [if_pos hfree]
    rfl
  rw [Leaves, KeyStore.withPool, runAlone_bind, hlock, Option.bind_some, runAlone_bind, hbody,
    Option.bind_some]
  show some (r.1, { sh.withRows r.2 with poolHolder := none }) = _
  rw [← hfree]
  rfl

end Alone

section Charge
variable {hashKeyId : String → String} {w : Answers} {sh : Shared}

/-- What drawing on the pool comes to. -/
def Answers.drawn (w : Answers) (rows : Rows) (cap : UInt64) : Except ConsumeError Unit × Rows :=
  match w.counter rows .memberPool with
  | .error e => (.error e, rows)
  | .ok used =>
    if used ≥ cap then (.error (.dailyQuotaExceeded w.untilNextDay), rows)
    else w.written rows .memberPool (used + 1)

theorem leaves_drawPool (hfree : sh.poolHolder = none) (cap : UInt64) :
    Leaves hashKeyId w (drawPool w.day cap) sh (w.drawn sh.store.rows cap) := by
  refine Leaves.withPool hfree fun poolHolder => (leaves_readCounter .memberPool).bind ?_
  rw [Answers.drawn]
  cases w.counter sh.store.rows .memberPool with
  | error e => exact .pure _
  | ok used =>
    simp only
    split
    · exact leaves_dailyQuotaExceeded
    · exact leaves_writeCounter .memberPool (used + 1)

/-- What charging a key for a day comes to. -/
def Answers.charged (w : Answers) (rows : Rows) (h : String) (dailyQuota cap : UInt64) :
    Except ConsumeError Unit × Rows :=
  match if dailyQuota > 0 then w.counter rows (.key h) else .ok 0 with
  | .error e => (.error e, rows)
  | .ok cur =>
    if dailyQuota > 0 ∧ cur ≥ dailyQuota then (.error (.dailyQuotaExceeded w.untilNextDay), rows)
    else
      match if cap > 0 then w.drawn rows cap else (.ok (), rows) with
      | (.error e, rows') => (.error e, rows')
      | (.ok (), rows') =>
        if dailyQuota > 0 then w.written rows' (.key h) (cur + 1) else (.ok (), rows')

theorem leaves_chargeDay {h : String} (hfree : sh.holder h = none)
    (hpool : sh.poolHolder = none) (dailyQuota cap : UInt64) :
    Leaves hashKeyId w (chargeDay h dailyQuota cap) sh
      (w.charged sh.store.rows h dailyQuota cap) := by
  refine Leaves.withLock hfree fun holder => ?_
  have hcur : Leaves hashKeyId w (if dailyQuota > 0 then readCounter (.key h) w.day
      else return .ok 0) { sh with holder := holder }
      (if dailyQuota > 0 then w.counter sh.store.rows (.key h) else .ok 0, sh.store.rows) := by
    split
    · exact leaves_readCounter (.key h)
    · exact .pure _
  have hdrawn : Leaves hashKeyId w (if cap > 0 then drawPool w.day cap else return .ok ())
      { sh with holder := holder }
      (if cap > 0 then w.drawn sh.store.rows cap else (.ok (), sh.store.rows)) := by
    split
    · refine leaves_drawPool ?_ cap
      exact hpool
    · exact .pure _
  refine Leaves.bind (r := (w.day, sh.store.rows)) rfl (hcur.bind ?_)
  rw [Answers.charged]
  cases (if dailyQuota > 0 then w.counter sh.store.rows (.key h) else .ok 0) with
  | error e => exact .pure _
  | ok cur =>
    simp only
    split
    · exact leaves_dailyQuotaExceeded
    · refine hdrawn.bind ?_
      rcases (if cap > 0 then w.drawn sh.store.rows cap else (.ok (), sh.store.rows)) with
        ⟨e | u, rows'⟩
      · exact .pure _
      · simp only
        split
        · exact leaves_writeCounter (.key h) (cur + 1)
        · exact .pure _

/-- Whether a live key passes its limit of requests in a second. -/
def Answers.passes (w : Answers) (sh : Shared) (h : String) (quotaRps : UInt32) : Bool :=
  quotaRps = 0 || (RateWindow.check (sh.rate h) w.now quotaRps).1

/-- The cap that the pool sets a key with this label. -/
def capOf (sh : Shared) (label : String) : UInt64 :=
  if isMemberLabel label then sh.memberPoolDaily else 0

/-- What one request of a proxy key comes to. -/
def Answers.consumed (w : Answers) (sh : Shared) (h : String) :
    Except ConsumeError ConsumedKey × Rows :=
  let rows := sh.store.rows
  match w.get (.record h), rows.get (.record h) with
  | some e, _ => (.error (.ofValErr e), rows)
  | none, none => (.error .unknown, rows)
  | none, some record =>
    if record.revoked then (.error .revoked, rows)
    else if !w.passes sh h record.quotaRps then (.error (.rateLimited 1), rows)
    else if record.dailyQuota > 0 ∨ capOf sh record.label > 0 then
      match w.charged rows h record.dailyQuota (capOf sh record.label) with
      | (.error e, rows') => (.error e, rows')
      | (.ok (), rows') => (.ok ⟨h, record.label⟩, rows')
    else (.ok ⟨h, record.label⟩, rows)

theorem runAlone_passesRate (h : String) (quotaRps : UInt32) :
    ∃ rate, runAlone hashKeyId w (passesRate h quotaRps) sh =
      some (w.passes sh h quotaRps, { sh with rate := rate }) := by
  rw [passesRate, Answers.passes]
  by_cases hquota : quotaRps > 0
  · have hne : quotaRps ≠ 0 := UInt32.pos_iff_ne_zero.1 hquota
    rw [if_pos hquota, decide_eq_false hne, Bool.false_or]
    exact ⟨_, rfl⟩
  · have hzero : quotaRps = 0 := by
      by_contra hne
      exact hquota (UInt32.pos_iff_ne_zero.2 hne)
    rw [if_neg hquota, decide_eq_true hzero, Bool.true_or]
    exact ⟨sh.rate, rfl⟩

theorem runAlone_poolCap (label : String) :
    runAlone hashKeyId w (poolCap label) sh = some (capOf sh label, sh) := by
  rw [poolCap, capOf]
  split
  · rfl
  · rfl

theorem runAlone_tryConsume (keyId : String) (hfree : sh.holder (hashKeyId keyId) = none)
    (hpool : sh.poolHolder = none) :
    ∃ sh', runAlone hashKeyId w (tryConsume hashKeyId keyId) sh =
      some ((w.consumed sh (hashKeyId keyId)).1, sh') ∧
      sh'.store.rows = (w.consumed sh (hashKeyId keyId)).2 := by
  rw [tryConsume, runAlone_bind, runAlone_get, Option.bind_some, Answers.consumed]
  cases w.get (.record (hashKeyId keyId)) with
  | some e => exact ⟨sh, rfl, rfl⟩
  | none =>
    cases sh.store.rows.get (.record (hashKeyId keyId)) with
    | none => exact ⟨sh, rfl, rfl⟩
    | some record =>
      simp only [Option.elim_none]
      split
      · exact ⟨sh, rfl, rfl⟩
      · obtain ⟨rate, hrate⟩ : ∃ rate, runAlone hashKeyId w
            (passesRate (hashKeyId keyId) record.quotaRps) sh =
            some (w.passes sh (hashKeyId keyId) record.quotaRps, { sh with rate := rate }) :=
          runAlone_passesRate _ _
        rw [runAlone_bind, hrate, Option.bind_some]
        cases w.passes sh (hashKeyId keyId) record.quotaRps with
        | false => exact ⟨_, rfl, rfl⟩
        | true =>
          simp only [if_true, Bool.not_true, Bool.false_eq_true, if_false]
          rw [runAlone_bind, runAlone_poolCap, Option.bind_some]
          have hcap : capOf { sh with rate := rate } record.label = capOf sh record.label := rfl
          rw [hcap]
          split
          · have hcharge : Leaves hashKeyId w (chargeDay (hashKeyId keyId) record.dailyQuota
                (capOf sh record.label)) { sh with rate := rate }
                (w.charged sh.store.rows (hashKeyId keyId) record.dailyQuota
                  (capOf sh record.label)) := by
              refine leaves_chargeDay ?_ ?_ _ _
              · exact hfree
              · exact hpool
            rw [runAlone_bind, hcharge, Option.bind_some]
            rcases w.charged sh.store.rows (hashKeyId keyId) record.dailyQuota
              (capOf sh record.label) with ⟨e | u, rows'⟩
            · exact ⟨_, rfl, rfl⟩
            · exact ⟨_, rfl, rfl⟩
          · exact ⟨_, rfl, rfl⟩

/-- The pool is charged and the key is not: both limits leave room, the pool's counter is
written, and the write of the key's own counter is refused. -/
structure HalfCharged (w : Answers) (rows : Rows) (h : String) (dailyQuota cap : UInt64) : Prop where
  quota : 0 < dailyQuota
  capped : 0 < cap
  half : ∃ cur used e, w.counter rows (.key h) = .ok cur ∧ cur < dailyQuota ∧
    w.counter rows .memberPool = .ok used ∧ used < cap ∧
    w.put ⟨.quota .memberPool w.day, used + 1⟩ = none ∧
    w.put ⟨.quota (.key h) w.day, cur + 1⟩ = some e

/-- A live member key within its limit of requests in a second comes to be half charged. -/
def ConsumesHalf (w : Answers) (sh : Shared) (h : String) : Prop :=
  ∃ record, w.get (.record h) = none ∧ sh.store.rows.get (.record h) = some record ∧
    record.revoked = false ∧ w.passes sh h record.quotaRps = true ∧
    HalfCharged w sh.store.rows h record.dailyQuota (capOf sh record.label)

/-- The counters of the key and of the pool. -/
def Uncharged (rows rows' : Rows) (h : String) : Prop :=
  ∀ day, rows'.get (.quota (.key h) day) = rows.get (.quota (.key h) day) ∧
    rows'.get (.quota .memberPool day) = rows.get (.quota .memberPool day)

theorem written_error {rows rows' : Rows} {owner : QuotaOwner} {n : UInt64} {e : ConsumeError}
    (h : w.written rows owner n = (.error e, rows')) : rows' = rows := by
  unfold Answers.written at h
  split at h
  · cases h
    rfl
  · cases h

theorem drawn_error {rows rows' : Rows} {cap : UInt64} {e : ConsumeError}
    (h : w.drawn rows cap = (.error e, rows')) : rows' = rows := by
  unfold Answers.drawn at h
  split at h
  · cases h
    rfl
  · split at h
    · cases h
      rfl
    · exact written_error h

theorem drawn_ok {rows rows' : Rows} {cap : UInt64} (h : w.drawn rows cap = (.ok (), rows')) :
    ∃ used, w.counter rows .memberPool = .ok used ∧ used < cap ∧
      w.put ⟨.quota .memberPool w.day, used + 1⟩ = none ∧
      rows' = rows.put ⟨.quota .memberPool w.day, used + 1⟩ := by
  unfold Answers.drawn at h
  split at h
  · cases h
  · rename_i used hused
    split at h
    · cases h
    · rename_i hroom
      unfold Answers.written at h
      split at h
      · cases h
      · rename_i hput
        cases h
        exact ⟨used, hused, UInt64.not_le.1 hroom, hput, rfl⟩

/-- A charge that fails leaves the rows alone, unless it stops half-way. -/
theorem charged_error {rows rows' : Rows} {h : String} {dailyQuota cap : UInt64} {e : ConsumeError}
    (hcharged : w.charged rows h dailyQuota cap = (.error e, rows')) :
    rows' = rows ∨ HalfCharged w rows h dailyQuota cap := by
  unfold Answers.charged at hcharged
  split at hcharged
  · cases hcharged
    exact .inl rfl
  · rename_i cur hcur
    split at hcharged
    · cases hcharged
      exact .inl rfl
    · rename_i hroom
      split at hcharged
      · rename_i e' rows₁ hdrawn
        cases hcharged
        split at hdrawn
        · exact .inl (drawn_error hdrawn)
        · cases hdrawn
      · rename_i rows₁ hdrawn
        split at hcharged
        · rename_i hquota
          rw [if_pos hquota] at hcur
          have hrows := written_error hcharged
          split at hdrawn
          · rename_i hcap
            obtain ⟨used, hused, hbelow, hput, -⟩ := drawn_ok hdrawn
            unfold Answers.written at hcharged
            split at hcharged
            · rename_i e' hfail
              have hcur' : cur < dailyQuota := UInt64.not_le.1 fun hle => hroom ⟨hquota, hle⟩
              exact .inr ⟨hquota, hcap, cur, used, e', hcur, hcur', hused, hbelow, hput, hfail⟩
            · cases hcharged
          · cases hdrawn
            exact .inl hrows
        · cases hcharged

theorem HalfCharged.charged {rows : Rows} {h : String} {dailyQuota cap : UInt64}
    (hhalf : HalfCharged w rows h dailyQuota cap) :
    ∃ e used, w.charged rows h dailyQuota cap =
        (.error e, rows.put ⟨.quota .memberPool w.day, used + 1⟩) ∧
      w.counter rows .memberPool = .ok used ∧ used < cap := by
  obtain ⟨hquota, hcap, cur, used, e, hcur, hbelow, hused, hroom, hput, hfail⟩ := hhalf
  refine ⟨.ofValErr e, used, ?_, hused, hroom⟩
  have hnot : ¬ (dailyQuota > 0 ∧ cur ≥ dailyQuota) := fun hand =>
    absurd hbelow (UInt64.not_lt.2 hand.2)
  have hdrawn : w.drawn rows cap = (.ok (), rows.put ⟨.quota .memberPool w.day, used + 1⟩) := by
    simp only [Answers.drawn, hused, Answers.written, hput]
    rw [if_neg (UInt64.not_le.2 hroom)]
  simp only [Answers.charged, if_pos (show dailyQuota > 0 from hquota), hcur, if_neg hnot,
    if_pos (show cap > 0 from hcap), hdrawn, Answers.written, hfail]

/-- The counter that a charge of the pool leaves is not the one it found. -/
theorem counter_moved {rows : Rows} {used : UInt64} {cap : UInt64}
    (hused : w.counter rows .memberPool = .ok used) (hroom : used < cap) :
    (rows.put ⟨.quota .memberPool w.day, used + 1⟩).get (.quota .memberPool w.day) ≠
      rows.get (.quota .memberPool w.day) := by
  rw [DurableStore.get_put_self]
  intro heq
  have hlt : used.toNat < cap.toNat := hroom
  have hcap := cap.toNat_lt
  unfold Answers.counter at hused
  split at hused
  · cases hused
  · rw [← heq] at hused
    have hsame : used + 1 = used := Except.ok.inj hused
    have hnat := congrArg UInt64.toNat hsame
    rw [UInt64.toNat_add] at hnat
    have hone : (1 : UInt64).toNat = 1 := rfl
    omega

/-- A request that fails leaves the rows alone, unless it comes to be half charged. -/
theorem rows_of_consumed_error {sh : Shared} {h : String} {rows' : Rows} {e : ConsumeError}
    (hconsumed : w.consumed sh h = (.error e, rows')) :
    rows' = sh.store.rows ∨ ConsumesHalf w sh h := by
  simp only [Answers.consumed] at hconsumed
  split at hconsumed
  · cases hconsumed
    exact .inl rfl
  · cases hconsumed
    exact .inl rfl
  · rename_i record hget hrecord
    split at hconsumed
    · cases hconsumed
      exact .inl rfl
    · rename_i hlive
      split at hconsumed
      · cases hconsumed
        exact .inl rfl
      · rename_i hpasses
        split at hconsumed
        · split at hconsumed
          · rename_i hcharged
            cases hconsumed
            rcases charged_error hcharged with hrows | hhalf
            · exact .inl hrows
            · exact .inr ⟨record, hget, hrecord, Bool.eq_false_of_not_eq_true hlive,
                by simpa using hpasses, hhalf⟩
          · cases hconsumed
        · cases hconsumed

theorem ConsumesHalf.consumed {sh : Shared} {h : String} (hhalf : ConsumesHalf w sh h) :
    ∃ e used cap, w.consumed sh h =
        (.error e, sh.store.rows.put ⟨.quota .memberPool w.day, used + 1⟩) ∧
      w.counter sh.store.rows .memberPool = .ok used ∧ used < cap := by
  obtain ⟨record, hget, hrecord, hlive, hpasses, hhalf⟩ := hhalf
  obtain ⟨e, used, hcharged, hused, hroom⟩ := hhalf.charged
  refine ⟨e, used, _, ?_, hused, hroom⟩
  have hquota : record.dailyQuota > 0 ∨ capOf sh record.label > 0 := .inl hhalf.quota
  simp only [Answers.consumed, hget, hrecord, hlive, hpasses, if_pos hquota, hcharged,
    Bool.not_true, Bool.false_eq_true, if_false]

/-- A failed request charges nothing exactly when it does not come to be half charged. -/
theorem failed_consume_uncharged_iff (hashKeyId : String → String) (w : Answers) (store : Store)
    (rate : String → Option RateWindow) (cap : UInt64) (keyId : String) :
    (∀ e sh', runAlone hashKeyId w (tryConsume hashKeyId keyId) (Shared.idle store rate cap) =
        some (.error e, sh') → Uncharged store.rows sh'.store.rows (hashKeyId keyId)) ↔
      ¬ ConsumesHalf w (Shared.idle store rate cap) (hashKeyId keyId) := by
  obtain ⟨sh₁, hrun, hrows⟩ : ∃ sh', runAlone hashKeyId w (tryConsume hashKeyId keyId)
        (Shared.idle store rate cap) =
        some ((w.consumed (Shared.idle store rate cap) (hashKeyId keyId)).1, sh') ∧
      sh'.store.rows = (w.consumed (Shared.idle store rate cap) (hashKeyId keyId)).2 :=
    runAlone_tryConsume keyId rfl rfl
  constructor
  · intro huncharged hhalf
    obtain ⟨e, used, limit, hconsumed, hused, hroom⟩ := hhalf.consumed
    rw [hconsumed] at hrun hrows
    have hpool := (huncharged e sh₁ hrun w.day).2
    rw [hrows] at hpool
    exact counter_moved hused hroom hpool
  · intro hnot e sh' herror day
    rw [hrun] at herror
    have hpair := Prod.mk.inj (Option.some.inj herror)
    have hconsumed : w.consumed (Shared.idle store rate cap) (hashKeyId keyId) =
        (.error e, sh'.store.rows) := by
      rw [← hpair.1, ← hpair.2, hrows]
    rcases rows_of_consumed_error hconsumed with hsame | hhalf
    · rw [hsame]
      exact ⟨rfl, rfl⟩
    · exact absurd hhalf hnot

end Charge

section Sample

def memberRecord : KeyRecord := ⟨"member:a", 0, false, 0, 5⟩

/-- One live member key, with no counter yet. -/
def memberStore : Store := ⟨⟨[⟨.record "key", memberRecord⟩], []⟩, []⟩

/-- The disk is full when the key's own counter is written. -/
def fullDisk : Answers where
  get _ := none
  put row := if row.1 = .quota (.key "key") "20260101" then some (.db "No space left on device")
    else none
  now := 0
  day := "20260101"
  untilNextDay := 86400

theorem fullDisk_charges_pool : ∃ e sh',
    runAlone id fullDisk (tryConsume id "key") (Shared.idle memberStore (fun _ => none) 10) =
      some (.error e, sh') ∧ ¬ Uncharged memberStore.rows sh'.store.rows "key" := by
  refine ⟨_, _, rfl, fun huncharged => ?_⟩
  have hpool := (huncharged "20260101").2
  revert hpool
  decide +kernel

end Sample
end Gateway.KeyStore
