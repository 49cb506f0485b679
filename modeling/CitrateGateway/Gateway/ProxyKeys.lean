import CitrateGateway.Gateway.StoreAccess

/-!
# Proxy keys

Keys with a per-second limit and a daily quota. Member keys also draw on a pool that all of
them share, and an account's key is replaced by a rotation. The pool's lock is taken after the
lock of the key, never before.
-/

namespace Gateway
set_option autoImplicit false
open Words Effects Durable

inductive ConsumeError where
  | unknown
  | revoked
  | rateLimited (retryAfterSecs : UInt64)
  | dailyQuotaExceeded (retryAfterSecs : UInt64)
  | store (msg : String)
  | crypt (e : CryptError)
  deriving DecidableEq

def ConsumeError.ofValErr : ValErr → ConsumeError
  | .db msg => .store msg
  | .crypt e => .crypt e

structure ConsumedKey where
  hash : String
  label : String
  deriving DecidableEq

namespace KeyStore

def memberLabelPrefix : String := "member:"

def isMemberLabel (label : String) : Bool := memberLabelPrefix.toList.isPrefixOf label.toList

section Operations

def checkRate (hash : String) (now : UInt64) (quotaRps : UInt32) : M Bool :=
  .perform (E := StoreSig) (.checkRate hash now quotaRps)

def memberPoolDaily : M UInt64 := .perform (E := StoreSig) .memberPoolDaily

def setMemberPoolDaily (cap : UInt64) : M Unit :=
  .perform (E := StoreSig) (.setMemberPoolDaily cap)

def lockPool : M Unit := .perform (E := StoreSig) .lockPool

def unlockPool : M Unit := .perform (E := StoreSig) .unlockPool

def today : M String := .perform (E := StoreSig) .today

def secondsUntilNextUtcDay : M UInt64 := .perform (E := StoreSig) .secondsUntilNextUtcDay

def withPool {α : Type} (body : M α) : M α := do
  lockPool
  let a ← body
  unlockPool
  return a

end Operations

section Issuance
variable (hashKeyId : String → String)

def createKey (label : String) (quotaRps : UInt32) (dailyQuota : UInt64) :
    M (Except StoreError String) := do
  let uuid ← newUuid
  let id := "cgk_" ++ uuid
  let now ← nowSecs
  let rec₀ : KeyRecord := ⟨label, now, false, quotaRps, dailyQuota⟩
  match ← put ⟨.record (hashKeyId id), rec₀⟩ with
  | .error e => return .error (.ofValErr e)
  | .ok () => return .ok id

def memberKeyHash (subhash : String) : M (Except StoreError (Option String)) := do
  match ← get (.memberMap subhash) with
  | .error e => return .error (.ofValErr e)
  | .ok h => return .ok h

/-- The name of the lock of an account, the key of its mapping row. -/
def memberMapKey (subhash : String) : String := memberLabelPrefix ++ subhash

def retire (previous : Option String) : M (Except StoreError Unit) :=
  match previous with
  | none => return .ok ()
  | some old => do
    match ← revokeHash old with
    | .ok () => return .ok ()
    -- nothing left to revoke is fine
    | .error .unknown => return .ok ()
    | .error e => return .error e

def rotateMemberKey (subhash : String) (quotaRps : UInt32) (dailyQuota : UInt64) :
    M (Except StoreError String) :=
  withLock (memberMapKey subhash) do
    match ← memberKeyHash subhash with
    | .error e => return .error e
    | .ok previous =>
      match ← createKey hashKeyId (memberLabelPrefix ++ subhash) quotaRps dailyQuota with
      | .error e => return .error e
      | .ok id =>
        match ← retire previous with
        | .error e => return .error e
        | .ok () =>
          match ← putSynced ⟨.memberMap subhash, hashKeyId id⟩ with
          | .error e => return .error (.ofValErr e)
          | .ok () => return .ok id

end Issuance

section Consumption
variable (hashKeyId : String → String)

/-- An absent counter reads as 0. -/
def readCounter (owner : QuotaOwner) (day : String) : M (Except ConsumeError UInt64) := do
  match ← get (.quota owner day) with
  | .error e => return .error (.ofValErr e)
  | .ok none => return .ok 0
  | .ok (some n) => return .ok n

def writeCounter (owner : QuotaOwner) (day : String) (n : UInt64) :
    M (Except ConsumeError Unit) := do
  match ← put ⟨.quota owner day, n⟩ with
  | .error e => return .error (.ofValErr e)
  | .ok () => return .ok ()

def dailyQuotaExceeded {α : Type} : M (Except ConsumeError α) := do
  let secs ← secondsUntilNextUtcDay
  return .error (.dailyQuotaExceeded secs)

def passesRate (h : String) (quotaRps : UInt32) : M Bool := do
  if quotaRps > 0 then
    let now ← nowSecs
    checkRate h now quotaRps
  else return true

def poolCap (label : String) : M UInt64 :=
  if isMemberLabel label then memberPoolDaily else return 0

def drawPool (day : String) (cap : UInt64) : M (Except ConsumeError Unit) :=
  withPool do
    match ← readCounter .memberPool day with
    | .error e => return .error e
    | .ok used =>
      if used ≥ cap then dailyQuotaExceeded
      else writeCounter .memberPool day (used + 1)

def chargeDay (h : String) (dailyQuota cap : UInt64) : M (Except ConsumeError Unit) :=
  withLock h do
    let day ← today
    match ← (if dailyQuota > 0 then readCounter (.key h) day else return .ok 0) with
    | .error e => return .error e
    | .ok cur =>
      if dailyQuota > 0 ∧ cur ≥ dailyQuota then dailyQuotaExceeded
      else
        match ← (if cap > 0 then drawPool day cap else return .ok ()) with
        | .error e => return .error e
        | .ok () =>
          if dailyQuota > 0 then writeCounter (.key h) day (cur + 1)
          else return .ok ()

def tryConsume (keyId : String) : M (Except ConsumeError ConsumedKey) := do
  let h := hashKeyId keyId
  match ← get (.record h) with
  | .error e => return .error (.ofValErr e)
  | .ok none => return .error .unknown
  | .ok (some record) =>
    if record.revoked then return .error .revoked
    else if ← passesRate h record.quotaRps then
      let cap ← poolCap record.label
      if record.dailyQuota > 0 ∨ cap > 0 then
        match ← chargeDay h record.dailyQuota cap with
        | .error e => return .error e
        | .ok () => return .ok ⟨h, record.label⟩
      else return .ok ⟨h, record.label⟩
    else return .error (.rateLimited 1)

end Consumption

section Methods

inductive ProxyMethod where
  | createKey (label : String) (quotaRps : UInt32) (dailyQuota : UInt64)
  | revoke (keyId : String)
  | revokeHash (hash : String)
  | rotateMemberKey (subhash : String) (quotaRps : UInt32) (dailyQuota : UInt64)
  | setMemberPoolDaily (cap : UInt64)
  | tryConsume (keyId : String)
  deriving DecidableEq

abbrev ProxyMethod.Ans : ProxyMethod → Type
  | .createKey _ _ _ | .rotateMemberKey _ _ _ => Except StoreError String
  | .revoke _ | .revokeHash _ => Except StoreError Unit
  | .setMemberPoolDaily _ => Unit
  | .tryConsume _ => Except ConsumeError ConsumedKey

variable (hashKeyId : String → String)

def ProxyMethod.prog : (m : ProxyMethod) → M m.Ans
  | .createKey label quotaRps dailyQuota =>
    KeyStore.createKey hashKeyId label quotaRps dailyQuota
  | .revoke keyId => KeyStore.revoke hashKeyId keyId
  | .revokeHash hash => KeyStore.revokeHash hash
  | .rotateMemberKey subhash quotaRps dailyQuota =>
    KeyStore.rotateMemberKey hashKeyId subhash quotaRps dailyQuota
  | .setMemberPoolDaily cap => KeyStore.setMemberPoolDaily cap
  | .tryConsume keyId => KeyStore.tryConsume hashKeyId keyId

/-- The calls of the proxy-key methods. -/
abbrev proxyCalls : System StoreSig :=
  system hashKeyId fun m : ProxyMethod => do
    let a ← m.prog hashKeyId
    return (⟨m, a⟩ : (m : ProxyMethod) × m.Ans)

end Methods

section Guards

/-- A piece of a call that gives up every lock it takes, and no other. -/
def Balanced {α : Type} (p : M α) : Prop :=
  ∀ past, p.Meets (fun _ => True) Guarded (fun past' _ => ∀ n, depth n past' = depth n past) past

variable {α β : Type} {p : M α}

theorem balanced_pure (a : α) : Balanced (pure a : M α) := fun _ _ => rfl

theorem Balanced.bind {f : α → M β} (hp : Balanced p) (hf : ∀ a, Balanced (f a)) :
    Balanced (p >>= f) := by
  intro past
  refine Prog.Meets.bind (hp past) fun past' a hdepth => ?_
  exact (hf a past').mono fun past'' _ h n => (h n).trans (hdepth n)

/-- An access that is not a lock's. -/
def Op.isQuiet : Op → Bool
  | .lock _ | .unlock _ | .lockPool | .unlockPool => false
  | _ => true

theorem balanced_perform {o : Op} (hquiet : o.isQuiet = true) :
    Balanced (.perform (E := StoreSig) o : M o.Ans) := by
  intro past
  refine Prog.meets_perform.2 fun a _ => ?_
  cases o <;> first | exact ⟨trivial, fun n => rfl⟩ | cases hquiet

theorem Balanced.withLock {h : String} (hp : Balanced p) : Balanced (withLock h p) := by
  intro past
  refine Prog.meets_perform_bind.2 fun _ _ => ⟨trivial, ?_⟩
  refine Prog.Meets.bind (hp _) fun past' a hdepth => ?_
  refine Prog.meets_perform_bind.2 fun _ _ => ⟨?_, fun n => ?_⟩
  · show 0 < depth (.key h) past'
    rw [hdepth]
    simp [depth]
  · simp only [depth, hdepth]
    omega

theorem Balanced.withPool (hp : Balanced p) : Balanced (withPool p) := by
  intro past
  refine Prog.meets_perform_bind.2 fun _ _ => ⟨trivial, ?_⟩
  refine Prog.Meets.bind (hp _) fun past' a hdepth => ?_
  refine Prog.meets_perform_bind.2 fun _ _ => ⟨?_, fun n => ?_⟩
  · show 0 < depth .pool past'
    rw [hdepth]
    simp [depth]
  · simp only [depth, hdepth]
    omega

variable {hashKeyId : String → String}

theorem get_balanced (k : RowKey) : Balanced (get k) := balanced_perform (o := .get k) rfl

theorem put_balanced (row : Row) : Balanced (put row) := balanced_perform (o := .put row) rfl

theorem putSynced_balanced (row : Row) : Balanced (putSynced row) :=
  balanced_perform (o := .putSynced row) rfl

theorem createKey_balanced (label : String) (quotaRps : UInt32) (dailyQuota : UInt64) :
    Balanced (createKey hashKeyId label quotaRps dailyQuota) := by
  refine (balanced_perform (o := .newUuid) rfl).bind fun uuid => ?_
  refine (balanced_perform (o := .nowSecs) rfl).bind fun now => ?_
  refine (put_balanced _).bind fun w => ?_
  cases w <;> exact balanced_pure _

theorem revokeHash_balanced (h : String) : Balanced (revokeHash h) := by
  refine (get_balanced _).bind fun found => ?_
  match found with
  | .error e => exact balanced_pure _
  | .ok (some r) => exact (put_balanced _).bind fun w => balanced_pure _
  | .ok none =>
    refine Balanced.withLock ((get_balanced _).bind fun answer => ?_)
    match answer with
    | .error e => exact balanced_pure _
    | .ok none => exact balanced_pure _
    | .ok (some r) => exact (putSynced_balanced _).bind fun w => balanced_pure _

theorem retire_balanced (previous : Option String) : Balanced (retire previous) := by
  cases previous with
  | none => exact balanced_pure _
  | some old =>
    refine (revokeHash_balanced old).bind fun answer => ?_
    match answer with
    | .ok () => exact balanced_pure _
    | .error e => cases e <;> exact balanced_pure _

theorem rotateMemberKey_balanced (subhash : String) (quotaRps : UInt32) (dailyQuota : UInt64) :
    Balanced (rotateMemberKey hashKeyId subhash quotaRps dailyQuota) := by
  have hprevious : Balanced (memberKeyHash subhash) := by
    refine (get_balanced _).bind fun found => ?_
    cases found <;> exact balanced_pure _
  refine Balanced.withLock (hprevious.bind fun answer => ?_)
  cases answer with
  | error e => exact balanced_pure _
  | ok previous =>
    refine (createKey_balanced _ _ _).bind fun created => ?_
    cases created with
    | error e => exact balanced_pure _
    | ok id =>
      refine (retire_balanced previous).bind fun retired => ?_
      cases retired with
      | error e => exact balanced_pure _
      | ok u =>
        refine (putSynced_balanced _).bind fun w => ?_
        cases w <;> exact balanced_pure _

theorem readCounter_balanced (owner : QuotaOwner) (day : String) :
    Balanced (readCounter owner day) := by
  refine (get_balanced _).bind fun answer => ?_
  rcases answer with e | ⟨_ | n⟩ <;> exact balanced_pure _

theorem writeCounter_balanced (owner : QuotaOwner) (day : String) (n : UInt64) :
    Balanced (writeCounter owner day n) := by
  refine (put_balanced _).bind fun w => ?_
  cases w <;> exact balanced_pure _

theorem dailyQuotaExceeded_balanced :
    Balanced (dailyQuotaExceeded : M (Except ConsumeError α)) :=
  (balanced_perform (o := .secondsUntilNextUtcDay) rfl).bind fun _ => balanced_pure _

theorem drawPool_balanced (day : String) (cap : UInt64) : Balanced (drawPool day cap) := by
  refine Balanced.withPool ((readCounter_balanced _ _).bind fun answer => ?_)
  cases answer with
  | error e => exact balanced_pure _
  | ok used =>
    simp only
    split
    · exact dailyQuotaExceeded_balanced
    · exact writeCounter_balanced _ _ _

theorem chargeDay_balanced (h : String) (dailyQuota cap : UInt64) :
    Balanced (chargeDay h dailyQuota cap) := by
  refine Balanced.withLock ((balanced_perform (o := .today) rfl).bind fun day => ?_)
  have hread : Balanced (if dailyQuota > 0 then readCounter (.key h) day else return .ok 0) := by
    split
    · exact readCounter_balanced _ _
    · exact balanced_pure _
  have hdraw : Balanced (if cap > 0 then drawPool day cap else return .ok ()) := by
    split
    · exact drawPool_balanced _ _
    · exact balanced_pure _
  refine hread.bind fun answer => ?_
  cases answer with
  | error e => exact balanced_pure _
  | ok cur =>
    simp only
    split
    · exact dailyQuotaExceeded_balanced
    · refine hdraw.bind fun drawn => ?_
      cases drawn with
      | error e => exact balanced_pure _
      | ok u =>
        simp only
        split
        · exact writeCounter_balanced _ _ _
        · exact balanced_pure _

theorem tryConsume_balanced (keyId : String) : Balanced (tryConsume hashKeyId keyId) := by
  refine (get_balanced _).bind fun found => ?_
  match found with
  | .error e => exact balanced_pure _
  | .ok none => exact balanced_pure _
  | .ok (some record) =>
    have hrate : Balanced (passesRate (hashKeyId keyId) record.quotaRps) := by
      unfold passesRate
      split
      · exact (balanced_perform (o := .nowSecs) rfl).bind fun now =>
          balanced_perform (o := .checkRate (hashKeyId keyId) now record.quotaRps) rfl
      · exact balanced_pure _
    have hcap : Balanced (poolCap record.label) := by
      unfold poolCap
      split
      · exact balanced_perform (o := .memberPoolDaily) rfl
      · exact balanced_pure _
    simp only
    split
    · exact balanced_pure _
    · refine hrate.bind fun passed => ?_
      split
      · refine hcap.bind fun cap => ?_
        split
        · refine (chargeDay_balanced _ _ _).bind fun charged => ?_
          cases charged <;> exact balanced_pure _
        · exact balanced_pure _
      · exact balanced_pure _

theorem proxy_balanced (m : ProxyMethod) : Balanced (m.prog hashKeyId) := by
  cases m with
  | createKey label quotaRps dailyQuota => exact createKey_balanced label quotaRps dailyQuota
  | revoke keyId => exact revokeHash_balanced (hashKeyId keyId)
  | revokeHash hash => exact revokeHash_balanced hash
  | rotateMemberKey subhash quotaRps dailyQuota =>
    exact rotateMemberKey_balanced subhash quotaRps dailyQuota
  | setMemberPoolDaily cap => exact balanced_perform (o := .setMemberPoolDaily cap) rfl
  | tryConsume keyId => exact tryConsume_balanced keyId

end Guards
end KeyStore
end Gateway
