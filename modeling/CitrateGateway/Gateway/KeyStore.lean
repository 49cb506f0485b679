import CitrateGateway.Shared.DurableStore
import CitrateGateway.Shared.System
import CitrateGateway.Gateway.Batch
import Mathlib.Data.List.Sort
import Mathlib.Logic.Function.Basic

/-!
# The persistent key store

One durable store of rows: balances, batch snapshots, settled markers, refund obligations and
model budgets. Every call is a program of single reads and writes; the calls that read a
balance and write it back do so under the lock of its key. Values are kept decoded: sealing
them can fail, and a sealed row opens to what was sealed.
-/

namespace Gateway
set_option autoImplicit false
open Words Effects Durable

inductive CryptError where
  | rng
  | crypto
  | corrupt
  deriving DecidableEq

inductive ValErr where
  | db (msg : String)
  | crypt (e : CryptError)
  deriving DecidableEq

inductive StoreError where
  | unknown
  | rocks (msg : String)
  | crypt (e : CryptError)
  | wrongKey
  | plaintextStore
  deriving DecidableEq

inductive BalanceError where
  | unknown
  | revoked
  | insufficient (balance : U256)
  | store (msg : String)
  | crypt (e : CryptError)
  deriving DecidableEq

inductive ModelBudgetError where
  | exceeded (remaining : U256)
  | store (msg : String)
  | crypt (e : CryptError)
  deriving DecidableEq

def StoreError.ofValErr : ValErr → StoreError
  | .db msg => .rocks msg
  | .crypt e => .crypt e

def BalanceError.ofValErr : ValErr → BalanceError
  | .db msg => .store msg
  | .crypt e => .crypt e

def ModelBudgetError.ofValErr : ValErr → ModelBudgetError
  | .db msg => .store msg
  | .crypt e => .crypt e

structure KeyRecord where
  label : String
  createdAt : UInt64
  revoked : Bool
  quotaRps : UInt32
  dailyQuota : UInt64
  deriving DecidableEq

/-- `balance` stands for the big-endian bytes of the row. -/
structure BalanceRecord where
  label : String
  createdAt : UInt64
  revoked : Bool
  backing : UInt8
  depositAddress : H160
  balance : U256
  deriving DecidableEq

structure RefundOwed where
  batchId : String
  payer : Option String
  refundGrains : String
  recordedAt : UInt64
  deriving DecidableEq

/-- The counters of the `quota` namespace. -/
inductive QuotaOwner where
  | key (hash : String)
  | memberPool
  deriving DecidableEq

inductive RowKey where
  | record (hash : String)
  | bal (hash : String)
  | batch (id : String)
  | batchset (id : String)
  | refundowed (id : String)
  | mbudget (hash model : String)
  | quota (owner : QuotaOwner) (day : String)
  | memberMap (subhash : String)
  deriving DecidableEq

abbrev RowVal : RowKey → Type
  | .record _ => KeyRecord
  | .bal _ => BalanceRecord
  | .batch _ => PersistedBatch
  | .batchset _ => Unit
  | .refundowed _ => RefundOwed
  | .mbudget _ _ => U256
  | .quota _ _ => UInt64
  | .memberMap _ => String

abbrev Row := (k : RowKey) × RowVal k

instance : (k : RowKey) → DecidableEq (RowVal k)
  | .record _ => inferInstanceAs (DecidableEq KeyRecord)
  | .bal _ => inferInstanceAs (DecidableEq BalanceRecord)
  | .batch _ => inferInstanceAs (DecidableEq PersistedBatch)
  | .batchset _ => inferInstanceAs (DecidableEq Unit)
  | .refundowed _ => inferInstanceAs (DecidableEq RefundOwed)
  | .mbudget _ _ => inferInstanceAs (DecidableEq U256)
  | .quota _ _ => inferInstanceAs (DecidableEq UInt64)
  | .memberMap _ => inferInstanceAs (DecidableEq String)

abbrev Rows := DurableStore RowVal

structure RateWindow where
  windowStart : UInt64
  count : UInt32
  deriving DecidableEq

namespace RateWindow

/-- The window after a request read the clock at `now`, and whether the request passes. -/
def check (entry : Option RateWindow) (now : UInt64) (quotaRps : UInt32) : Bool × RateWindow :=
  let w := entry.getD ⟨now, 0⟩
  let w := if w.windowStart ≠ now then ⟨now, 0⟩ else w
  if w.count ≥ quotaRps then (false, w) else (true, { w with count := w.count + 1 })

end RateWindow

namespace KeyStore

/-- Single accesses of the store, and what else a call does. -/
inductive Op where
  | get (k : RowKey)
  /-- Presence only: the value is not opened. -/
  | contains (k : RowKey)
  | put (row : Row)
  | putSynced (row : Row)
  | writeBatch (group : List Row)
  | scanBatches
  | scanBudgets (hash : String)
  | lock (hash : String)
  | unlock (hash : String)
  | newUuid
  | nowSecs
  /-- The rate map, from its lock to the end of the check. -/
  | checkRate (hash : String) (now : UInt64) (quotaRps : UInt32)
  | memberPoolDaily
  | setMemberPoolDaily (cap : UInt64)
  | lockPool
  | unlockPool
  | today
  | secondsUntilNextUtcDay

abbrev Op.Ans : Op → Type
  | .get k => Except ValErr (Option (RowVal k))
  | .contains _ => Except ValErr Bool
  | .put _ | .putSynced _ | .writeBatch _ => Except ValErr Unit
  | .scanBatches => Except ValErr (List (String × PersistedBatch))
  | .scanBudgets _ => Except ValErr (List (String × U256))
  | .lock _ | .unlock _ | .lockPool | .unlockPool | .setMemberPoolDaily _ => Unit
  | .newUuid | .today => String
  | .nowSecs | .memberPoolDaily | .secondsUntilNextUtcDay => UInt64
  | .checkRate _ _ _ => Bool

abbrev StoreSig : Sig := ⟨Op, Op.Ans⟩

abbrev Event := StoreSig.Event

abbrev M := Prog StoreSig

section Operations

def get (k : RowKey) : M (Except ValErr (Option (RowVal k))) := .perform (E := StoreSig) (.get k)

def contains (k : RowKey) : M (Except ValErr Bool) := .perform (E := StoreSig) (.contains k)

def put (row : Row) : M (Except ValErr Unit) := .perform (E := StoreSig) (.put row)

def putSynced (row : Row) : M (Except ValErr Unit) := .perform (E := StoreSig) (.putSynced row)

def writeBatch (group : List Row) : M (Except ValErr Unit) :=
  .perform (E := StoreSig) (.writeBatch group)

def scanBatches : M (Except ValErr (List (String × PersistedBatch))) :=
  .perform (E := StoreSig) .scanBatches

def scanBudgets (hash : String) : M (Except ValErr (List (String × U256))) :=
  .perform (E := StoreSig) (.scanBudgets hash)

def lock (hash : String) : M Unit := .perform (E := StoreSig) (.lock hash)

def unlock (hash : String) : M Unit := .perform (E := StoreSig) (.unlock hash)

def newUuid : M String := .perform (E := StoreSig) .newUuid

def nowSecs : M UInt64 := .perform (E := StoreSig) .nowSecs

/-- Run under the lock of a key; the guard is given up on every way out. -/
def withLock {α : Type} (hash : String) (body : M α) : M α := do
  lock hash
  let a ← body
  unlock hash
  return a

end Operations

section Balances
variable (hashKeyId : String → String)

def createBalanceKey (label : String) (balance : U256) (depositAddress : H160)
    (backing : UInt8) : M (Except StoreError String) := do
  let uuid ← newUuid
  let id := "cgk_" ++ uuid
  let now ← nowSecs
  let rec₀ : BalanceRecord := ⟨label, now, false, backing, depositAddress, balance⟩
  match ← putSynced ⟨.bal (hashKeyId id), rec₀⟩ with
  | .error e => return .error (.ofValErr e)
  | .ok () => return .ok id

def getBalanceRecord (keyId : String) : M (Except StoreError (Option BalanceRecord)) := do
  match ← get (.bal (hashKeyId keyId)) with
  | .error e => return .error (.ofValErr e)
  | .ok r => return .ok r

def debitBalance (keyId : String) (amount : U256) : M (Except BalanceError U256) :=
  let h := hashKeyId keyId
  withLock h do
    match ← get (.bal h) with
    | .error e => return .error (.ofValErr e)
    | .ok none => return .error .unknown
    | .ok (some r) =>
      if r.revoked then return .error .revoked
      else if r.balance.toNat < amount.toNat then return .error (.insufficient r.balance)
      else
        let new := r.balance - amount
        match ← putSynced ⟨.bal h, { r with balance := new }⟩ with
        | .error e => return .error (.ofValErr e)
        | .ok () => return .ok new

def refundBalance (keyId : String) (amount : U256) : M (Except BalanceError U256) :=
  let h := hashKeyId keyId
  withLock h do
    match ← get (.bal h) with
    | .error e => return .error (.ofValErr e)
    | .ok none => return .error .unknown
    | .ok (some r) =>
      let new := saturatingAdd r.balance amount
      match ← putSynced ⟨.bal h, { r with balance := new }⟩ with
      | .error e => return .error (.ofValErr e)
      | .ok () => return .ok new

end Balances

section Batches
variable (hashKeyId : String → String)

def ofUnit (r : Except ValErr Unit) : Except StoreError Unit :=
  match r with
  | .error e => .error (.ofValErr e)
  | .ok () => .ok ()

def persistBatch (batchId : String) (b : PersistedBatch) : M (Except StoreError Unit) := do
  let r ← put ⟨.batch batchId, b⟩
  return ofUnit r

def loadBatches : M (Except StoreError (List (String × PersistedBatch))) := do
  match ← scanBatches with
  | .error e => return .error (.ofValErr e)
  | .ok out => return .ok out

def batchWasSettled (batchId : String) : M (Except StoreError Bool) := do
  match ← contains (.batchset batchId) with
  | .error e => return .error (.ofValErr e)
  | .ok found => return .ok found

def markBatchSettled (batchId : String) (b : PersistedBatch) : M (Except StoreError Unit) := do
  let r ← writeBatch [⟨.batch batchId, b⟩, ⟨.batchset batchId, ()⟩]
  return ofUnit r

def settleBatchRefund (keyId : String) (refund : U256) (batchId : String) (b : PersistedBatch) :
    M (Except BalanceError U256) :=
  let h := hashKeyId keyId
  withLock h do
    match ← contains (.batchset batchId) with
    | .error e => return .error (.ofValErr e)
    | .ok true =>
      match ← put ⟨.batch batchId, b⟩ with
      | .error e => return .error (.ofValErr e)
      | .ok () =>
        match ← get (.bal h) with
        | .error e => return .error (.ofValErr e)
        | .ok none => return .error .unknown
        | .ok (some r) => return .ok r.balance
    | .ok false =>
      match ← get (.bal h) with
      | .error e => return .error (.ofValErr e)
      | .ok none => return .error .unknown
      | .ok (some r) =>
        let new := saturatingAdd r.balance refund
        match ← writeBatch [⟨.bal h, { r with balance := new }⟩, ⟨.batch batchId, b⟩,
            ⟨.batchset batchId, ()⟩] with
        | .error e => return .error (.ofValErr e)
        | .ok () => return .ok new

def recordRefundOwed (batchId : String) (payer : Option H160) (refund : U256)
    (b : PersistedBatch) : M (Except StoreError Unit) := do
  let now ← nowSecs
  let owed : RefundOwed := {
    batchId := batchId
    payer := payer.map fun p => "0x" ++ hexEncode (wordBytes 20 p)
    refundGrains := toDecStr refund
    recordedAt := now }
  let r ← writeBatch [⟨.batch batchId, b⟩, ⟨.batchset batchId, ()⟩, ⟨.refundowed batchId, owed⟩]
  return ofUnit r

end Batches

section Budgets
variable (hashKeyId : String → String)

def setModelBudget (keyId model : String) (amount : U256) : M (Except StoreError Unit) := do
  let r ← putSynced ⟨.mbudget (hashKeyId keyId) model, amount⟩
  return ofUnit r

def debitModelBudget (keyId model : String) (amount : U256) : M (Except ModelBudgetError Unit) :=
  let h := hashKeyId keyId
  withLock h do
    match ← get (.mbudget h model) with
    | .error e => return .error (.ofValErr e)
    | .ok none => return .ok ()
    | .ok (some cur) =>
      if (cur : U256).toNat < amount.toNat then return .error (.exceeded cur)
      else
        match ← putSynced ⟨.mbudget h model, (cur : U256) - amount⟩ with
        | .error e => return .error (.ofValErr e)
        | .ok () => return .ok ()

def refundModelBudget (keyId model : String) (amount : U256) : M (Except StoreError Unit) :=
  let h := hashKeyId keyId
  withLock h do
    match ← get (.mbudget h model) with
    | .error e => return .error (.ofValErr e)
    | .ok none => return .ok ()
    | .ok (some cur) =>
      let r ← putSynced ⟨.mbudget h model, saturatingAdd (cur : U256) amount⟩
      return ofUnit r

def getModelBudgets (keyId : String) : M (Except StoreError (List (String × U256))) := do
  match ← scanBudgets (hashKeyId keyId) with
  | .error e => return .error (.ofValErr e)
  | .ok out => return .ok out

end Budgets

section Revocation
variable (hashKeyId : String → String)

/-- The record of a proxy key is revoked without a lock, that of a balance key under it. -/
def revokeHash (h : String) : M (Except StoreError Unit) := do
  match ← get (.record h) with
  | .error e => return .error (.ofValErr e)
  | .ok (some r) =>
    let w ← put ⟨.record h, { r with revoked := true }⟩
    return ofUnit w
  | .ok none =>
    withLock h do
      match ← get (.bal h) with
      | .error e => return .error (.ofValErr e)
      | .ok none => return .error .unknown
      | .ok (some r) =>
        let w ← putSynced ⟨.bal h, { r with revoked := true }⟩
        return ofUnit w

def revoke (keyId : String) : M (Except StoreError Unit) := revokeHash (hashKeyId keyId)

end Revocation

section Methods

inductive Method where
  | createBalanceKey (label : String) (balance : U256) (depositAddress : H160) (backing : UInt8)
  | getBalanceRecord (keyId : String)
  | debitBalance (keyId : String) (amount : U256)
  | refundBalance (keyId : String) (amount : U256)
  | persistBatch (batchId : String) (b : PersistedBatch)
  | loadBatches
  | batchWasSettled (batchId : String)
  | markBatchSettled (batchId : String) (b : PersistedBatch)
  | settleBatchRefund (keyId : String) (refund : U256) (batchId : String) (b : PersistedBatch)
  | recordRefundOwed (batchId : String) (payer : Option H160) (refund : U256)
      (b : PersistedBatch)
  | setModelBudget (keyId model : String) (amount : U256)
  | debitModelBudget (keyId model : String) (amount : U256)
  | refundModelBudget (keyId model : String) (amount : U256)
  | revoke (keyId : String)
  deriving DecidableEq

abbrev Method.Ans : Method → Type
  | .createBalanceKey _ _ _ _ => Except StoreError String
  | .getBalanceRecord _ => Except StoreError (Option BalanceRecord)
  | .debitBalance _ _ | .refundBalance _ _ | .settleBatchRefund _ _ _ _ =>
    Except BalanceError U256
  | .loadBatches => Except StoreError (List (String × PersistedBatch))
  | .batchWasSettled _ => Except StoreError Bool
  | .persistBatch _ _ | .markBatchSettled _ _ | .recordRefundOwed _ _ _ _
  | .setModelBudget _ _ _ | .refundModelBudget _ _ _ | .revoke _ => Except StoreError Unit
  | .debitModelBudget _ _ _ => Except ModelBudgetError Unit

variable (hashKeyId : String → String)

def Method.prog : (m : Method) → M m.Ans
  | .createBalanceKey label balance depositAddress backing =>
    KeyStore.createBalanceKey hashKeyId label balance depositAddress backing
  | .getBalanceRecord keyId => KeyStore.getBalanceRecord hashKeyId keyId
  | .debitBalance keyId amount => KeyStore.debitBalance hashKeyId keyId amount
  | .refundBalance keyId amount => KeyStore.refundBalance hashKeyId keyId amount
  | .persistBatch batchId b => KeyStore.persistBatch batchId b
  | .loadBatches => KeyStore.loadBatches
  | .batchWasSettled batchId => KeyStore.batchWasSettled batchId
  | .markBatchSettled batchId b => KeyStore.markBatchSettled batchId b
  | .settleBatchRefund keyId refund batchId b =>
    KeyStore.settleBatchRefund hashKeyId keyId refund batchId b
  | .recordRefundOwed batchId payer refund b =>
    KeyStore.recordRefundOwed batchId payer refund b
  | .setModelBudget keyId model amount => KeyStore.setModelBudget hashKeyId keyId model amount
  | .debitModelBudget keyId model amount =>
    KeyStore.debitModelBudget hashKeyId keyId model amount
  | .refundModelBudget keyId model amount =>
    KeyStore.refundModelBudget hashKeyId keyId model amount
  | .revoke keyId => KeyStore.revoke hashKeyId keyId

end Methods

section Accesses

/-- The snapshots of a prefix scan, in the order of their ids. -/
def batchRows (rows : Rows) : List (String × PersistedBatch) :=
  (rows.rows.filterMap fun
    | ⟨.batch id, b⟩ => some (id, b)
    | _ => none).insertionSort fun a b => a.1 ≤ b.1

/-- The budgets of a key, in the order of their models. -/
def budgetsOf (rows : Rows) (hash : String) : List (String × U256) :=
  (rows.rows.filterMap fun
    | ⟨.mbudget h model, v⟩ => if h = hash then some (model, v) else none
    | _ => none).insertionSort fun a b => a.1 ≤ b.1

/-- The rows, and the hashes of the tokens handed out so far. -/
structure Store where
  rows : Rows
  issued : List String

/-- What the environment decides of one access. -/
inductive Input where
  | ok
  | fail (e : ValErr)
  | uuid (u : String)
  | secs (t : UInt64)
  | day (d : String)
  deriving DecidableEq

variable (hashKeyId : String → String)

def tokenHash (uuid : String) : String := hashKeyId ("cgk_" ++ uuid)

/-- A fresh token shares its hash with no row and no earlier token. -/
def Store.fresh (st : Store) (hash : String) : Bool :=
  hash ∉ st.issued && (st.rows.get (.bal hash)).isNone && (st.rows.get (.record hash)).isNone

def Store.access (st : Store) : (o : Op) → Input → Option (o.Ans × Store)
  | .get k, .ok => some (.ok (st.rows.get k), st)
  | .contains k, .ok => some (.ok (st.rows.get k).isSome, st)
  | .put row, .ok => some (.ok (), { st with rows := st.rows.put row })
  | .putSynced row, .ok => some (.ok (), { st with rows := st.rows.commit [row] })
  | .writeBatch group, .ok => some (.ok (), { st with rows := st.rows.commit group })
  | .scanBatches, .ok => some (.ok (batchRows st.rows), st)
  | .scanBudgets h, .ok => some (.ok (budgetsOf st.rows h), st)
  | .lock _, .ok => some ((), st)
  | .unlock _, .ok => some ((), st)
  | .newUuid, .uuid u =>
    if st.fresh (tokenHash hashKeyId u) then
      some (u, { st with issued := tokenHash hashKeyId u :: st.issued })
    else none
  | .nowSecs, .secs t => some (t, st)
  | .today, .day d => some (d, st)
  | .secondsUntilNextUtcDay, .secs t => some (t, st)
  | .get _, .fail e => some (.error e, st)
  | .contains _, .fail e => some (.error e, st)
  | .put _, .fail e => some (.error e, st)
  | .putSynced _, .fail e => some (.error e, st)
  | .writeBatch _, .fail e => some (.error e, st)
  | .scanBatches, .fail e => some (.error e, st)
  | .scanBudgets _, .fail e => some (.error e, st)
  | _, _ => none

/-- A call with nothing in between. -/
def alone {α : Type} : M α → List Input → Store → Option (α × Store)
  | .ret a, _, st => some (a, st)
  | .op o k, c :: cs, st => (st.access hashKeyId o c).bind fun r => alone (k r.1) cs r.2
  | .op _ _, [], _ => none

section Alone
variable {hashKeyId} {α : Type} {cs : List Input} {st : Store}

@[simp] theorem alone_pure (a : α) : alone hashKeyId (pure a : M α) cs st = some (a, st) := rfl

@[simp] theorem alone_get (k : RowKey) (f : Except ValErr (Option (RowVal k)) → M α) :
    alone hashKeyId (get k >>= f) (.ok :: cs) st = alone hashKeyId (f (.ok (st.rows.get k))) cs st :=
  rfl

@[simp] theorem alone_putSynced (row : Row) (f : Except ValErr Unit → M α) :
    alone hashKeyId (putSynced row >>= f) (.ok :: cs) st =
      alone hashKeyId (f (.ok ())) cs { st with rows := st.rows.commit [row] } :=
  rfl

@[simp] theorem alone_lock (h : String) (f : Unit → M α) :
    alone hashKeyId (lock h >>= f) (.ok :: cs) st = alone hashKeyId (f ()) cs st :=
  rfl

@[simp] theorem alone_unlock (h : String) (f : Unit → M α) :
    alone hashKeyId (unlock h >>= f) (.ok :: cs) st = alone hashKeyId (f ()) cs st :=
  rfl

theorem alone_newUuid {u : String} (hfresh : st.fresh (tokenHash hashKeyId u) = true)
    (f : String → M α) : alone hashKeyId (newUuid >>= f) (.uuid u :: cs) st =
      alone hashKeyId (f u) cs { st with issued := tokenHash hashKeyId u :: st.issued } := by
  show (if st.fresh (tokenHash hashKeyId u) then _ else none : Option _).bind _ = _
  rw [if_pos hfresh]
  rfl

theorem alone_bind_pure {β : Type} (p : M α) (f : α → β) (cs : List Input) (st : Store) :
    alone hashKeyId (p >>= fun a => pure (f a)) cs st =
      (alone hashKeyId p cs st).map fun r => (f r.1, r.2) := by
  induction p generalizing cs st with
  | ret a => rfl
  | op o k ih =>
    cases cs with
    | nil => rfl
    | cons c cs =>
      rw [Prog.op_bind, alone, alone, Option.map_bind]
      exact congrArg _ (funext fun r => ih r.1 cs r.2)

end Alone

/-- An open store: its rows, and what it keeps in memory. -/
structure Shared where
  store : Store
  /-- The call that holds the lock of a key. -/
  holder : String → Option Nat
  poolHolder : Option Nat
  rate : String → Option RateWindow
  memberPoolDaily : UInt64

def handle (sh : Shared) (t : Nat) : (o : Op) → Input → Option (o.Ans × Shared)
  | .lock h, .ok =>
    if sh.holder h = none then
      some ((), { sh with holder := Function.update sh.holder h (some t) })
    else none
  | .unlock h, .ok => some ((), { sh with holder := Function.update sh.holder h none })
  | .lockPool, .ok =>
    if sh.poolHolder = none then some ((), { sh with poolHolder := some t }) else none
  | .unlockPool, .ok => some ((), { sh with poolHolder := none })
  | .checkRate h now quotaRps, .ok =>
    let r := RateWindow.check (sh.rate h) now quotaRps
    some (r.1, { sh with rate := Function.update sh.rate h (some r.2) })
  | .memberPoolDaily, .ok => some (sh.memberPoolDaily, sh)
  | .setMemberPoolDaily cap, .ok => some ((), { sh with memberPoolDaily := cap })
  | o, c => (sh.store.access hashKeyId o c).map fun r => (r.1, { sh with store := r.2 })

/-- The guards of an ended call are given up. -/
def leave (sh : Shared) (t : Nat) : Shared :=
  { sh with
    holder := fun h => if sh.holder h = some t then none else sh.holder h
    poolHolder := if sh.poolHolder = some t then none else sh.poolHolder }

def Shared.opened (rows : Rows) : Shared := ⟨⟨rows, []⟩, fun _ => none, none, fun _ => none, 0⟩

/-- The store is closed, or the machine stops, and is opened again. -/
inductive World where
  | restart (mask : List Bool)

def restarted (sh : Shared) (mask : List Bool) : Shared :=
  { Shared.opened (sh.store.rows.crash mask) with
    store := { sh.store with rows := sh.store.rows.crash mask } }

/-- Any number of concurrent calls of one store. -/
abbrev system {Job Res : Type} (prog : Job → M Res) : System StoreSig where
  Shared := Shared
  Job := Job
  Res := Res
  Input := Input
  World := World
  prog := prog
  onStart := fun sh _ => some sh
  handle := handle hashKeyId
  leave := leave
  spawn := fun _ => none
  world := fun sh w => match w with
    | .restart mask => some (restarted sh mask)
  halts := fun _ => true

/-- The calls of the balance and batch methods. -/
abbrev calls : System StoreSig :=
  system hashKeyId fun m : Method => do
    let a ← m.prog hashKeyId
    return (⟨m, a⟩ : (m : Method) × m.Ans)

end Accesses
end KeyStore
end Gateway
