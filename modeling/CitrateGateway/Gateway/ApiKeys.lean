import CitrateGateway.Gateway.KeyStore
import Mathlib.Data.String.Basic

/-!
# The store of API keys

One interface over two backends: a map in memory, a record with its model budgets for each
hashed bearer, and the persistent store, which keeps the budgets in rows of their own.
-/

namespace Gateway
set_option autoImplicit false
open Words Effects Durable

inductive KeyBacking where
  | salt
  | credits
  deriving DecidableEq

namespace KeyBacking

def asU8 : KeyBacking → UInt8
  | .salt => 0
  | .credits => 1

/-- Unknown values read as salt. -/
def fromU8 (v : UInt8) : KeyBacking := if v = 1 then .credits else .salt

@[simp] theorem fromU8_asU8 (b : KeyBacking) : fromU8 b.asU8 = b := by
  cases b <;> rfl

end KeyBacking

structure ApiKeyRecord where
  label : String
  balanceGrains : U256
  depositAddress : H160
  revoked : Bool
  backing : KeyBacking
  createdAt : UInt64
  modelBudgets : Std.TreeMap String U256

inductive DebitError where
  | unknown
  | revoked
  | insufficient (balance : U256)
  deriving DecidableEq

def DebitError.fromBalance : BalanceError → DebitError
  | .unknown => .unknown
  | .revoked => .revoked
  | .insufficient bal => .insufficient bal
  | .store _ | .crypt _ => .unknown

/-- The budgets stay in their own rows. -/
def recordFromBalance (br : BalanceRecord) : ApiKeyRecord where
  label := br.label
  balanceGrains := br.balance
  depositAddress := br.depositAddress
  revoked := br.revoked
  backing := .fromU8 br.backing
  createdAt := br.createdAt
  modelBudgets := ∅

namespace ApiKeyStore
open KeyStore

inductive Call where
  | insert (label : String) (balance : U256) (deposit : H160) (backing : KeyBacking)
  | get (keyId : String)
  | debit (keyId : String) (amount : U256)
  | refund (keyId : String) (amount : U256)
  | revoke (keyId : String)
  | setModelBudget (keyId model : String) (amount : U256)
  | getModelBudgets (keyId : String)
  | debitModelBudget (keyId model : String) (amount : U256)
  | refundModelBudget (keyId model : String) (amount : U256)
  deriving DecidableEq

abbrev Call.Ans : Call → Type
  | .insert _ _ _ _ => String
  | .get _ => Option ApiKeyRecord
  | .debit _ _ | .refund _ _ => Except DebitError U256
  | .revoke _ | .setModelBudget _ _ _ => Except DebitError Unit
  | .getModelBudgets _ => List (String × U256)
  | .debitModelBudget _ _ _ => Except ModelBudgetError Unit
  | .refundModelBudget _ _ _ => Unit

/-- The random part of a minted id, and the time. -/
structure Minted where
  uuid : String
  now : UInt64
  deriving DecidableEq

section Memory
variable (hashKeyId : String → String)

abbrev Memory := String → Option ApiKeyRecord

namespace Memory

def set (m : Memory) (h : String) (r : ApiKeyRecord) : Memory := Function.update m h (some r)

def insert (m : Memory) (minted : Minted) (label : String) (balance : U256) (deposit : H160)
    (backing : KeyBacking) : String × Memory :=
  let keyId := "cgk_" ++ minted.uuid
  let record : ApiKeyRecord := {
    label := label
    balanceGrains := balance
    depositAddress := deposit
    revoked := false
    backing := backing
    createdAt := minted.now
    modelBudgets := ∅ }
  (keyId, m.set (hashKeyId keyId) record)

def debit (m : Memory) (keyId : String) (amount : U256) : Except DebitError U256 × Memory :=
  let h := hashKeyId keyId
  match m h with
  | none => (.error .unknown, m)
  | some r =>
    if r.revoked then (.error .revoked, m)
    else if r.balanceGrains.toNat < amount.toNat then (.error (.insufficient r.balanceGrains), m)
    else
      let new := r.balanceGrains - amount
      (.ok new, m.set h { r with balanceGrains := new })

def refund (m : Memory) (keyId : String) (amount : U256) : Except DebitError U256 × Memory :=
  let h := hashKeyId keyId
  match m h with
  | none => (.error .unknown, m)
  | some r =>
    let new := saturatingAdd r.balanceGrains amount
    (.ok new, m.set h { r with balanceGrains := new })

def revoke (m : Memory) (keyId : String) : Except DebitError Unit × Memory :=
  let h := hashKeyId keyId
  match m h with
  | none => (.error .unknown, m)
  | some r => (.ok (), m.set h { r with revoked := true })

def setModelBudget (m : Memory) (keyId model : String) (amount : U256) :
    Except DebitError Unit × Memory :=
  let h := hashKeyId keyId
  match m h with
  | none => (.error .unknown, m)
  | some r => (.ok (), m.set h { r with modelBudgets := r.modelBudgets.insert model amount })

def getModelBudgets (m : Memory) (keyId : String) : List (String × U256) :=
  match m (hashKeyId keyId) with
  | none => []
  | some r => r.modelBudgets.toList

/-- A key that is not there behaves as uncapped. -/
def debitModelBudget (m : Memory) (keyId model : String) (amount : U256) :
    Except ModelBudgetError Unit × Memory :=
  let h := hashKeyId keyId
  match m h with
  | none => (.ok (), m)
  | some r =>
    match r.modelBudgets[model]? with
    | none => (.ok (), m)
    | some remaining =>
      if remaining.toNat < amount.toNat then (.error (.exceeded remaining), m)
      else
        (.ok (), m.set h { r with
          modelBudgets := r.modelBudgets.insert model (remaining - amount) })

def refundModelBudget (m : Memory) (keyId model : String) (amount : U256) : Memory :=
  let h := hashKeyId keyId
  match m h with
  | none => m
  | some r =>
    match r.modelBudgets[model]? with
    | none => m
    | some remaining =>
      m.set h { r with
        modelBudgets := r.modelBudgets.insert model (saturatingAdd remaining amount) }

/-- A call takes the lock of the map, so it has nothing in between. -/
def perform (m : Memory) (minted : Minted) : (c : Call) → c.Ans × Memory
  | .insert label balance deposit backing =>
    m.insert hashKeyId minted label balance deposit backing
  | .get keyId => (m (hashKeyId keyId), m)
  | .debit keyId amount => m.debit hashKeyId keyId amount
  | .refund keyId amount => m.refund hashKeyId keyId amount
  | .revoke keyId => m.revoke hashKeyId keyId
  | .setModelBudget keyId model amount => m.setModelBudget hashKeyId keyId model amount
  | .getModelBudgets keyId => (m.getModelBudgets hashKeyId keyId, m)
  | .debitModelBudget keyId model amount => m.debitModelBudget hashKeyId keyId model amount
  | .refundModelBudget keyId model amount =>
    ((), m.refundModelBudget hashKeyId keyId model amount)

end Memory
end Memory

section Persistent
variable (hashKeyId : String → String)

/-- A call on the persistent backend; minting panics when the store fails. -/
def Call.prog : (c : Call) → M (Option c.Ans)
  | .insert label balance deposit backing => do
    match ← createBalanceKey hashKeyId label balance deposit backing.asU8 with
    | .error _ => return none
    | .ok id => return some id
  | .get keyId => do
    match ← getBalanceRecord hashKeyId keyId with
    | .error _ => return some none
    | .ok found => return some (found.map recordFromBalance)
  | .debit keyId amount => do
    let r ← debitBalance hashKeyId keyId amount
    return some (r.mapError .fromBalance)
  | .refund keyId amount => do
    let r ← refundBalance hashKeyId keyId amount
    return some (r.mapError .fromBalance)
  | .revoke keyId => do
    let r ← KeyStore.revoke hashKeyId keyId
    return some (r.mapError fun _ => .unknown)
  | .setModelBudget keyId model amount => do
    let r ← KeyStore.setModelBudget hashKeyId keyId model amount
    return some (r.mapError fun _ => .unknown)
  | .getModelBudgets keyId => do
    match ← KeyStore.getModelBudgets hashKeyId keyId with
    | .error _ => return some []
    | .ok out => return some out
  | .debitModelBudget keyId model amount => do
    let r ← KeyStore.debitModelBudget hashKeyId keyId model amount
    return some r
  | .refundModelBudget keyId model amount => do
    let _ ← KeyStore.refundModelBudget hashKeyId keyId model amount
    return some ()

/-- What the environment answers when nothing fails. -/
def Call.inputs (minted : Minted) : Call → List Input
  | .insert _ _ _ _ => [.uuid minted.uuid, .secs minted.now, .ok]
  | _ => List.replicate 5 .ok

/-- A call on the persistent backend with nothing in between and no failure of the store. -/
def persistent (st : Store) (minted : Minted) (c : Call) : Option (c.Ans × Store) :=
  (alone hashKeyId (c.prog hashKeyId) (c.inputs minted) st).bind fun r =>
    r.1.map fun a => (a, r.2)

end Persistent
end ApiKeyStore
end Gateway
