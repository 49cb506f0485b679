import CitrateGateway.Shared.System
import CitrateGateway.X402.Settlement
import CitrateGateway.Gateway.Error

/-!
# The operator wallet

Pool dispatches and reclaims of one wallet, interleaved: the account nonce is reserved under
the manager's lock, the transaction is signed and submitted, and a failed submission resets
the manager to the chain's count. The chain keeps the nonces it accepted; its pending count
is the end of their contiguous run.
-/

namespace Gateway
set_option autoImplicit false
open Words Effects X402

section Calldata
variable (crypto : Crypto)

def poolDispatchGas : UInt64 := 600000

def defaultGasPriceWei : UInt64 := 1000000000

/-- A byte slice; its length is below `2 ^ 63` on every target. -/
structure Slice where
  bytes : Bytes
  short : bytes.length < 2 ^ 63

def encodeRequestPoolCompute (poolId : U256) (jobSpec : Slice) (maxPrice : U256) : Bytes :=
  (wordBytes 32 (crypto.keccak256 (utf8 "requestPoolCompute(uint256,bytes,uint256)"))).take 4 ++
    wordBytes 32 poolId ++ beBytes 32 0x60 ++ wordBytes 32 maxPrice ++
    beBytes 32 jobSpec.bytes.length ++ jobSpec.bytes ++
    List.replicate ((32 - jobSpec.bytes.length % 32) % 32) 0

def encodeReclaimExpiredJob (jobId : U256) : Bytes :=
  (wordBytes 32 (crypto.keccak256 (utf8 "reclaimExpiredJob(uint256)"))).take 4 ++
    wordBytes 32 jobId

theorem encodeRequestPoolCompute_length (poolId : U256) (jobSpec : Slice) (maxPrice : U256) :
    (encodeRequestPoolCompute crypto poolId jobSpec maxPrice).length < 2 ^ 64 - 1024 := by
  have := jobSpec.short
  have : (32 - jobSpec.bytes.length % 32) % 32 < 32 := Nat.mod_lt _ (by omega)
  simp only [encodeRequestPoolCompute, List.length_append, List.length_take, wordBytes_length,
    beBytes_length, List.length_replicate]
  omega

theorem encodeReclaimExpiredJob_length (jobId : U256) :
    (encodeReclaimExpiredJob crypto jobId).length < 2 ^ 64 - 1024 := by
  simp [encodeReclaimExpiredJob]

end Calldata

section SpendCap

structure SpendCap where
  ceilingWei : U256
  blocksPerEpoch : UInt64
  epoch : UInt64
  spent : U256

def SpendCap.new (ceilingWei : U256) (blocksPerEpoch : UInt64) : SpendCap where
  ceilingWei := ceilingWei
  blocksPerEpoch := if blocksPerEpoch = 0 then 1 else blocksPerEpoch
  epoch := 0
  spent := 0

def SpendCap.trySpend (cap : SpendCap) (amount : U256) (block : UInt64) :
    Except GatewayError Unit × SpendCap :=
  let epoch := block / cap.blocksPerEpoch
  let cap := if cap.epoch ≠ epoch then { cap with epoch := epoch, spent := 0 } else cap
  let next := saturatingAdd cap.spent amount
  if cap.ceilingWei < next then
    (.error (.spendCapExceeded (toDecStr amount)
      (toDecStr (saturatingSub cap.ceilingWei cap.spent))), cap)
  else (.ok (), { cap with spent := next })

end SpendCap

namespace Signer

/-- What a wallet call does. The nonce manager's lock is taken by `lockNonce`, which reads
the guarded value, and given back by the assignment under it or by `unlockNonce`. -/
inductive Op where
  | ethBlockNumber
  | trySpend (amount : U256) (block : UInt64)
  | lockNonce
  | unlockNonce
  /-- `*guard = Some(n + 1)` of `reserve`. -/
  | reserveNonce (n : UInt64)
  /-- `*guard = Some(chain_nonce)` of `resync`. -/
  | resyncNonce (chainNonce : UInt64)
  | ethGetTransactionCount
  | ethGasPrice
  | signHash (hash : H256)
  | ethSendRawTransaction (raw : Bytes)
  deriving DecidableEq

abbrev Op.Ans : Op → Type
  | .ethBlockNumber => Except GatewayError UInt64
  | .trySpend _ _ => Except GatewayError Unit
  | .lockNonce => Option UInt64
  | .unlockNonce => Unit
  | .reserveNonce _ => Unit
  | .resyncNonce _ => Unit
  | .ethGetTransactionCount => Except GatewayError UInt64
  | .ethGasPrice => Except GatewayError UInt64
  | .signHash _ => Except X402Error (UInt8 × H256 × H256)
  | .ethSendRawTransaction _ => Except GatewayError H256

instance : (o : Op) → DecidableEq o.Ans
  | .ethBlockNumber => inferInstanceAs (DecidableEq (Except GatewayError UInt64))
  | .trySpend _ _ => inferInstanceAs (DecidableEq (Except GatewayError Unit))
  | .lockNonce => inferInstanceAs (DecidableEq (Option UInt64))
  | .unlockNonce | .reserveNonce _ | .resyncNonce _ => inferInstanceAs (DecidableEq Unit)
  | .ethGetTransactionCount => inferInstanceAs (DecidableEq (Except GatewayError UInt64))
  | .ethGasPrice => inferInstanceAs (DecidableEq (Except GatewayError UInt64))
  | .signHash _ => inferInstanceAs (DecidableEq (Except X402Error (UInt8 × H256 × H256)))
  | .ethSendRawTransaction _ => inferInstanceAs (DecidableEq (Except GatewayError H256))

abbrev WalletSig : Sig := ⟨Op, Op.Ans⟩

abbrev Event := WalletSig.Event

abbrev M := Prog WalletSig

section Operations

def ethBlockNumber : M (Except GatewayError UInt64) := .perform (E := WalletSig) .ethBlockNumber

def trySpend (amount : U256) (block : UInt64) : M (Except GatewayError Unit) :=
  .perform (E := WalletSig) (.trySpend amount block)

def lockNonce : M (Option UInt64) := .perform (E := WalletSig) .lockNonce

def unlockNonce : M Unit := .perform (E := WalletSig) .unlockNonce

def reserveNonce (n : UInt64) : M Unit := .perform (E := WalletSig) (.reserveNonce n)

def resyncNonce (chainNonce : UInt64) : M Unit :=
  .perform (E := WalletSig) (.resyncNonce chainNonce)

def ethGetTransactionCount : M (Except GatewayError UInt64) :=
  .perform (E := WalletSig) .ethGetTransactionCount

def ethGasPrice : M (Except GatewayError UInt64) := .perform (E := WalletSig) .ethGasPrice

def signHash (hash : H256) : M (Except X402Error (UInt8 × H256 × H256)) :=
  .perform (E := WalletSig) (.signHash hash)

def ethSendRawTransaction (raw : Bytes) : M (Except GatewayError H256) :=
  .perform (E := WalletSig) (.ethSendRawTransaction raw)

end Operations

section Calls
variable (crypto : Crypto) (chainId : UInt64) (computePool : H160)

/-- `NonceManager::reserve`, seeded from the chain; the lock is held across the seed. -/
def reserve : M (Except GatewayError UInt64) := do
  match ← lockNonce with
  | some n =>
    reserveNonce n
    return .ok n
  | none =>
    match ← ethGetTransactionCount with
    | .error e =>
      unlockNonce
      return .error e
    | .ok n =>
      reserveNonce n
      return .ok n

def resync (chainNonce : UInt64) : M Unit := do
  let _ ← lockNonce
  resyncNonce chainNonce

def signSettlementTxWith (tx : SettlementTx) : M (Except X402Error Bytes) := do
  match ← signHash (crypto.keccak256 (encodeUnsignedRlp tx)) with
  | .error e => return .error e
  | .ok (recoveryId, r, s) =>
    return .ok (encodeSignedRlp tx (tx.chainId * 2 + 35 + recoveryId.toUInt64) r s)

def submitSigned (raw : Bytes) : M (Except GatewayError H256) := do
  match ← ethSendRawTransaction raw with
  | .ok h => return .ok h
  | .error e =>
    match ← ethGetTransactionCount with
    | .ok n =>
      resync n
      return .error e
    | .error _ => return .error e

def poolTx (nonce gasPrice : UInt64) (value : U256) (data : Bytes) : SettlementTx where
  chainId := chainId
  nonce := nonce
  gasPriceWei := gasPrice
  gasLimit := poolDispatchGas
  «to» := computePool
  value := value
  data := data

/-- Reserve a nonce, sign and submit: the part that both wallet calls share. -/
def submitPoolTx (what : String) (value : U256) (data : Bytes) :
    M (Except GatewayError H256) := do
  match ← reserve with
  | .error e => return .error e
  | .ok nonce =>
    let gasPrice ← ethGasPrice
    match ← signSettlementTxWith crypto
        (poolTx chainId computePool nonce (gasPrice.toOption.getD defaultGasPriceWei) value
          data) with
    | .error e => return .error (.internal ("sign " ++ what ++ ": " ++ e.display))
    | .ok raw => submitSigned raw

def dispatchPoolCompute (poolId : U256) (jobSpec : Slice) (maxPrice payment : U256) :
    M (Except GatewayError H256) := do
  match ← ethBlockNumber with
  | .error e => return .error e
  | .ok block =>
    match ← trySpend payment block with
    | .error e => return .error e
    | .ok () =>
      submitPoolTx crypto chainId computePool "pool dispatch" payment
        (encodeRequestPoolCompute crypto poolId jobSpec maxPrice)

def reclaimExpiredJob (jobId : U256) : M (Except GatewayError H256) :=
  submitPoolTx crypto chainId computePool "reclaim" 0 (encodeReclaimExpiredJob crypto jobId)

end Calls

section Wallet

/-- The chain's view of the operator account: the count it started from and the nonces of the
transactions it accepted. -/
structure Chain where
  base : Nat
  accepted : List Nat

/-- The end of the contiguous run of accepted nonces that starts at `n`. -/
def contiguousFrom (accepted : List Nat) : Nat → Nat → Nat
  | 0, n => n
  | fuel+1, n => if n ∈ accepted then contiguousFrom accepted fuel (n + 1) else n

def Chain.pendingCount (chain : Chain) : Nat :=
  contiguousFrom chain.accepted chain.accepted.length chain.base

structure WalletState where
  nonce : Option UInt64
  /-- The call that holds the nonce manager's lock. -/
  holder : Option Nat
  spendCap : SpendCap
  chain : Chain

/-- What the environment decides in a step: the answer it offers, and whether a submission
reached the chain although its answer was an error. -/
structure WalletInput where
  event : Event
  reached : Bool

inductive WalletCall where
  | dispatchPoolCompute (poolId : U256) (jobSpec : Slice) (maxPrice payment : U256)
  | reclaimExpiredJob (jobId : U256)

/-- Whether the chain took the transaction in: an accepted answer implies it. -/
def included (reached : Bool) : Except GatewayError H256 → Bool
  | .ok _ => true
  | .error _ => reached

def Chain.accept (chain : Chain) (raw : Bytes) : Chain :=
  match accountNonce raw with
  | some n => { chain with accepted := n :: chain.accepted }
  | none => chain

def handle (st : WalletState) (t : Nat) :
    (o : Op) → WalletInput → Option (o.Ans × WalletState)
  | .trySpend amount block, _ =>
    let r := st.spendCap.trySpend amount block
    some (r.1, { st with spendCap := r.2 })
  | .lockNonce, _ =>
    if st.holder = none then some (st.nonce, { st with holder := some t }) else none
  | .unlockNonce, _ => some ((), { st with holder := none })
  | .reserveNonce n, _ => some ((), { st with nonce := some (n + 1), holder := none })
  | .resyncNonce n, _ => some ((), { st with nonce := some n, holder := none })
  | .ethGetTransactionCount, c =>
    match System.offered (E := WalletSig) .ethGetTransactionCount c.event with
    | some (.error e) => some (.error e, st)
    | some (.ok n) =>
      if n.toNat = st.chain.pendingCount then some (.ok n, st) else none
    | none => none
  | .ethSendRawTransaction raw, c =>
    (System.offered (E := WalletSig) (.ethSendRawTransaction raw) c.event).map fun a =>
      (a, if included c.reached a then { st with chain := st.chain.accept raw } else st)
  | o, c => (System.offered (E := WalletSig) o c.event).map fun a => (a, st)

theorem handle_lockNonce {st sh : WalletState} {t : Nat} {c : WalletInput} {a : Option UInt64}
    (h : handle st t .lockNonce c = some (a, sh)) :
    st.holder = none ∧ st.nonce = a ∧ { st with holder := some t } = sh := by
  change (if st.holder = none then some (st.nonce, { st with holder := some t }) else none) =
    some (a, sh) at h
  split at h
  · rename_i hfree
    cases h
    exact ⟨hfree, rfl, rfl⟩
  · cases h

theorem handle_ethGetTransactionCount {st sh : WalletState} {t : Nat} {c : WalletInput}
    {a : Except GatewayError UInt64}
    (h : handle st t .ethGetTransactionCount c = some (a, sh)) :
    st = sh ∧ System.offered (E := WalletSig) .ethGetTransactionCount c.event = some a ∧
      ∀ n, a = .ok n → n.toNat = st.chain.pendingCount := by
  change (match System.offered (E := WalletSig) .ethGetTransactionCount c.event with
    | some (.error e) => some (.error e, st)
    | some (.ok n) => if n.toNat = st.chain.pendingCount then some (.ok n, st) else none
    | none => none) = some (a, sh) at h
  split at h
  · rename_i e hoffered
    cases h
    exact ⟨rfl, hoffered, nofun⟩
  · rename_i n hoffered
    split at h
    · rename_i hpending
      cases h
      refine ⟨rfl, hoffered, fun m hm => ?_⟩
      cases hm
      exact hpending
    · cases h
  · cases h

def leave (st : WalletState) (t : Nat) : WalletState :=
  if st.holder = some t then { st with holder := none } else st

/-- Any number of calls of one wallet. -/
abbrev wallet (crypto : Crypto) (chainId : UInt64) (computePool : H160) : System WalletSig where
  Shared := WalletState
  Job := WalletCall
  Res := Except GatewayError H256
  Input := WalletInput
  World := Empty
  prog
    | .dispatchPoolCompute poolId jobSpec maxPrice payment =>
      dispatchPoolCompute crypto chainId computePool poolId jobSpec maxPrice payment
    | .reclaimExpiredJob jobId => reclaimExpiredJob crypto chainId computePool jobId
  onStart := fun st _ => some st
  handle := handle
  leave := leave
  spawn := fun _ => none
  world := fun _ w => nomatch w
  halts := fun w => nomatch w

def WalletState.fresh (cap : SpendCap) (base : Nat) : WalletState := ⟨none, none, cap, ⟨base, []⟩⟩

end Wallet
end Signer
end Gateway
