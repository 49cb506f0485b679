import CitrateGateway.X402.Types
import CitrateGateway.X402.Digest
import CitrateGateway.Shared.Rlp

/-!
# The settlement transaction

The `settlePayment` calldata, the signed legacy transaction around it, and the event the
facilitator emits. `accountNonce` is how a chain reads the sender's nonce back from the raw
transaction.
-/

namespace X402
set_option autoImplicit false
open Words

section Calldata
variable (crypto : Crypto)

def settlePaymentSignature : String :=
  "settlePayment(address,address,uint256,uint256,uint256,bytes32,uint8,bytes32,bytes32)"

def settlePaymentSelector : Bytes :=
  (wordBytes 32 (crypto.keccak256 (utf8 settlePaymentSignature))).take 4

def encodeSettlePayment (payload : PaymentPayload) : Bytes :=
  settlePaymentSelector crypto ++ padLeftAddress payload.«from» ++
    padLeftAddress payload.«to» ++ wordBytes 32 payload.value ++
    wordBytes 32 payload.validAfter ++ wordBytes 32 payload.validBefore ++
    wordBytes 32 payload.nonce ++ (List.replicate 31 0 ++ [payload.v]) ++
    wordBytes 32 payload.r ++ wordBytes 32 payload.s

theorem encodeSettlePayment_length (payload : PaymentPayload) :
    (encodeSettlePayment crypto payload).length = 4 + 9 * 32 := by
  simp [encodeSettlePayment, settlePaymentSelector, padLeftAddress]

def paymentSettledTopic : H256 :=
  crypto.keccak256 (utf8 "PaymentSettled(address,address,uint256,uint256,bytes32)")

end Calldata

section Transaction
variable (crypto : Crypto)

structure SettlementTx where
  chainId : UInt64
  nonce : UInt64
  gasPriceWei : UInt64
  gasLimit : UInt64
  «to» : H160
  value : U256
  data : Bytes

/-- The six fields that the unsigned and the signed form share. -/
def SettlementTx.fields (tx : SettlementTx) : List Bytes :=
  [Rlp.natBytes tx.nonce.toNat, Rlp.natBytes tx.gasPriceWei.toNat,
    Rlp.natBytes tx.gasLimit.toNat, wordBytes 20 tx.«to»,
    stripLeadingZeros (wordBytes 32 tx.value), tx.data]

def encodeUnsignedRlp (tx : SettlementTx) : Bytes :=
  Rlp.encodeList (tx.fields ++ [Rlp.natBytes tx.chainId.toNat, [], []])

def encodeSignedRlp (tx : SettlementTx) (v : UInt64) (r s : H256) : Bytes :=
  Rlp.encodeList (tx.fields ++ [Rlp.natBytes v.toNat, stripLeadingZeros (wordBytes 32 r),
    stripLeadingZeros (wordBytes 32 s)])

def signSettlementTx (tx : SettlementTx) (operatorSecret : H256) : Except X402Error Bytes :=
  match crypto.signingKey operatorSecret with
  | .error e => .error (.internal ("invalid operator secret: " ++ e))
  | .ok () =>
    let sighash := crypto.keccak256 (encodeUnsignedRlp tx)
    match crypto.signPrehash operatorSecret sighash with
    | .error e => .error (.internal ("sign failed: " ++ e))
    | .ok (recoveryId, r, s) =>
      let v := tx.chainId * 2 + 35 + recoveryId.toUInt64
      .ok (encodeSignedRlp tx v r s)

/-- The account nonce of a raw transaction, its first field. -/
def accountNonce (raw : Bytes) : Option Nat := Rlp.firstNat raw

theorem accountNonce_encodeSignedRlp (tx : SettlementTx) (v : UInt64) (r s : H256)
    (hdata : tx.data.length < 2 ^ 64 - 1024) :
    accountNonce (encodeSignedRlp tx v r s) = some tx.nonce.toNat := by
  have hstrip : ∀ x : H256, (stripLeadingZeros (wordBytes 32 x)).length ≤ 32 := by
    intro x
    have := stripLeadingZeros_length_le (wordBytes 32 x)
    rwa [wordBytes_length] at this
  have hnat := Rlp.natBytes_length_le
  have henc := Rlp.encodeString_length_le
  simp only [encodeSignedRlp, SettlementTx.fields, List.cons_append, List.nil_append]
  apply Rlp.firstNat_encodeList tx.nonce.toNat_lt
  have h₁ := henc (Rlp.natBytes tx.gasPriceWei.toNat)
  have h₂ := henc (Rlp.natBytes tx.gasLimit.toNat)
  have h₃ := henc (wordBytes 20 tx.«to»)
  have h₄ := henc (stripLeadingZeros (wordBytes 32 tx.value))
  have h₅ := henc tx.data
  have h₆ := henc (Rlp.natBytes v.toNat)
  have h₇ := henc (stripLeadingZeros (wordBytes 32 r))
  have h₈ := henc (stripLeadingZeros (wordBytes 32 s))
  have n₁ := hnat tx.gasPriceWei.toNat
  have n₂ := hnat tx.gasLimit.toNat
  have n₆ := hnat v.toNat
  have s₄ := hstrip tx.value
  have s₇ := hstrip r
  have s₈ := hstrip s
  simp only [List.flatMap_cons, List.flatMap_nil, List.length_append, List.length_nil,
    wordBytes_length] at *
  omega

theorem accountNonce_of_signed {tx : SettlementTx} {secret : H256} {raw : Bytes}
    (hdata : tx.data.length < 2 ^ 64 - 1024) (h : signSettlementTx crypto tx secret = .ok raw) :
    accountNonce raw = some tx.nonce.toNat := by
  unfold signSettlementTx at h
  split at h
  · cases h
  · simp only at h
    split at h
    · cases h
    · cases h
      exact accountNonce_encodeSignedRlp tx _ _ _ hdata

end Transaction

section Receipt
variable (crypto : Crypto)

structure RawLog where
  address : H160
  topics : List H256
  data : Bytes
  deriving DecidableEq

structure TxReceipt where
  status : Bool
  blockNumber : UInt64
  logs : List RawLog
  deriving DecidableEq

structure PaymentSettledEvent where
  «from» : H160
  «to» : H160
  value : U256
  fee : U256
  nonce : H256
  deriving DecidableEq

/-- The low 20 bytes of an indexed address topic. -/
def topicAddress (topic : H256) : H160 := BitVec.ofNat 160 topic.toNat

def findPaymentSettled (receipt : TxReceipt) (facilitator : H160) :
    Option PaymentSettledEvent :=
  receipt.logs.findSome? fun log =>
    match log.topics with
    | topic0 :: topic1 :: topic2 :: _ =>
      if log.address = facilitator ∧ topic0 = paymentSettledTopic crypto ∧
          96 ≤ log.data.length then
        some {
          «from» := topicAddress topic1
          «to» := topicAddress topic2
          value := ofWordBytes 256 (takeField log.data 0 32)
          fee := ofWordBytes 256 (takeField log.data 32 32)
          nonce := ofWordBytes 256 (takeField log.data 64 32) }
      else none
    | _ => none

end Receipt
end X402
