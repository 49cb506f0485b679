import CitrateGateway.Shared.RlpDecode
import CitrateGateway.X402.Settlement

/-!
# The encoding of a settlement transaction

The numbers of a transaction are stripped of their leading zeros in three places, each by its
own loop. All three give the shortest form, so a canonical reader finds the nine fields as they
were written, and the bytes that are signed belong to one transaction only.
-/

namespace X402
set_option autoImplicit false
open Words

section Stripping

/-- The index where the loop over the zero bytes stops. -/
def firstNonzero (bytes : Bytes) (i : Nat) : Nat :=
  if h : i < bytes.length then
    if bytes[i] = 0 then firstNonzero bytes (i + 1) else i
  else i
termination_by bytes.length - i

def appendU64 (v : UInt64) : Bytes :=
  if v = 0 then []
  else
    let bytes := beBytes 8 v.toNat
    bytes.drop (firstNonzero bytes 0)

def appendU256 (v : U256) : Bytes :=
  if v = 0 then []
  else
    let buf := wordBytes 32 v
    buf.drop (firstNonzero buf 0)

def stripZeros (bytes : Bytes) : Bytes := bytes.drop (firstNonzero bytes 0)

theorem drop_firstNonzero (bytes : Bytes) (i : Nat) :
    bytes.drop (firstNonzero bytes i) = stripLeadingZeros (bytes.drop i) := by
  fun_induction firstNonzero bytes i with
  | case1 i hi hzero ih =>
    rw [ih, List.drop_eq_getElem_cons hi, hzero, stripLeadingZeros, if_pos rfl]
  | case2 i hi hzero =>
    rw [List.drop_eq_getElem_cons hi, stripLeadingZeros, if_neg hzero]
  | case3 i hi =>
    rw [List.drop_eq_nil_of_le (by omega), stripLeadingZeros]

theorem stripZeros_eq (bytes : Bytes) : stripZeros bytes = stripLeadingZeros bytes :=
  drop_firstNonzero bytes 0

theorem stripLeadingZeros_eq_nil {bytes : Bytes} (h : ofBeBytes bytes = 0) :
    stripLeadingZeros bytes = [] := by
  have hvalue := ofBeBytes_stripLeadingZeros bytes
  have hhead := stripLeadingZeros_head bytes
  cases hstrip : stripLeadingZeros bytes with
  | nil => rfl
  | cons b bs =>
    rw [hstrip] at hvalue hhead
    rw [ofBeBytes_cons, h] at hvalue
    have hpos : 0 < 256 ^ bs.length := Nat.pow_pos (by omega)
    have hb : b.toNat = 0 := by
      have hmul : b.toNat * 256 ^ bs.length = 0 := by omega
      rcases Nat.mul_eq_zero.1 hmul with hb | hpow
      · exact hb
      · omega
    exact absurd (congrArg some (UInt8.toNat_inj.1 hb)) (by simpa using hhead)

theorem appendU64_eq (v : UInt64) : appendU64 v = Rlp.natBytes v.toNat := by
  unfold appendU64
  split
  · rename_i h
    subst h
    decide
  · exact drop_firstNonzero _ 0

theorem appendU256_eq (v : U256) : appendU256 v = stripLeadingZeros (wordBytes 32 v) := by
  unfold appendU256
  split
  · rename_i h
    subst h
    decide
  · exact drop_firstNonzero _ 0

end Stripping

section Minimal

/-- The shortest big-endian form of a number. -/
structure Minimal (n : Nat) (item : Bytes) : Prop where
  value : ofBeBytes item = n
  noLeadingZero : item.head? ≠ some 0
  zero : n = 0 → item = []

theorem minimal_stripLeadingZeros (bytes : Bytes) :
    Minimal (ofBeBytes bytes) (stripLeadingZeros bytes) where
  value := ofBeBytes_stripLeadingZeros bytes
  noLeadingZero := stripLeadingZeros_head bytes
  zero := stripLeadingZeros_eq_nil

theorem minimal_appendU64 (n : UInt64) : Minimal n.toNat (appendU64 n) := by
  have h := minimal_stripLeadingZeros (beBytes 8 n.toNat)
  have hlt : n.toNat < 256 ^ 8 := n.toNat_lt
  rw [ofBeBytes_beBytes, Nat.mod_eq_of_lt hlt] at h
  rw [appendU64_eq]
  exact h

theorem ofBeBytes_wordBytes (x : U256) : ofBeBytes (wordBytes 32 x) = x.toNat := by
  have hlt : x.toNat < 256 ^ 32 := x.isLt
  rw [wordBytes, ofBeBytes_beBytes, Nat.mod_eq_of_lt hlt]

theorem minimal_appendU256 (x : U256) : Minimal x.toNat (appendU256 x) := by
  have h := minimal_stripLeadingZeros (wordBytes 32 x)
  rwa [ofBeBytes_wordBytes, ← appendU256_eq] at h

theorem minimal_stripZeros (x : H256) : Minimal x.toNat (stripZeros (wordBytes 32 x)) := by
  have h := minimal_stripLeadingZeros (wordBytes 32 x)
  rwa [ofBeBytes_wordBytes, ← stripZeros_eq] at h

theorem appendU64_inj {n m : UInt64} (h : appendU64 n = appendU64 m) : n = m := by
  have hvalue := (minimal_appendU64 n).value
  rw [h, (minimal_appendU64 m).value] at hvalue
  exact UInt64.toNat_inj.1 hvalue.symm

theorem appendU256_inj {x y : U256} (h : appendU256 x = appendU256 y) : x = y := by
  have hvalue := (minimal_appendU256 x).value
  rw [h, (minimal_appendU256 y).value] at hvalue
  exact BitVec.eq_of_toNat_eq hvalue.symm

end Minimal

section RecoveryByte

def eip155V (chainId : UInt64) (recoveryId : UInt8) : UInt64 :=
  chainId * 2 + 35 + recoveryId.toUInt64

variable {chainId chainId' : UInt64} {recoveryId recoveryId' : UInt8}

theorem eip155V_toNat (hchain : chainId.toNat < 2 ^ 63 - 18) (hrec : recoveryId.toNat ≤ 1) :
    (eip155V chainId recoveryId).toNat = 2 * chainId.toNat + 35 + recoveryId.toNat := by
  rw [eip155V, UInt64.toNat_add, UInt64.toNat_add, UInt64.toNat_mul, UInt8.toNat_toUInt64]
  have htwo : (2 : UInt64).toNat = 2 := rfl
  have hbase : (35 : UInt64).toNat = 35 := rfl
  rw [htwo, hbase]
  omega

theorem eip155V_inj (hchain : chainId.toNat < 2 ^ 63 - 18) (hrec : recoveryId.toNat ≤ 1)
    (hchain' : chainId'.toNat < 2 ^ 63 - 18) (hrec' : recoveryId'.toNat ≤ 1)
    (h : eip155V chainId recoveryId = eip155V chainId' recoveryId') :
    chainId = chainId' ∧ recoveryId = recoveryId' := by
  have hv := congrArg UInt64.toNat h
  rw [eip155V_toNat hchain hrec, eip155V_toNat hchain' hrec'] at hv
  constructor
  · apply UInt64.toNat_inj.1
    omega
  · apply UInt8.toNat_inj.1
    omega

end RecoveryByte

section Transactions
variable (tx : SettlementTx)

theorem SettlementTx.fields_eq :
    tx.fields = [appendU64 tx.nonce, appendU64 tx.gasPriceWei, appendU64 tx.gasLimit,
      wordBytes 20 tx.«to», appendU256 tx.value, tx.data] := by
  rw [SettlementTx.fields, appendU64_eq, appendU64_eq, appendU64_eq, appendU256_eq]

/-- The nine items of a signed transaction. -/
def SettlementTx.signedItems (v : UInt64) (r s : H256) : List Bytes :=
  [appendU64 tx.nonce, appendU64 tx.gasPriceWei, appendU64 tx.gasLimit, wordBytes 20 tx.«to»,
    appendU256 tx.value, tx.data, appendU64 v, stripZeros (wordBytes 32 r),
    stripZeros (wordBytes 32 s)]

/-- The nine items of a transaction that is to be signed. -/
def SettlementTx.unsignedItems : List Bytes :=
  [appendU64 tx.nonce, appendU64 tx.gasPriceWei, appendU64 tx.gasLimit, wordBytes 20 tx.«to»,
    appendU256 tx.value, tx.data, appendU64 tx.chainId, [], []]

theorem encodeSignedRlp_eq (v : UInt64) (r s : H256) :
    encodeSignedRlp tx v r s = Rlp.encodeList (tx.signedItems v r s) := by
  rw [encodeSignedRlp, tx.fields_eq, ← appendU64_eq, ← stripZeros_eq, ← stripZeros_eq]
  rfl

theorem encodeUnsignedRlp_eq : encodeUnsignedRlp tx = Rlp.encodeList tx.unsignedItems := by
  rw [encodeUnsignedRlp, tx.fields_eq, ← appendU64_eq]
  rfl

theorem flatMap_encodeString_length_le (items : List Bytes) :
    (items.flatMap Rlp.encodeString).length ≤ (items.map List.length).sum + 9 * items.length := by
  induction items with
  | nil => simp
  | cons item items ih =>
    have hitem := Rlp.encodeString_length_le item
    rw [List.flatMap_cons, List.length_append, List.map_cons, List.sum_cons, List.length_cons]
    omega

theorem appendU64_length_le (n : UInt64) : (appendU64 n).length ≤ 8 := by
  rw [appendU64_eq]
  exact Rlp.natBytes_length_le _

theorem strippedWord_length_le (x : U256) :
    (stripLeadingZeros (wordBytes 32 x)).length ≤ 32 := by
  have h := stripLeadingZeros_length_le (wordBytes 32 x)
  rwa [wordBytes_length] at h

variable {tx}

/-- Items of a transaction: six fields and three more that are at most a word each. -/
theorem transaction_length {a b c : Bytes} (ha : a.length ≤ 32) (hb : b.length ≤ 32)
    (hc : c.length ≤ 32) (hdata : tx.data.length < 2 ^ 63) :
    (([appendU64 tx.nonce, appendU64 tx.gasPriceWei, appendU64 tx.gasLimit,
      wordBytes 20 tx.«to», appendU256 tx.value, tx.data, a, b, c] : List Bytes).flatMap
        Rlp.encodeString).length < 2 ^ 64 := by
  have hle := flatMap_encodeString_length_le [appendU64 tx.nonce, appendU64 tx.gasPriceWei,
    appendU64 tx.gasLimit, wordBytes 20 tx.«to», appendU256 tx.value, tx.data, a, b, c]
  have hnonce := appendU64_length_le tx.nonce
  have hprice := appendU64_length_le tx.gasPriceWei
  have hlimit := appendU64_length_le tx.gasLimit
  have hvalue := strippedWord_length_le tx.value
  rw [← appendU256_eq] at hvalue
  simp only [List.map_cons, List.map_nil, List.sum_cons, List.sum_nil, List.length_cons,
    List.length_nil, wordBytes_length] at hle
  omega

theorem signedItems_length (v : UInt64) (r s : H256) (hdata : tx.data.length < 2 ^ 63) :
    ((tx.signedItems v r s).flatMap Rlp.encodeString).length < 2 ^ 64 := by
  have hv := appendU64_length_le v
  have hr := strippedWord_length_le r
  have hs := strippedWord_length_le s
  rw [← stripZeros_eq] at hr hs
  exact transaction_length (by omega) hr hs hdata

theorem unsignedItems_length (hdata : tx.data.length < 2 ^ 63) :
    (tx.unsignedItems.flatMap Rlp.encodeString).length < 2 ^ 64 := by
  have hchain := appendU64_length_le tx.chainId
  exact transaction_length (by omega) (by simp) (by simp) hdata

theorem encodeUnsignedRlp_inj {tx' : SettlementTx} (hdata : tx.data.length < 2 ^ 63)
    (hdata' : tx'.data.length < 2 ^ 63) (h : encodeUnsignedRlp tx = encodeUnsignedRlp tx') :
    tx = tx' := by
  rw [encodeUnsignedRlp_eq, encodeUnsignedRlp_eq] at h
  have hitems := Rlp.encodeList_inj (unsignedItems_length hdata) (unsignedItems_length hdata') h
  simp only [SettlementTx.unsignedItems, List.cons.injEq, and_true] at hitems
  obtain ⟨hnonce, hprice, hlimit, hto, hvalue, hbytes, hchain⟩ := hitems
  have hto := congrArg (ofWordBytes 160) hto
  rw [ofWordBytes_wordBytes (k := 20) rfl, ofWordBytes_wordBytes (k := 20) rfl] at hto
  cases tx
  cases tx'
  rw [SettlementTx.mk.injEq]
  exact ⟨appendU64_inj hchain, appendU64_inj hnonce, appendU64_inj hprice, appendU64_inj hlimit,
    hto, appendU256_inj hvalue, hbytes⟩

end Transactions

section Exact

/-- A signed settlement is the one byte string that a canonical reader takes for its nine
fields, its numbers are in their shortest form, its recovery byte tells the chain and the
signature's parity, and no other transaction shares the bytes that were signed. -/
theorem settlement_rlp_exact (tx : SettlementTx) (recoveryId : UInt8) (r s : H256)
    (hchain : tx.chainId.toNat < 2 ^ 63 - 18) (hrec : recoveryId.toNat ≤ 1)
    (hdata : tx.data.length < 2 ^ 63) :
    (∀ bs, Rlp.decodeList bs = some (tx.signedItems (eip155V tx.chainId recoveryId) r s) ↔
      bs = encodeSignedRlp tx (eip155V tx.chainId recoveryId) r s) ∧
    (∀ n : UInt64, Minimal n.toNat (appendU64 n)) ∧
    (∀ x : U256, Minimal x.toNat (appendU256 x)) ∧
    (∀ x : H256, Minimal x.toNat (stripZeros (wordBytes 32 x))) ∧
    (eip155V tx.chainId recoveryId).toNat = 2 * tx.chainId.toNat + 35 + recoveryId.toNat ∧
    (∀ (chainId' : UInt64) (recoveryId' : UInt8), chainId'.toNat < 2 ^ 63 - 18 →
      recoveryId'.toNat ≤ 1 → eip155V chainId' recoveryId' = eip155V tx.chainId recoveryId →
        chainId' = tx.chainId ∧ recoveryId' = recoveryId) ∧
    (∀ tx' : SettlementTx, tx'.data.length < 2 ^ 63 →
      encodeUnsignedRlp tx' = encodeUnsignedRlp tx → tx' = tx) ∧
    (∀ (crypto : Crypto) (secret : H256), crypto.signingKey secret = .ok () →
      crypto.signPrehash secret (crypto.keccak256 (encodeUnsignedRlp tx)) =
          .ok (recoveryId, r, s) →
        signSettlementTx crypto tx secret =
          .ok (encodeSignedRlp tx (eip155V tx.chainId recoveryId) r s)) := by
  refine ⟨?_, minimal_appendU64, minimal_appendU256, minimal_stripZeros,
    eip155V_toNat hchain hrec, ?_, ?_, ?_⟩
  · intro bs
    rw [encodeSignedRlp_eq]
    exact Rlp.decodeList_eq_some (signedItems_length _ r s hdata)
  · intro chainId' recoveryId' hchain' hrec' h
    exact eip155V_inj hchain' hrec' hchain hrec h
  · intro tx' hdata' h
    exact encodeUnsignedRlp_inj hdata' hdata h
  · intro crypto secret hkey hsign
    simp only [signSettlementTx, hkey, hsign]
    rfl

def sampleSettlement : SettlementTx where
  chainId := 40204
  nonce := 0
  gasPriceWei := 1000000000
  gasLimit := 300000
  «to» := 0x1111111111111111111111111111111111111111
  value := 0
  data := [0xde, 0xad]

theorem settlement_rlp_exact_sample :
    Rlp.decodeList (encodeSignedRlp sampleSettlement (eip155V 40204 1) 0x0102 0x80) =
        some (sampleSettlement.signedItems (eip155V 40204 1) 0x0102 0x80) ∧
      (eip155V 40204 1).toNat = 80444 := by
  have h := settlement_rlp_exact sampleSettlement 1 0x0102 0x80 (by decide) (by decide) (by decide)
  exact ⟨(h.1 _).2 rfl, h.2.2.2.2.1⟩

end Exact
end X402
