import CitrateGateway.Shared.Base64
import CitrateGateway.X402.Client
import CitrateGateway.X402.SettleServe

/-!
# The handshake

A challenge that the layer minted, paid by the client and sent again with the same request while
it is good, passes the validation: the two sides derive the same digest, amounts, addresses,
nonce and window through every text and byte layout in between.
-/

namespace X402
set_option autoImplicit false
open Words Effects

section Execution

/-- A program run by itself over the ledger; the environment gives the answers that the ledger
does not. -/
def Exec (config : X402Config) (env : LayerSig.Event → Prop) {α : Type} :
    M α → LedgerState → α → LedgerState → Prop
  | .ret a, st, b, st' => b = a ∧ st' = st
  | .op o k, st, b, st' => ∃ e x st₁, handle config st o e = some (x, st₁) ∧ env ⟨o, x⟩ ∧
      Exec config env (k x) st₁ b st'

/-- A challenge is minted with this nonce at this time. -/
def MintedAt (nonce : H256) (minted : UInt64) : LayerSig.Event → Prop
  | ⟨.nextNonce, a⟩ => a = .ok nonce
  | ⟨.nowUnixSecs, t⟩ => t = minted
  | _ => True

/-- The signer that the precompile finds in its input: the recovered one of the digest of the
domain and the fields of the payload. -/
def transferAuthVerify (crypto : Crypto) (recover : H256 → UInt8 → H256 → H256 → Option H160)
    (input : Bytes) : Option H160 :=
  match PaymentPayload.parse (input.drop 32) with
  | .error _ => none
  | .ok p =>
    recover (eip712Digest crypto (ofWordBytes 256 (input.take 32))
      (transferWithAuthorizationStructHash crypto p.«from» p.«to» p.value p.validAfter
        p.validBefore p.nonce)) p.v p.r p.s

/-- The clock shows times in the window, and the chain answers for the precompile. -/
def RetriedWithin (crypto : Crypto) (recover : H256 → UInt8 → H256 → H256 → Option H160)
    (minted validBefore : UInt64) : LayerSig.Event → Prop
  | ⟨.nowUnixSecs, t⟩ => minted ≤ t ∧ t < validBefore
  | ⟨.verifyOffline input, a⟩ => a = .ok (transferAuthVerify crypto recover input)
  | _ => True

end Execution

section Laws

/-- What is encoded is decoded again, and holds no white space. -/
structure Base64 (crypto : ClientCrypto) : Prop where
  decode_encode : ∀ bs, crypto.base64Decode (crypto.base64Encode bs) = .ok bs
  no_whitespace : ∀ bs, ∀ b ∈ crypto.base64Encode bs, isWhitespace b = false

/-- A valid secret, which zero is not, signs every digest, and the address of the secret is
recovered from the signature. -/
structure Ecdsa (crypto : ClientCrypto) (recover : H256 → UInt8 → H256 → H256 → Option H160) :
    Prop where
  zero_invalid : deriveSecp256k1Address crypto 0 = none
  recovers : ∀ secret addr digest, deriveSecp256k1Address crypto secret = some addr →
    ∃ v r s, signDigestSecp256k1 crypto secret digest = .ok (v, r, s) ∧
      recover digest v r s = some addr

/-- The client reads the challenge that the server wrote. -/
structure Readable (format : ChallengeFormat) : Prop where
  challenge : ∀ challenge reason detail, ∃ envelope,
    format.get (format.paymentRequired challenge reason detail) "x402" = some envelope ∧
      format.challengeFromValue envelope = .ok challenge

end Laws

section Codecs
variable {crypto : ClientCrypto}

theorem stripHexPrefix_append (s : String) : stripHexPrefix ("0x" ++ s) = s.toList := by
  unfold stripHexPrefix
  rw [String.toList_append]
  rfl

theorem hexLoop_hexEncode (bs : Bytes) : hexLoop (hexEncode bs).toList = some bs := by
  rw [hexEncode, String.toList_ofList, hexLoop_hexDigits]

theorem parseAddrHex_hexAddr (addr : H160) : parseAddrHex crypto (hexAddr addr) = .ok addr := by
  rw [parseAddrHex, hexAddr, stripHexPrefix_append, hexLoop_hexEncode]
  simp [ofWordBytes_wordBytes]

theorem parseBytes32Hex_hexBytes32 (h : H256) :
    parseBytes32Hex crypto (hexBytes32 h) = .ok h := by
  rw [parseBytes32Hex, hexBytes32, stripHexPrefix_append, hexLoop_hexEncode]
  simp [ofWordBytes_wordBytes]

theorem dropWhile_of_no_whitespace {value : Bytes} (h : ∀ b ∈ value, isWhitespace b = false) :
    value.dropWhile isWhitespace = value := by
  cases value with
  | nil => rfl
  | cons b bs => rw [List.dropWhile_cons_of_neg (by simp [h b List.mem_cons_self])]

theorem trim_of_no_whitespace {value : Bytes} (h : ∀ b ∈ value, isWhitespace b = false) :
    trim value = value := by
  have hrev : ∀ b ∈ value.reverse, isWhitespace b = false := fun b hb =>
    h b (List.mem_reverse.1 hb)
  rw [trim, dropWhile_of_no_whitespace h, dropWhile_of_no_whitespace hrev, List.reverse_reverse]

/-- The layer reads back the payload that the client put into the header. -/
theorem decode_encode (hbase64 : Base64 crypto) (payload : PaymentPayload) :
    decode crypto.toCrypto (encode crypto payload) = .ok payload := by
  have htrim := trim_of_no_whitespace (hbase64.no_whitespace payload.toBytes)
  rw [decode, encode, htrim, hbase64.decode_encode]
  simp [PaymentPayload.parse_toBytes]

/-- The precompile is given the domain and the fields that were signed. -/
theorem transferAuthVerify_precompileInput
    (recover : H256 → UInt8 → H256 → H256 → Option H160) (config : X402Config)
    (payload : PaymentPayload) :
    transferAuthVerify crypto.toCrypto recover
        (precompileInput crypto.toCrypto config payload) =
      recover (eip712Digest crypto.toCrypto
        (wsaltDomainSeparator crypto.toCrypto config.chainId config.wsaltAddress)
        (transferWithAuthorizationStructHash crypto.toCrypto payload.«from» payload.«to»
          payload.value payload.validAfter payload.validBefore payload.nonce))
        payload.v payload.r payload.s := by
  have hdrop : (precompileInput crypto.toCrypto config payload).drop 32 = payload.toBytes := by
    rw [precompileInput]
    exact List.drop_left' (by simp)
  have htake : (precompileInput crypto.toCrypto config payload).take 32 =
      wordBytes 32 (wsaltDomainSeparator crypto.toCrypto config.chainId config.wsaltAddress) := by
    rw [precompileInput]
    exact List.take_left' (by simp)
  rw [transferAuthVerify, hdrop, htake, PaymentPayload.parse_toBytes, ofWordBytes_wordBytes]
  rfl

end Codecs

section Sides
variable {crypto : ClientCrypto} {config : X402Config} {format : ChallengeFormat}
variable {recover : H256 → UInt8 → H256 → H256 → Option H160}

/-- The challenge for an amount and a commitment, minted with a nonce at a time. -/
def mintedChallenge (crypto : ClientCrypto) (config : X402Config) (price : U256)
    (commitment nonce : H256) (minted : UInt64) : Except X402Error BuiltChallenge :=
  buildChallenge crypto.toCrypto {
    chainId := config.chainId
    facilitator := config.facilitatorAddress
    wsalt := config.wsaltAddress
    recipient := config.treasury
    amountWei := price
    payer := 0
    nonce := nonce
    nowUnix := minted
    ttlSecs := config.challengeTtlSecs
    requestCommitment := commitment }

/-- A challenge that was minted is the built one, and its nonce is recorded for the request. -/
theorem minted_of_exec {price : U256} {commitment nonce : H256} {minted : UInt64}
    {st st' : LedgerState} {challenge : PaymentChallenge}
    (h : Exec config (MintedAt nonce minted) (makeChallenge crypto.toCrypto config price commitment)
      st (.ok challenge) st') :
    (∃ built, mintedChallenge crypto config price commitment nonce minted = .ok built ∧
      built.challenge = challenge) ∧
    st' = st.recordBound config.maxOutstanding nonce commitment
      (minted + config.challengeTtlSecs) minted := by
  obtain ⟨e, x, st₁, hhandle, henv, h⟩ := h
  obtain ⟨a, -, heq⟩ := Option.map_eq_some_iff.1 hhandle
  cases heq
  cases henv
  obtain ⟨e, t, st₁, hhandle, henv, h⟩ := h
  obtain ⟨a, -, heq⟩ := Option.map_eq_some_iff.1 hhandle
  cases heq
  cases henv
  cases hbuilt : mintedChallenge crypto config price commitment nonce minted with
  | error e =>
    unfold mintedChallenge at hbuilt
    simp only [Prog.bind, hbuilt] at h
    cases h.1
  | ok built =>
    unfold mintedChallenge at hbuilt
    simp only [Prog.bind, hbuilt] at h
    obtain ⟨e, x, st₁, hhandle, -, h⟩ := h
    cases hhandle
    obtain ⟨heq, rfl⟩ := h
    cases heq
    exact ⟨⟨built, rfl, rfl⟩, rfl⟩

theorem exec_minted {price : U256} {commitment nonce : H256} {minted : UInt64}
    {built : BuiltChallenge} (st : LedgerState)
    (h : mintedChallenge crypto config price commitment nonce minted = .ok built) :
    Exec config (MintedAt nonce minted) (makeChallenge crypto.toCrypto config price commitment)
      st (.ok built.challenge) (st.recordBound config.maxOutstanding nonce commitment
        (minted + config.challengeTtlSecs) minted) := by
  unfold mintedChallenge at h
  refine ⟨⟨.nextNonce, .ok nonce⟩, .ok nonce, st, rfl, rfl, ?_⟩
  refine ⟨⟨.nowUnixSecs, minted⟩, minted, st, rfl, rfl, ?_⟩
  simp only [Prog.bind, h]
  exact ⟨⟨.nextNonce, .ok nonce⟩, (), _, rfl, trivial, rfl, rfl⟩

/-- What the fields of a minted challenge say. -/
theorem fields_of_minted {price : U256} {commitment nonce : H256} {minted : UInt64}
    {built : BuiltChallenge}
    (h : mintedChallenge crypto config price commitment nonce minted = .ok built)
    (hfits : minted.toNat + config.challengeTtlSecs.toNat < 2 ^ 64) :
    built.challenge.chainId = config.chainId ∧ built.challenge.amount = toDecStr price ∧
      built.challenge.recipient = hexAddr config.treasury ∧
      built.challenge.nonce = hexBytes32 nonce ∧ built.challenge.validAfter = minted ∧
      built.challenge.validBefore = minted + config.challengeTtlSecs := by
  unfold mintedChallenge buildChallenge at h
  split at h
  · cases h
  · split at h
    · cases h
    · cases h
      refine ⟨rfl, rfl, rfl, rfl, rfl, ?_⟩
      exact if_pos hfits

/-- The payment of a minted challenge. -/
def payment (client : X402Client) (config : X402Config) (price : U256) (nonce : H256)
    (minted : UInt64) (v : UInt8) (r s : H256) : PaymentPayload where
  «from» := client.payerAddress
  «to» := config.treasury
  value := price
  validAfter := BitVec.ofNat 256 minted.toNat
  validBefore := BitVec.ofNat 256 (minted + config.challengeTtlSecs).toNat
  nonce := nonce
  v := v
  r := r
  s := s

/-- The client signs for itself what the layer minted for nobody in particular. -/
theorem authorize_minted (client : X402Client) (hecdsa : Ecdsa crypto recover)
    (hpayer : deriveSecp256k1Address crypto client.secret = some client.payerAddress)
    (hchain : client.chainId = config.chainId) (hwsalt : client.wsaltAddress = config.wsaltAddress)
    {price : U256} (hcap : price ≤ client.budgetCapWei) {commitment nonce : H256}
    {minted : UInt64} {built : BuiltChallenge}
    (hbuilt : mintedChallenge crypto config price commitment nonce minted = .ok built)
    (hfits : minted.toNat + config.challengeTtlSecs.toNat < 2 ^ 64) :
    ∃ v r s, authorize crypto client built.challenge =
        .ok (payment client config price nonce minted v r s) ∧
      transferAuthVerify crypto.toCrypto recover (precompileInput crypto.toCrypto config
        (payment client config price nonce minted v r s)) = some client.payerAddress := by
  obtain ⟨hc, ha, hr, hn, hva, hvb⟩ := fields_of_minted hbuilt hfits
  obtain ⟨v, r, s, hsign, hrecover⟩ := hecdsa.recovers client.secret client.payerAddress
    (eip712Digest crypto.toCrypto
      (wsaltDomainSeparator crypto.toCrypto config.chainId config.wsaltAddress)
      (transferWithAuthorizationStructHash crypto.toCrypto client.payerAddress config.treasury
        price (BitVec.ofNat 256 minted.toNat)
        (BitVec.ofNat 256 (minted + config.challengeTtlSecs).toNat) nonce)) hpayer
  refine ⟨v, r, s, ?_, ?_⟩
  · have hbudget : ¬ client.budgetCapWei < price := BitVec.not_lt.2 hcap
    rw [authorize, if_neg (by rw [hc, hchain]; exact fun hne => hne rfl), ha,
      fromDecStr_toDecStr]
    simp only [if_neg hbudget, hr, hn, hva, hvb, hc, hwsalt, parseAddrHex_hexAddr,
      parseBytes32Hex_hexBytes32]
    change (signDigestSecp256k1 crypto client.secret _ >>= _) = _
    rw [hsign]
    rfl
  · rw [transferAuthVerify_precompileInput]
    exact hrecover

theorem toNat_ofNat_u64 (t : UInt64) : (BitVec.ofNat 256 t.toNat).toNat = t.toNat := by
  have := t.toNat_lt
  rw [BitVec.toNat_ofNat, Nat.mod_eq_of_lt (by omega)]

/-- What the validation of a payment rests on, besides the clock and the ledger. -/
structure Payable (crypto : ClientCrypto) (config : X402Config)
    (recover : H256 → UInt8 → H256 → H256 → Option H160) (minted validBefore : UInt64)
    (price : U256) (payload : PaymentPayload) : Prop where
  after : payload.validAfter.toNat = minted.toNat
  before : payload.validBefore.toNat = validBefore.toNat
  covers : price ≤ payload.value
  signed : transferAuthVerify crypto.toCrypto recover
    (precompileInput crypto.toCrypto config payload) = some payload.«from»
  treasury : payload.«to» = config.treasury

variable {minted validBefore : UInt64} {price : U256} {payload : PaymentPayload}
variable {header : Bytes} {commitment : H256} {st : LedgerState} {sequence : UInt64}

theorem consumed_of_lookup {t : UInt64}
    (hentry : st.entries.lookup payload.nonce = some ⟨validBefore, sequence, commitment⟩)
    (ht : t < validBefore) :
    ∃ st', st.consumeBound payload.nonce commitment t = (.ok (), st') := by
  have hlive : ¬ validBefore ≤ t := UInt64.not_le.2 ht
  unfold LedgerState.consumeBound
  simp only [hentry, if_neg hlive, ne_eq, not_true_eq_false, if_false]
  exact ⟨_, rfl⟩

/-- A good payment is validated, whatever the clock shows in its window. -/
theorem validated_of_exec (hpay : Payable crypto config recover minted validBefore price payload)
    (hdecode : decode crypto.toCrypto header = .ok payload)
    (hentry : st.entries.lookup payload.nonce = some ⟨validBefore, sequence, commitment⟩)
    {out : ValidateOutcome} {st' : LedgerState}
    (h : Exec config (RetriedWithin crypto.toCrypto recover minted validBefore)
      (validatePaidPath crypto.toCrypto config header price commitment) st out st') :
    out = .validated payload := by
  unfold validatePaidPath at h
  simp only [hdecode] at h
  obtain ⟨e, t, st₁, hhandle, ⟨hafter, hbefore⟩, h⟩ := h
  obtain ⟨a, -, heq⟩ := Option.map_eq_some_iff.1 hhandle
  cases heq
  have hwindow : ¬ (payload.validBefore.toNat ≤ t.toNat ∨ t.toNat < payload.validAfter.toNat) := by
    have h₁ := UInt64.le_iff_toNat_le.1 hafter
    have h₂ := UInt64.lt_iff_toNat_lt.1 hbefore
    rw [hpay.after, hpay.before]
    omega
  simp only [Prog.bind, if_neg hwindow] at h
  obtain ⟨e, t₂, st₁, hhandle, ⟨-, hbefore₂⟩, h⟩ := h
  obtain ⟨a, -, heq⟩ := Option.map_eq_some_iff.1 hhandle
  cases heq
  obtain ⟨e, x, st₁, hhandle, -, h⟩ := h
  obtain ⟨st₂, hconsume⟩ := consumed_of_lookup hentry hbefore₂
  have hcovers : ¬ payload.value < price := BitVec.not_lt.2 hpay.covers
  have hx : (x, st₁) = (.ok (), st₂) := (Option.some.inj hhandle).symm.trans hconsume
  cases hx
  simp only [Prog.bind, if_neg hcovers] at h
  obtain ⟨e, y, st₃, hhandle, hverify, h⟩ := h
  obtain ⟨a, -, heq⟩ := Option.map_eq_some_iff.1 hhandle
  cases heq
  cases hverify
  simp only [Prog.bind, hpay.signed, hpay.treasury, ne_eq, not_true_eq_false, if_false] at h
  exact h.1

theorem handle_verifyOffline (config : X402Config) (st : LedgerState) (input : Bytes)
    (a : Except X402Error (Option H160)) :
    handle config st (.verifyOffline input) ⟨.verifyOffline input, a⟩ = some (a, st) := by
  have hoffered := System.offered_self (E := LayerSig) (.verifyOffline input) a
  exact congrArg (Option.map fun a => (a, st)) hoffered

/-- And it is answered: the validation comes to its end. -/
theorem exec_validated (hpay : Payable crypto config recover minted validBefore price payload)
    (hdecode : decode crypto.toCrypto header = .ok payload)
    (hentry : st.entries.lookup payload.nonce = some ⟨validBefore, sequence, commitment⟩)
    {t : UInt64} (hafter : minted ≤ t) (hbefore : t < validBefore) :
    ∃ st', Exec config (RetriedWithin crypto.toCrypto recover minted validBefore)
      (validatePaidPath crypto.toCrypto config header price commitment) st
      (.validated payload) st' := by
  have hwindow : ¬ (payload.validBefore.toNat ≤ t.toNat ∨ t.toNat < payload.validAfter.toNat) := by
    have h₁ := UInt64.le_iff_toNat_le.1 hafter
    have h₂ := UInt64.lt_iff_toNat_lt.1 hbefore
    rw [hpay.after, hpay.before]
    omega
  have hcovers : ¬ payload.value < price := BitVec.not_lt.2 hpay.covers
  obtain ⟨st', hconsume⟩ := consumed_of_lookup hentry hbefore
  have hnow : handle config st .nowUnixSecs ⟨.nowUnixSecs, t⟩ = some (t, st) := rfl
  have hanswer := handle_verifyOffline config st'
    (precompileInput crypto.toCrypto config payload) (.ok (some payload.«from»))
  refine ⟨st', ?_⟩
  unfold validatePaidPath
  simp only [hdecode]
  refine ⟨_, t, st, hnow, ⟨hafter, hbefore⟩, ?_⟩
  simp only [Prog.bind, if_neg hwindow]
  refine ⟨_, t, st, hnow, ⟨hafter, hbefore⟩, ⟨.nowUnixSecs, t⟩, .ok (), st', ?_, trivial, ?_⟩
  · simp only [handle, hconsume]
  · simp only [Prog.bind, if_neg hcovers]
    refine ⟨_, _, st', hanswer, congrArg Except.ok hpay.signed.symm, ?_⟩
    simp only [Prog.bind, hpay.treasury, ne_eq, not_true_eq_false, if_false]
    exact ⟨rfl, rfl⟩

end Sides

section Handshake
variable {crypto : ClientCrypto} {config : X402Config} {format : ChallengeFormat}
variable {recover : H256 → UInt8 → H256 → H256 → Option H160}

/-- The entry that the minting made for the nonce was neither evicted nor consumed. -/
def StillIssued (st₀ st₁ st₂ : LedgerState) (nonce : H256) : Prop :=
  ∃ entry, st₀.entries.lookup nonce ≠ some entry ∧ st₁.entries.lookup nonce = some entry ∧
    st₂.entries.lookup nonce = some entry

theorem StillIssued.entry {st₀ st₁ st₂ : LedgerState} {nonce commitment : H256}
    {expiresAt now : UInt64} {maxOutstanding : Nat} (h : StillIssued st₀ st₁ st₂ nonce)
    (hrecord : st₁ = st₀.recordBound maxOutstanding nonce commitment expiresAt now) :
    ∃ sequence, st₂.entries.lookup nonce = some ⟨expiresAt, sequence, commitment⟩ := by
  obtain ⟨⟨expires, sequence, bound⟩, hnew, hissued, hkept⟩ := h
  rw [hrecord] at hissued
  rcases LedgerState.lookup_of_recordBound hissued with hold | ⟨-, rfl, rfl⟩
  · exact absurd hold hnew
  · exact ⟨sequence, hkept⟩

/-- A ledger that has room for a new nonce issues it. -/
theorem stillIssued_of_record (st : LedgerState) {nonce : H256} (commitment : H256)
    (expiresAt now : UInt64) {maxOutstanding : Nat} (hroom : maxOutstanding ≠ 0)
    (hfresh : st.entries.lookup nonce = none) :
    StillIssued st (st.recordBound maxOutstanding nonce commitment expiresAt now)
      (st.recordBound maxOutstanding nonce commitment expiresAt now) nonce := by
  have hissued : ∃ entry, (st.recordBound maxOutstanding nonce commitment expiresAt
      now).entries.lookup nonce = some entry := by
    rw [LedgerState.recordBound, if_neg hroom]
    exact ⟨_, AList.lookup_insert _⟩
  obtain ⟨entry, hentry⟩ := hissued
  refine ⟨entry, ?_, hentry, hentry⟩
  rw [hfresh]
  exact Option.some_ne_none entry ∘ Eq.symm

theorem tryNew_ok {secret : H256} {wsaltAddress facilitatorAddress : H160} {chainId : UInt64}
    {client : X402Client}
    (h : X402Client.tryNew crypto secret wsaltAddress facilitatorAddress chainId = .ok client) :
    client.secret = secret ∧ deriveSecp256k1Address crypto secret = some client.payerAddress ∧
      client.wsaltAddress = wsaltAddress ∧ client.chainId = chainId := by
  unfold X402Client.tryNew at h
  cases haddr : deriveSecp256k1Address crypto secret with
  | none =>
    rw [haddr] at h
    cases h
  | some addr =>
    rw [haddr] at h
    cases h
    exact ⟨rfl, rfl, rfl, rfl⟩

theorem parseChallenge_paymentRequired (hformat : Readable format) (challenge : PaymentChallenge)
    (reason detail : Option String) :
    parseChallenge format (format.paymentRequired challenge reason detail) = .ok challenge := by
  obtain ⟨envelope, hget, hvalue⟩ := hformat.challenge challenge reason detail
  simp only [parseChallenge, hget, hvalue]

/-- The client that is answered with a challenge sends its request again with the payment. -/
theorem sendPaid_challenged {client : X402Client} (hsecret : client.secret ≠ 0)
    (hformat : Readable format) {challenge : PaymentChallenge} {payload : PaymentPayload}
    (hauthorize : authorize crypto client challenge = .ok payload)
    (reason detail : Option String) :
    ∃ k₁ k₂, sendPaid crypto format client true = .op (.send none) k₁ ∧
      k₁ (.ok ⟨402, .ok (format.paymentRequired challenge reason detail)⟩) =
        .op (.send (some (encode crypto payload))) k₂ := by
  have hparse := parseChallenge_paymentRequired hformat challenge reason detail
  have hbuild : (parseChallenge format (format.paymentRequired challenge reason detail) >>=
      authorize crypto client) = .ok payload := by
    rw [hparse]
    exact hauthorize
  obtain ⟨k₂, hretry⟩ : ∃ k₂, payAndRetry crypto format client
      (format.paymentRequired challenge reason detail) =
        .op (.send (some (encode crypto payload))) k₂ := by
    unfold payAndRetry
    simp only [hbuild]
    exact ⟨_, rfl⟩
  unfold sendPaid
  rw [if_neg hsecret]
  exact ⟨_, k₂, rfl, hretry⟩

/-- The handshake is complete: what the client makes of a minted challenge is validated, at any
time before the challenge expires, for the same request at no higher a price, unless the nonce
is gone. -/
theorem handshake_complete (hbase64 : Base64 crypto) (hecdsa : Ecdsa crypto recover)
    (hformat : Readable format) {secret : H256} {facilitatorAddress : H160} {client : X402Client}
    (hclient : X402Client.tryNew crypto secret config.wsaltAddress facilitatorAddress
      config.chainId = .ok client)
    {capWei price priceNow : U256} (hcap : price ≤ capWei) (hprice : priceNow ≤ price)
    {line : RequestLine} {body : Bytes} {nonce : H256} {minted : UInt64}
    (hfits : minted.toNat + config.challengeTtlSecs.toNat < 2 ^ 64)
    {st₀ st₁ st₂ : LedgerState} {challenge : PaymentChallenge}
    (hmint : Exec config (MintedAt nonce minted)
      (makeChallenge crypto.toCrypto config price (requestCommitment crypto.toCrypto line body))
      st₀ (.ok challenge) st₁)
    (hissued : StillIssued st₀ st₁ st₂ nonce) (reason detail : Option String) :
    ∃ payload k₁ k₂,
      sendPaid crypto format (client.withBudgetCap capWei) true = .op (.send none) k₁ ∧
      k₁ (.ok ⟨402, .ok (format.paymentRequired challenge reason detail)⟩) =
        .op (.send (some (encode crypto payload))) k₂ ∧
      (∃ st₃, Exec config (RetriedWithin crypto.toCrypto recover minted
          (minted + config.challengeTtlSecs))
        (validatePaidPath crypto.toCrypto config (encode crypto payload) priceNow
          (requestCommitment crypto.toCrypto line body)) st₂ (.validated payload) st₃) ∧
      ∀ out st₃, Exec config (RetriedWithin crypto.toCrypto recover minted
          (minted + config.challengeTtlSecs))
        (validatePaidPath crypto.toCrypto config (encode crypto payload) priceNow
          (requestCommitment crypto.toCrypto line body)) st₂ out st₃ →
        out = .validated payload := by
  obtain ⟨⟨built, hbuilt, rfl⟩, hrecord⟩ := minted_of_exec hmint
  obtain ⟨sequence, hentry⟩ := hissued.entry hrecord
  obtain ⟨hsecret, haddr, hwsalt, hchain⟩ := tryNew_ok hclient
  obtain ⟨v, r, s, hauthorize, hsigned⟩ := authorize_minted (client.withBudgetCap capWei) hecdsa
    (by rw [← hsecret] at haddr; exact haddr) hchain hwsalt hcap hbuilt hfits
  have hnonzero : (client.withBudgetCap capWei).secret ≠ 0 := by
    intro hzero
    change client.secret = 0 at hzero
    rw [← hsecret, hzero, hecdsa.zero_invalid] at haddr
    cases haddr
  obtain ⟨k₁, k₂, hfirst, hsecond⟩ :=
    sendPaid_challenged hnonzero hformat hauthorize reason detail
  have hpay : Payable crypto config recover minted (minted + config.challengeTtlSecs) priceNow
      (payment (client.withBudgetCap capWei) config price nonce minted v r s) :=
    ⟨toNat_ofNat_u64 minted, toNat_ofNat_u64 _, hprice, hsigned, rfl⟩
  have hdecode := decode_encode hbase64
    (payment (client.withBudgetCap capWei) config price nonce minted v r s)
  have httl := (buildChallenge_ok crypto.toCrypto hbuilt).2
  have hbefore : minted < minted + config.challengeTtlSecs := by
    have hpos : config.challengeTtlSecs.toNat ≠ 0 := fun h => httl (UInt64.toNat_inj.1 h)
    rw [UInt64.lt_iff_toNat_lt, UInt64.toNat_add, Nat.mod_eq_of_lt hfits]
    omega
  exact ⟨_, k₁, k₂, hfirst, hsecond,
    exec_validated hpay hdecode hentry (UInt64.le_refl minted) hbefore,
    fun out st₃ h => validated_of_exec hpay hdecode hentry h⟩

/-- The digests of a handshake at `sampleConfig`, and of the key of its payer. -/
def handshakeDigests : List ((Nat × Nat) × H256) :=
  [((82, 21951), 0x8b73c3c69bb8fe3d512ecc4cf759cc79239f7b179b0ffacaa9a75d522b39400f),
   ((12, 34323), 0x2cbd45b14621663bba7ea806ea14c147f0e5c4571714e1bb0988c0c23d018fe1),
   ((1, 49), 0xc89efdaa54c0f20c7adf612882df0950f5a951637e0307cdcb4c672f298b8bc6),
   ((160, 13), 0xd2216448ec4072557d168180b8d1488440dd51ee373d77f60053fda684cb2497),
   ((117, 27713), 0x7c7c6cdb67a18743f49ec6fa9b35f50d52ed05cbed4cc592e13b44501c1a2267),
   ((224, 41489), 0xf441fd953e96575ca3dfdcde6cfa939560d7fe4e88125b4b112f745972bc421d),
   ((66, 20529), 0xfcaf544c745f210a66d0d511d7bb43af85fd75b43f952ea561c59222cf0bebce),
   ((224, 52338), 0x598ebf9788477fee8d3f51448961aa8cb6122e391104f5d59342d700c423e336),
   ((66, 47728), 0xbde151d076b3ed4851d8ebbf92d7ae38734d92248699a05c7810eab12543a2d1),
   ((64, 48789), 0x482845ef5f7df661eb71148970997970c51812dc3a010c7d01b50e0d17dc79c8),
   ((60, 14186), 0x78f0bbcca6f1854e24515a56920f8327d2cb0c55f3a618a3529097689b44774c)]

def payerSecret : H256 := 0x59c6995e998f97a5a0044966f0945389dc9e86dae88c7a8412f4603b6b78690d

def payerPoint : Bytes :=
  4 :: wordBytes 32
    (0xba5734d8f7091719471e7f7ed6b9df170dc70cc661ca05e688601ad984f068b0 : H256) ++
  wordBytes 32 (0xd67351e5f06073092499336ab0839ef8a521afd334e53807205fa2f08eec74f4 : H256)

def signedDigest : H256 := 0xbde151d076b3ed4851d8ebbf92d7ae38734d92248699a05c7810eab12543a2d1

def signedR : H256 := 0x35b6c0d8b6afd3e848388b05f685b60e889b72f51b16ed0d36c122354f3a4707

def signedS : H256 := 0x711149c87c6948b5ddc744e232fdb1a57a50988b43a7721e12307be083c81d6c

/-- The linked packages, on the inputs of the handshake below. -/
def handshakeCrypto : ClientCrypto where
  keccak256 := knownDigest handshakeDigests
  base64Decode value := (Words.base64Decode value).elim (.error "Invalid padding") .ok
  signingKey secret := if secret = 0 then .error "signature error" else .ok ()
  signPrehash secret digest :=
    if secret = payerSecret ∧ digest = signedDigest then .ok (1, signedR, signedS)
    else .ok (0, digest, secret)
  base64Encode := Words.base64Encode
  encodedPoint secret := if secret = payerSecret then payerPoint else List.replicate 65 0
  hexError _ := "Odd number of digits"
  decError _ := "dec string contains invalid character"

def handshakeRecover (digest : H256) (v : UInt8) (r s : H256) : Option H160 :=
  if digest = signedDigest ∧ v = 28 ∧ r = signedR ∧ s = signedS then
    deriveSecp256k1Address handshakeCrypto payerSecret
  else if r = digest then deriveSecp256k1Address handshakeCrypto s
  else none

inductive ChallengeJson where
  | body (challenge : PaymentChallenge) (reason detail : Option String)
  | envelope (challenge : PaymentChallenge)

def challengeJson : ChallengeFormat where
  Value := ChallengeJson
  get value key :=
    match value with
    | .body challenge _ _ => if key = "x402" then some (.envelope challenge) else none
    | .envelope _ => none
  challengeFromValue value :=
    match value with
    | .envelope challenge => .ok challenge
    | .body _ _ _ => .error "missing field"
  paymentRequired := .body

theorem isWhitespace_base64Digit (n : Nat) : isWhitespace (base64Digit n) = false := by
  by_cases hn : n < 64
  · have hall : ∀ m : Fin 64, isWhitespace (base64Digit m) = false := by decide +kernel
    exact hall ⟨n, hn⟩
  · have hlen : base64Alphabet.length = 64 := by decide +kernel
    rw [base64Digit, List.getD, List.getElem?_eq_none (by omega)]
    rfl

theorem base64_handshakeCrypto : Base64 handshakeCrypto := by
  constructor
  · intro bs
    change (Words.base64Decode (Words.base64Encode bs)).elim _ _ = _
    rw [base64Decode_encode]
    rfl
  · intro bs b hb
    obtain ⟨n, rfl⟩ := mem_base64Encode bs b hb
    exact isWhitespace_base64Digit n

theorem signs_handshakeCrypto {secret : H256} {addr : H160}
    (h : deriveSecp256k1Address handshakeCrypto secret = some addr) :
    handshakeCrypto.signingKey secret = .ok () := by
  unfold deriveSecp256k1Address at h
  split at h
  · cases h
  · assumption

theorem ecdsa_handshakeCrypto : Ecdsa handshakeCrypto handshakeRecover := by
  constructor
  · rfl
  · intro secret addr digest haddr
    have hkey := signs_handshakeCrypto haddr
    unfold signDigestSecp256k1
    simp only [hkey]
    by_cases hknown : secret = payerSecret ∧ digest = signedDigest
    · obtain ⟨rfl, rfl⟩ := hknown
      refine ⟨28, signedR, signedS, by rfl, ?_⟩
      rw [handshakeRecover, if_pos ⟨rfl, rfl, rfl, rfl⟩, haddr]
    · refine ⟨27, digest, secret, ?_, ?_⟩
      · simp only [handshakeCrypto, if_neg hknown]
        rfl
      · have hother : ¬ (digest = signedDigest ∧ (27 : UInt8) = 28 ∧ digest = signedR ∧
            secret = signedS) := by
          rintro ⟨-, hv, -⟩
          exact absurd hv (by decide)
        rw [handshakeRecover, if_neg hother, if_pos rfl, haddr]

theorem readable_challengeJson : Readable challengeJson := by
  constructor
  intro challenge reason detail
  exact ⟨.envelope challenge, rfl, rfl⟩

def sampleNonce : H256 := 0x4242424242424242424242424242424242424242424242424242424242424242

/-- A request of price five, challenged, paid and sent again. -/
theorem handshake_complete_sample :
    ∃ client challenge st payload k₁ k₂,
      X402Client.tryNew handshakeCrypto payerSecret sampleConfig.wsaltAddress
        sampleConfig.facilitatorAddress sampleConfig.chainId = .ok client ∧
      Exec sampleConfig (MintedAt sampleNonce 1714000000)
        (makeChallenge handshakeCrypto.toCrypto sampleConfig 5
          (requestCommitment handshakeCrypto.toCrypto sampleLine [])) .empty (.ok challenge) st ∧
      sendPaid handshakeCrypto challengeJson (client.withBudgetCap 10) true =
        .op (.send none) k₁ ∧
      k₁ (.ok ⟨402, .ok (challengeJson.paymentRequired challenge none none)⟩) =
        .op (.send (some (encode handshakeCrypto payload))) k₂ ∧
      ∃ st₃, Exec sampleConfig
        (RetriedWithin handshakeCrypto.toCrypto handshakeRecover 1714000000 1714000300)
        (validatePaidPath handshakeCrypto.toCrypto sampleConfig (encode handshakeCrypto payload) 5
          (requestCommitment handshakeCrypto.toCrypto sampleLine [])) st (.validated payload)
        st₃ := by
  have hderive : (deriveSecp256k1Address handshakeCrypto payerSecret).isSome = true := by
    decide +kernel
  obtain ⟨addr, haddr⟩ := Option.isSome_iff_exists.1 hderive
  have hclient : X402Client.tryNew handshakeCrypto payerSecret sampleConfig.wsaltAddress
      sampleConfig.facilitatorAddress sampleConfig.chainId = .ok ⟨payerSecret, addr,
        sampleConfig.wsaltAddress, sampleConfig.facilitatorAddress, sampleConfig.chainId,
        10 * 10 ^ 18⟩ := by
    rw [X402Client.tryNew, haddr]
  obtain ⟨built, hbuilt⟩ : ∃ built, mintedChallenge handshakeCrypto sampleConfig 5
      (requestCommitment handshakeCrypto.toCrypto sampleLine []) sampleNonce 1714000000 =
        .ok built := by
    unfold mintedChallenge buildChallenge
    rw [if_neg (by decide), if_neg (by decide)]
    exact ⟨_, rfl⟩
  have hmint := exec_minted .empty hbuilt
  have hissued := stillIssued_of_record .empty
    (requestCommitment handshakeCrypto.toCrypto sampleLine []) (1714000000 + 300) 1714000000
    (by decide : sampleConfig.maxOutstanding ≠ 0) (AList.lookup_empty sampleNonce)
  obtain ⟨payload, k₁, k₂, hfirst, hsecond, hexec, -⟩ := handshake_complete
    base64_handshakeCrypto ecdsa_handshakeCrypto readable_challengeJson hclient
    (by decide : (5 : U256) ≤ 10) (BitVec.le_refl _) (by decide) hmint hissued none none
  exact ⟨_, _, _, payload, k₁, k₂, hclient, hmint, hfirst, hsecond, hexec⟩

end Handshake
end X402
