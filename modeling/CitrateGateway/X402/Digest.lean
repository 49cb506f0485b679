import CitrateGateway.X402.Types

/-!
# Digests and challenges

The EIP-712 digest of a `TransferWithAuthorization`, the commitment to the request a
challenge is issued for, and the challenge itself.
-/

namespace X402
set_option autoImplicit false
open Words

section Digest
variable (crypto : Crypto)

def domainName : String := "Wrapped SALT"

def domainVersion : String := "1"

def eip712DomainType : String :=
  "EIP712Domain(string name,string version,uint256 chainId,address verifyingContract)"

def transferWithAuthorizationType : String :=
  "TransferWithAuthorization(address from,address to,uint256 value,uint256 validAfter," ++
    "uint256 validBefore,bytes32 nonce)"

/-- An address, left-padded to a 32-byte word. -/
def padLeftAddress (addr : H160) : Bytes := List.replicate 12 0 ++ wordBytes 20 addr

def wsaltDomainSeparator (chainId : UInt64) (verifyingContract : H160) : H256 :=
  crypto.keccak256
    (wordBytes 32 (crypto.keccak256 (utf8 eip712DomainType)) ++
      wordBytes 32 (crypto.keccak256 (utf8 domainName)) ++
      wordBytes 32 (crypto.keccak256 (utf8 domainVersion)) ++
      beBytes 32 chainId.toNat ++ padLeftAddress verifyingContract)

def transferWithAuthorizationStructHash («from» «to» : H160) (value validAfter validBefore : U256)
    (nonce : H256) : H256 :=
  crypto.keccak256
    (wordBytes 32 (crypto.keccak256 (utf8 transferWithAuthorizationType)) ++
      padLeftAddress «from» ++ padLeftAddress «to» ++ wordBytes 32 value ++
      wordBytes 32 validAfter ++ wordBytes 32 validBefore ++ wordBytes 32 nonce)

def eip712Digest (domainSeparator structHash : H256) : H256 :=
  crypto.keccak256
    ([0x19, 0x01] ++ wordBytes 32 domainSeparator ++ wordBytes 32 structHash)

end Digest

section Commitment

/-- What identifies the request that a payment authorizes. -/
structure RequestLine where
  method : String
  pathAndQuery : String
  deriving DecidableEq

def requestTag : String := "CITRATE-X402-REQUEST-V1"

def lenPrefixed (value : Bytes) : Bytes := beBytes 8 value.length ++ value

def commitmentPreimage (line : RequestLine) (body : Bytes) : Bytes :=
  utf8 requestTag ++ (lenPrefixed (utf8 line.method) ++
    (lenPrefixed (utf8 line.pathAndQuery) ++ lenPrefixed body))

def requestCommitment (crypto : Crypto) (line : RequestLine) (body : Bytes) : H256 :=
  crypto.keccak256 (commitmentPreimage line body)

theorem lenPrefixed_append_inj {a b rest rest' : Bytes} (ha : a.length < 2 ^ 64)
    (hb : b.length < 2 ^ 64) (h : lenPrefixed a ++ rest = lenPrefixed b ++ rest') :
    a = b ∧ rest = rest' := by
  simp only [lenPrefixed, List.append_assoc] at h
  obtain ⟨hlen, htail⟩ := List.append_inj h (by simp)
  have hlen' : a.length = b.length := beBytes_inj (by omega) (by omega) hlen
  exact List.append_inj htail hlen'

/-- The bytes hashed for a request of these parts. -/
def commitmentBytes (method path body : Bytes) : Bytes :=
  utf8 requestTag ++ (lenPrefixed method ++ (lenPrefixed path ++ lenPrefixed body))

/-- Parts whose lengths fit the prefixes. -/
def Framed (method path body : Bytes) : Prop :=
  method.length < 2 ^ 64 ∧ path.length < 2 ^ 64 ∧ body.length < 2 ^ 64

theorem commitmentBytes_inj {method path body method' path' body' : Bytes}
    (hframed : Framed method path body) (hframed' : Framed method' path' body')
    (h : commitmentBytes method path body = commitmentBytes method' path' body') :
    method = method' ∧ path = path' ∧ body = body' := by
  obtain ⟨hm, hp, hb⟩ := hframed
  obtain ⟨hm', hp', hb'⟩ := hframed'
  have htail := List.append_cancel_left h
  obtain ⟨hmethod, htail⟩ := lenPrefixed_append_inj hm hm' htail
  obtain ⟨hpath, htail⟩ := lenPrefixed_append_inj hp hp' htail
  rw [← List.append_nil (lenPrefixed body), ← List.append_nil (lenPrefixed body')] at htail
  obtain ⟨hbody, _⟩ := lenPrefixed_append_inj hb hb' htail
  exact ⟨hmethod, hpath, hbody⟩

/-- The length prefixes make the preimage unambiguous: different requests never share one. -/
theorem commitmentPreimage_inj {line line' : RequestLine} {body body' : Bytes}
    (hm : (utf8 line.method).length < 2 ^ 64) (hm' : (utf8 line'.method).length < 2 ^ 64)
    (hp : (utf8 line.pathAndQuery).length < 2 ^ 64)
    (hp' : (utf8 line'.pathAndQuery).length < 2 ^ 64)
    (hb : body.length < 2 ^ 64) (hb' : body'.length < 2 ^ 64)
    (h : commitmentPreimage line body = commitmentPreimage line' body') :
    line = line' ∧ body = body' := by
  obtain ⟨hmethod, hpath, hbody⟩ := commitmentBytes_inj ⟨hm, hp, hb⟩ ⟨hm', hp', hb'⟩ h
  cases line
  cases line'
  exact ⟨by simp only [RequestLine.mk.injEq]; exact ⟨utf8_inj hmethod, utf8_inj hpath⟩, hbody⟩

end Commitment

section Challenge
variable (crypto : Crypto)

structure ChallengeInputs where
  chainId : UInt64
  facilitator : H160
  wsalt : H160
  recipient : H160
  amountWei : U256
  payer : H160
  nonce : H256
  nowUnix : UInt64
  ttlSecs : UInt64
  requestCommitment : H256

structure BuiltChallenge where
  challenge : PaymentChallenge
  digest : H256

def saturatingAddU64 (a b : UInt64) : UInt64 :=
  if a.toNat + b.toNat < 2 ^ 64 then a + b else 0xffffffffffffffff

def hexAddr (addr : H160) : String := "0x" ++ hexEncode (wordBytes 20 addr)

def hexBytes32 (h : H256) : String := "0x" ++ hexEncode (wordBytes 32 h)

def buildChallenge (inputs : ChallengeInputs) : Except X402Error BuiltChallenge :=
  if inputs.amountWei = 0 then .error (.internal "challenge amount must be > 0")
  else if inputs.ttlSecs = 0 then .error (.internal "ttl must be > 0")
  else
    let validBefore := saturatingAddU64 inputs.nowUnix inputs.ttlSecs
    let structHash := transferWithAuthorizationStructHash crypto inputs.payer inputs.recipient
      inputs.amountWei (BitVec.ofNat 256 inputs.nowUnix.toNat)
      (BitVec.ofNat 256 validBefore.toNat) inputs.nonce
    let digest := eip712Digest crypto
      (wsaltDomainSeparator crypto inputs.chainId inputs.wsalt) structHash
    .ok {
      challenge := {
        version := 1
        facilitator := hexAddr inputs.facilitator
        token := hexAddr inputs.wsalt
        chainId := inputs.chainId
        amount := toDecStr inputs.amountWei
        nonce := hexBytes32 inputs.nonce
        validAfter := inputs.nowUnix
        validBefore := validBefore
        recipient := hexAddr inputs.recipient
        digest := hexBytes32 digest
        requestHash := hexBytes32 inputs.requestCommitment }
      digest := digest }

theorem buildChallenge_ok {inputs : ChallengeInputs} {built : BuiltChallenge}
    (h : buildChallenge crypto inputs = .ok built) :
    inputs.amountWei ≠ 0 ∧ inputs.ttlSecs ≠ 0 := by
  unfold buildChallenge at h
  split at h
  · cases h
  · split at h
    · cases h
    · rename_i hamount httl
      exact ⟨hamount, httl⟩

end Challenge
end X402
