import CitrateGateway.Gateway.Error
import CitrateGateway.Shared.Words

/-!
# The addresses a provider may have

The endpoint of a provider is resolved once, every address it resolves to is judged, and the
request goes to the first one. An IPv6 address is judged by IPv6 ranges only.
-/

namespace Gateway
set_option autoImplicit false
open Words

abbrev Ipv4Addr := BitVec 32
abbrev Ipv6Addr := BitVec 128

inductive IpAddr where
  | v4 (ip : Ipv4Addr)
  | v6 (ip : Ipv6Addr)
  deriving DecidableEq

section Ranges

/-- One of the four bytes of an address, from the left. -/
def octet (ip : Ipv4Addr) (i : Nat) : Nat := ip.toNat / 2 ^ (8 * (3 - i)) % 256

def isPrivate (ip : Ipv4Addr) : Bool :=
  octet ip 0 = 10 || (octet ip 0 = 172 && 16 ≤ octet ip 1 && octet ip 1 ≤ 31) ||
    (octet ip 0 = 192 && octet ip 1 = 168)

def isLoopback (ip : Ipv4Addr) : Bool := octet ip 0 = 127

def isLinkLocal (ip : Ipv4Addr) : Bool := octet ip 0 = 169 && octet ip 1 = 254

def isBroadcast (ip : Ipv4Addr) : Bool := ip = BitVec.allOnes 32

def isDocumentation (ip : Ipv4Addr) : Bool :=
  (octet ip 0 = 192 && octet ip 1 = 0 && octet ip 2 = 2) ||
    (octet ip 0 = 198 && octet ip 1 = 51 && octet ip 2 = 100) ||
    (octet ip 0 = 203 && octet ip 1 = 0 && octet ip 2 = 113)

def isUnspecified (ip : Ipv4Addr) : Bool := ip = 0

def isMulticast (ip : Ipv4Addr) : Bool := 224 ≤ octet ip 0 && octet ip 0 ≤ 239

def isSharedAddressSpace (ip : Ipv4Addr) : Bool :=
  octet ip 0 = 100 && 64 ≤ octet ip 1 && octet ip 1 ≤ 127

def isBenchmarkingIp (ip : Ipv4Addr) : Bool :=
  octet ip 0 = 198 && (octet ip 1 = 18 || octet ip 1 = 19)

def ipv4ProviderAllowed (ip : Ipv4Addr) (allowPrivate : Bool) : Bool :=
  if allowPrivate && (isLoopback ip || isPrivate ip) then true
  else !(isPrivate ip || isLoopback ip || isLinkLocal ip || isBroadcast ip || isDocumentation ip ||
    isUnspecified ip || isMulticast ip || isSharedAddressSpace ip || isBenchmarkingIp ip)

/-- The first of the eight groups of an address. -/
def segment0 (ip : Ipv6Addr) : Nat := ip.toNat / 2 ^ 112

def isLoopback6 (ip : Ipv6Addr) : Bool := ip = 1

def isUniqueLocal (ip : Ipv6Addr) : Bool := segment0 ip / 2 ^ 9 = 0xfc00 / 2 ^ 9

def isUnicastLinkLocal (ip : Ipv6Addr) : Bool := segment0 ip / 2 ^ 6 = 0xfe80 / 2 ^ 6

def isUnspecified6 (ip : Ipv6Addr) : Bool := ip = 0

def isMulticast6 (ip : Ipv6Addr) : Bool := segment0 ip / 2 ^ 8 = 0xff00 / 2 ^ 8

def ipv6ProviderAllowed (ip : Ipv6Addr) (allowPrivate : Bool) : Bool :=
  if allowPrivate && (isLoopback6 ip || isUniqueLocal ip) then true
  else !(isLoopback6 ip || isUniqueLocal ip || isUnicastLinkLocal ip || isUnspecified6 ip ||
    isMulticast6 ip)

def isCloudMetadataIp : IpAddr → Bool
  | .v4 ip => ip = 0xa9fea9fe
  | .v6 ip => ip = 0xfd000ec2000000000000000000000254

def providerIpAllowed (ip : IpAddr) (allowPrivate : Bool) : Bool :=
  if isCloudMetadataIp ip then false
  else
    match ip with
    | .v4 ip => ipv4ProviderAllowed ip allowPrivate
    | .v6 ip => ipv6ProviderAllowed ip allowPrivate

end Ranges

section Endpoint

structure SocketAddr where
  ip : IpAddr
  port : UInt16
  deriving DecidableEq

/-- URLs as their package reads them, and the texts of addresses. -/
structure UrlFormat where
  Url : Type
  parse : String → Except String Url
  scheme : Url → String
  username : Url → String
  password : Url → Option String
  hostStr : Url → Option String
  portOrKnownDefault : Url → Option UInt16
  parseIp : String → Option IpAddr
  showIp : IpAddr → String

structure GuardedProviderEndpoint (Url : Type) where
  url : Url
  host : String
  pinnedAddr : SocketAddr

/-- A host without the brackets around an IPv6 address. -/
def trimBrackets (host : String) : String :=
  let rest := host.toList.dropWhile (· = '[')
  String.ofList (rest.reverse.dropWhile (· = ']')).reverse

def addressError (format : UrlFormat) (addr : SocketAddr) : GatewayError :=
  .providerUnavailable ("provider endpoint resolved to forbidden address " ++
    format.showIp addr.ip)

/-- The addresses of a host: the one it spells, or those that the name service answers. -/
def resolveHost (format : UrlFormat) (lookupHost : String → UInt16 → Except String (List SocketAddr))
    (host : String) (port : UInt16) : Except GatewayError (List SocketAddr) :=
  match format.parseIp host with
  | some ip => .ok [⟨ip, port⟩]
  | none =>
    match lookupHost host port with
    | .error e => .error (.providerUnavailable ("provider endpoint DNS lookup failed for " ++ host ++
        ": " ++ e))
    | .ok addrs => .ok addrs

/-- The endpoint with the first of its addresses, once every one of them was judged. -/
def pinEndpoint (format : UrlFormat) (allowPrivate : Bool) (url : format.Url) (host : String)
    (addrs : List SocketAddr) : Except GatewayError (GuardedProviderEndpoint format.Url) :=
  match addrs with
  | [] => .error (.providerUnavailable ("provider endpoint DNS lookup returned no addresses for " ++
      host))
  | pinned :: _ =>
    match addrs.find? fun addr => !providerIpAllowed addr.ip allowPrivate with
    | some addr => .error (addressError format addr)
    | none => .ok ⟨url, host, pinned⟩

def validateProviderEndpoint (format : UrlFormat)
    (lookupHost : String → UInt16 → Except String (List SocketAddr)) (endpoint : String)
    (allowPrivate : Bool) : Except GatewayError (GuardedProviderEndpoint format.Url) :=
  match format.parse endpoint with
  | .error e =>
    .error (.providerUnavailable ("provider endpoint is not a valid URL: " ++ e))
  | .ok url =>
    if format.scheme url ≠ "https" ∧ ¬ (format.scheme url = "http" ∧ allowPrivate) then
      .error (.providerUnavailable ("provider endpoint scheme \"" ++ format.scheme url ++
        "\" is not allowed"))
    else if format.username url ≠ "" ∨ (format.password url).isSome then
      .error (.providerUnavailable "provider endpoint must not contain credentials")
    else
      match format.hostStr url with
      | none => .error (.providerUnavailable "provider endpoint host is missing")
      | some hostStr =>
        match format.portOrKnownDefault url with
        | none => .error (.providerUnavailable "provider endpoint port is missing")
        | some port =>
          match resolveHost format lookupHost (trimBrackets hostStr) port with
          | .error e => .error e
          | .ok addrs => pinEndpoint format allowPrivate url (trimBrackets hostStr) addrs

end Endpoint

section Networks

/-- The addresses that begin with the bits of a base address. -/
structure Network where
  base : Ipv4Addr
  bits : Nat

def Network.Contains (n : Network) (ip : Ipv4Addr) : Prop :=
  ip.toNat / 2 ^ (32 - n.bits) = n.base.toNat / 2 ^ (32 - n.bits)

def privateNetworks : List Network :=
  [⟨0x0a000000, 8⟩, ⟨0xac100000, 12⟩, ⟨0xc0a80000, 16⟩]

def loopbackNetwork : Network := ⟨0x7f000000, 8⟩

/-- Link-local addresses, broadcast, the three networks for documentation, the unspecified
address, multicast, the shared and the benchmarking addresses. -/
def specialNetworks : List Network :=
  [⟨0xa9fe0000, 16⟩, ⟨0xffffffff, 32⟩, ⟨0xc0000200, 24⟩, ⟨0xc6336400, 24⟩, ⟨0xcb007100, 24⟩,
    ⟨0, 32⟩, ⟨0xe0000000, 4⟩, ⟨0x64400000, 10⟩, ⟨0xc6120000, 15⟩]

theorem private_iff (ip : Ipv4Addr) :
    isPrivate ip = true ↔ ∃ n ∈ privateNetworks, n.Contains ip := by
  have hlt := ip.isLt
  simp only [isPrivate, octet, privateNetworks, Network.Contains, List.mem_cons, List.not_mem_nil,
    or_false, exists_eq_or_imp, exists_eq_left, Bool.or_eq_true, Bool.and_eq_true,
    BitVec.reduceToNat]
  norm_num
  omega

theorem loopback_iff (ip : Ipv4Addr) : isLoopback ip = true ↔ loopbackNetwork.Contains ip := by
  have hlt := ip.isLt
  simp only [isLoopback, octet, loopbackNetwork, Network.Contains, BitVec.reduceToNat]
  norm_num
  omega

theorem special_iff (ip : Ipv4Addr) :
    (isLinkLocal ip || isBroadcast ip || isDocumentation ip || isUnspecified ip || isMulticast ip ||
      isSharedAddressSpace ip || isBenchmarkingIp ip) = true ↔
      ∃ n ∈ specialNetworks, n.Contains ip := by
  have hlt := ip.isLt
  have hones : ip = BitVec.allOnes 32 ↔ ip.toNat = 4294967295 := by
    rw [← BitVec.toNat_inj, BitVec.toNat_allOnes]
  have hzero : ip = 0 ↔ ip.toNat = 0 := by
    rw [← BitVec.toNat_inj]
    rfl
  simp only [isLinkLocal, isBroadcast, isDocumentation, isUnspecified, isMulticast,
    isSharedAddressSpace, isBenchmarkingIp, octet, specialNetworks, Network.Contains, List.mem_cons,
    List.not_mem_nil, or_false, exists_eq_or_imp, exists_eq_left, Bool.or_eq_true, or_assoc,
    Bool.and_eq_true, decide_eq_true_eq, BitVec.reduceToNat, hones, hzero]
  norm_num
  refine or_congr ?_ (or_congr ?_ (or_congr ?_ (or_congr ?_ (or_congr ?_ (or_congr ?_
    (or_congr ?_ (or_congr ?_ ?_)))))))
  all_goals omega

/-- The networks that a public provider cannot be in. -/
def forbiddenNetworks : List Network := loopbackNetwork :: privateNetworks ++ specialNetworks

theorem ipv4ProviderAllowed_public {ip : Ipv4Addr} (h : ipv4ProviderAllowed ip false = true) :
    ∀ n ∈ forbiddenNetworks, ¬ n.Contains ip := by
  simp only [ipv4ProviderAllowed, Bool.false_and, Bool.false_eq_true, if_false,
    Bool.not_eq_true', Bool.or_eq_false_iff] at h
  obtain ⟨⟨⟨⟨⟨⟨⟨⟨hprivate, hloopback⟩, hlink⟩, hbroadcast⟩, hdoc⟩, hunspecified⟩, hmulticast⟩,
    hshared⟩, hbench⟩ := h
  intro n hn hcontains
  rcases List.mem_cons.1 hn with rfl | hn
  · rw [(loopback_iff ip).2 hcontains] at hloopback
    cases hloopback
  · rcases List.mem_append.1 hn with hn | hn
    · rw [(private_iff ip).2 ⟨n, hn, hcontains⟩] at hprivate
      cases hprivate
    · have hspecial := (special_iff ip).2 ⟨n, hn, hcontains⟩
      simp only [hlink, hbroadcast, hdoc, hunspecified, hmulticast, hshared, hbench] at hspecial
      cases hspecial

end Networks

section Guard

/-- `::ffff:a`, which a host connects to over IPv4. -/
def mappedPrefix : BitVec 96 := 0xffff

/-- `64:ff9b::`, behind which a translator connects to the IPv4 address in the low bits. -/
def translationPrefix : BitVec 96 := 0x64ff9b0000000000000000

/-- The IPv4 destination that a connection to the address reaches. -/
def destination : IpAddr → Option Ipv4Addr
  | .v4 ip => some ip
  | .v6 ip =>
    if ip.toNat / 2 ^ 32 = mappedPrefix.toNat ∨ ip.toNat / 2 ^ 32 = translationPrefix.toNat then
      some (BitVec.ofNat 32 ip.toNat)
    else none

theorem destination_mapped (ip : Ipv4Addr) : destination (.v6 (mappedPrefix ++ ip)) = some ip := by
  have hlt := ip.isLt
  have hvalue : (mappedPrefix ++ ip).toNat = mappedPrefix.toNat * 2 ^ 32 + ip.toNat := by
    rw [BitVec.toNat_append, ← Nat.shiftLeft_add_eq_or_of_lt hlt, Nat.shiftLeft_eq]
  have hprefix : (mappedPrefix ++ ip).toNat / 2 ^ 32 = mappedPrefix.toNat := by
    omega
  have hlow : BitVec.ofNat 32 (mappedPrefix ++ ip).toNat = ip := by
    apply BitVec.eq_of_toNat_eq
    rw [BitVec.toNat_ofNat]
    omega
  rw [destination, if_pos (.inl hprefix), hlow]

/-- An address that the guard lets through is no spelling of a metadata address, leads to no IPv4
destination that the guard refuses, and in the public mode to none in a forbidden network. -/
def GuardHolds (allowPrivate : Bool) (ip : IpAddr) : Prop :=
  providerIpAllowed ip allowPrivate = true →
    isCloudMetadataIp ip = false ∧
    ∀ dest, destination ip = some dest →
      providerIpAllowed (.v4 dest) allowPrivate = true ∧ isCloudMetadataIp (.v4 dest) = false ∧
      (allowPrivate = false → ∀ n ∈ forbiddenNetworks, ¬ n.Contains dest)

/-- An endpoint that passes is pinned to an allowed address, one of those its host resolved to,
and all of these are allowed. -/
def EndpointHolds (format : UrlFormat)
    (lookupHost : String → UInt16 → Except String (List SocketAddr)) (endpoint : String)
    (allowPrivate : Bool) : Prop :=
  ∀ guarded, validateProviderEndpoint format lookupHost endpoint allowPrivate = .ok guarded →
    ∃ port addrs, resolveHost format lookupHost guarded.host port = .ok addrs ∧
      addrs.head? = some guarded.pinnedAddr ∧
      (∀ addr ∈ addrs, providerIpAllowed addr.ip allowPrivate = true) ∧
      providerIpAllowed guarded.pinnedAddr.ip allowPrivate = true

/-- No IPv6 range of the guard covers an address that leads to an IPv4 destination. -/
theorem providerIpAllowed_v6 {ip : Ipv6Addr} {dest : Ipv4Addr}
    (h : destination (.v6 ip) = some dest) (allowPrivate : Bool) :
    providerIpAllowed (.v6 ip) allowPrivate = true := by
  have hprefix : ip.toNat / 2 ^ 32 = 0xffff ∨ ip.toNat / 2 ^ 32 = 0x64ff9b0000000000000000 := by
    rw [destination] at h
    split at h
    · rename_i hprefix
      exact hprefix
    · cases h
  have hsegment : segment0 ip = 0 ∨ segment0 ip = 0x64 := by
    rw [segment0]
    omega
  have hmetadata : isCloudMetadataIp (.v6 ip) = false := by
    simp only [isCloudMetadataIp, decide_eq_false_iff_not, ← BitVec.toNat_inj, BitVec.reduceToNat]
    omega
  have hloopback : isLoopback6 ip = false := by
    simp only [isLoopback6, decide_eq_false_iff_not, ← BitVec.toNat_inj, BitVec.reduceToNat]
    omega
  have hunspecified : isUnspecified6 ip = false := by
    simp only [isUnspecified6, decide_eq_false_iff_not, ← BitVec.toNat_inj, BitVec.reduceToNat]
    omega
  have hlocal : isUniqueLocal ip = false := by
    rw [isUniqueLocal, decide_eq_false_iff_not]
    omega
  have hlink : isUnicastLinkLocal ip = false := by
    rw [isUnicastLinkLocal, decide_eq_false_iff_not]
    omega
  have hmulticast : isMulticast6 ip = false := by
    rw [isMulticast6, decide_eq_false_iff_not]
    omega
  simp [providerIpAllowed, ipv6ProviderAllowed, hmetadata, hloopback, hlocal, hlink, hunspecified,
    hmulticast]

theorem resolved_of_validated (format : UrlFormat)
    (lookupHost : String → UInt16 → Except String (List SocketAddr)) (endpoint : String)
    (allowPrivate : Bool) : EndpointHolds format lookupHost endpoint allowPrivate := by
  intro guarded h
  unfold validateProviderEndpoint at h
  split at h
  · cases h
  · split at h
    · cases h
    · split at h
      · cases h
      · split at h
        · cases h
        · split at h
          · cases h
          · rename_i port _
            split at h
            · cases h
            · rename_i addrs haddrs
              unfold pinEndpoint at h
              split at h
              · cases h
              · rename_i pinned rest
                split at h
                · cases h
                · rename_i hnone
                  cases h
                  have hall : ∀ addr ∈ pinned :: rest,
                      providerIpAllowed addr.ip allowPrivate = true := by
                    intro addr haddr
                    have hfound := List.find?_eq_none.1 hnone addr haddr
                    simpa using hfound
                  exact ⟨port, pinned :: rest, haddrs, rfl, hall, hall pinned (by simp)⟩

theorem ipv4_metadata {ip : Ipv4Addr} {allowPrivate : Bool}
    (h : ipv4ProviderAllowed ip allowPrivate = true) : isCloudMetadataIp (.v4 ip) = false := by
  by_contra hmetadata
  have hip : ip = 0xa9fea9fe := of_decide_eq_true (Bool.eq_true_of_not_eq_false hmetadata)
  subst hip
  cases allowPrivate with
  | true => revert h; decide
  | false => revert h; decide

theorem providerIpAllowed_v4 {ip : Ipv4Addr} {allowPrivate : Bool} :
    providerIpAllowed (.v4 ip) allowPrivate = true ↔ ipv4ProviderAllowed ip allowPrivate = true := by
  constructor
  · intro h
    unfold providerIpAllowed at h
    split at h
    · cases h
    · exact h
  · intro h
    rw [providerIpAllowed, ipv4_metadata h]
    exact h

theorem isCloudMetadataIp_of_allowed {ip : IpAddr} {allowPrivate : Bool}
    (h : providerIpAllowed ip allowPrivate = true) : isCloudMetadataIp ip = false := by
  unfold providerIpAllowed at h
  split at h
  · cases h
  · rename_i hnot
    exact Bool.eq_false_of_not_eq_true hnot

/-- What the guard must see to of an IPv4 destination. -/
theorem destination_sound {dest : Ipv4Addr} {allowPrivate : Bool}
    (h : ipv4ProviderAllowed dest allowPrivate = true) :
    providerIpAllowed (.v4 dest) allowPrivate = true ∧ isCloudMetadataIp (.v4 dest) = false ∧
      (allowPrivate = false → ∀ n ∈ forbiddenNetworks, ¬ n.Contains dest) := by
  refine ⟨providerIpAllowed_v4.2 h, ipv4_metadata h, ?_⟩
  rintro rfl
  exact ipv4ProviderAllowed_public h

/-- The mapped address of the metadata service, `::ffff:169.254.169.254`. -/
def mappedMetadata : IpAddr := .v6 (mappedPrefix ++ (0xa9fea9fe : Ipv4Addr))

theorem mappedMetadata_unguarded (allowPrivate : Bool) : ¬ GuardHolds allowPrivate mappedMetadata := by
  intro hguard
  have hdest : destination mappedMetadata = some 0xa9fea9fe := destination_mapped 0xa9fea9fe
  have hmetadata := ((hguard (providerIpAllowed_v6 hdest allowPrivate)).2 _ hdest).2.1
  cases hmetadata

end Guard
end Gateway
