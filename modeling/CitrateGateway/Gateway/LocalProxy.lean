import CitrateGateway.Gateway.BatchReads
import CitrateGateway.Gateway.GenerationBudget
import CitrateGateway.Gateway.IssuanceLimiter
import CitrateGateway.Gateway.ProxyKeys
import CitrateGateway.Gateway.Vault
import CitrateGateway.Shared.Semaphore

/-!
# The local proxy

Requests with a proxy key are charged to the key and forwarded to one of the upstreams; accounts
that the identity provider vouches for are issued member keys. A request holds one of its key's
slots and one of the upstream slots until its response is streamed or dropped. The key store is a
component with calls of its own: a handler begins a call and goes on when the call has returned.
-/

namespace Gateway.LocalProxy
set_option autoImplicit false
open Words Effects Durable
open KeyStore (ProxyMethod isMemberLabel)
open App (HeaderMap headerToStr)

section Requests

/-- The path of a request and what follows the question mark. -/
structure Uri where
  path : String
  query : Option String
  deriving DecidableEq

def Uri.pathAndQuery (u : Uri) : String :=
  match u.query with
  | none => u.path
  | some q => u.path ++ "?" ++ q

structure Request where
  method : String
  uri : Uri
  headers : HeaderMap

def remove (headers : HeaderMap) (name : String) : HeaderMap := headers.filter (·.1 ≠ name)

def hopByHop : List String :=
  ["connection", "keep-alive", "proxy-authenticate", "proxy-authorization", "te", "trailers",
    "transfer-encoding", "upgrade"]

def stripHopByHop (headers : HeaderMap) : HeaderMap := hopByHop.foldl remove headers

def extractBearer (headers : HeaderMap) : Option String :=
  App.extractBearer ((headers.get "authorization").bind headerToStr)

def sttTranscriptionsPath : String := "/v1/audio/transcriptions"

def defaultSttSubpath : String := "/v1/audio/transcriptions"

def allowedUpstreamPaths : List String :=
  ["/v1/chat/completions", "/v1/completions", "/v1/embeddings", "/v1/models",
    sttTranscriptionsPath]

def maxRequestBody : Nat := 8 * 1024 * 1024

def maxSttBody : Nat := 32 * 1024 * 1024

def isSttTranscriptions (method path : String) : Bool :=
  method = "POST" && path = sttTranscriptionsPath

def isGeneration (method path : String) : Bool :=
  method = "POST" && (path = "/v1/chat/completions" || path = "/v1/completions")

end Requests

section Paths

def hexValue (byte : UInt8) : Option UInt8 :=
  if 48 ≤ byte ∧ byte ≤ 57 then some (byte - 48)
  else if 97 ≤ byte ∧ byte ≤ 102 then some (byte - 97 + 10)
  else if 65 ≤ byte ∧ byte ≤ 70 then some (byte - 65 + 10)
  else none

/-- The byte that an escape with these digits stands for. -/
def unescape (high low : UInt8) : Option UInt8 := do
  let high ← hexValue high
  let low ← hexValue low
  return (high <<< 4) ||| low

def percentDecode : Bytes → Bytes
  | b :: high :: low :: rest =>
    if b = 37 then
      match unescape high low with
      | some byte => byte :: percentDecode rest
      | none => b :: percentDecode (high :: low :: rest)
    else b :: percentDecode (high :: low :: rest)
  | bytes => bytes

def percentDecodePath (path : String) : String := Vault.fromUtf8Lossy (percentDecode (utf8 path))

def containsDotSegment (path : String) : Bool :=
  ((percentDecodePath path).toList.splitOn '/').any fun segment =>
    segment = ['.'] || segment = ['.', '.']

def toAsciiLowercase (s : String) : String :=
  String.ofList (s.toList.map fun c => if 'A' ≤ c ∧ c ≤ 'Z' then Char.ofNat (c.toNat + 32) else c)

def contains (s pattern : String) : Bool := s.toList.tails.any pattern.toList.isPrefixOf

def pathIsUnsafe (path : String) : Bool :=
  contains path "\\" ||
    ["%2e", "%2f", "%5c"].any (contains (toAsciiLowercase path)) ||
    containsDotSegment path

end Paths

section State

/-- The operator's configuration of the issuance of member keys. -/
structure MemberKeyConfig extends MemberKeys.MemberKeyConfig where
  userinfoUrl : String
  quotaRps : UInt32
  dailyQuota : UInt64
  poolDaily : UInt64
  maxConcurrent : Nat
  baseUrl : String
  model : String
  trustForwardedFor : Bool

structure LocalProxyState where
  upstreams : List String
  embedUpstreams : List String
  sttUpstreams : List String
  sttSubpath : String
  maxTokens : UInt64
  maxConcurrentPerKey : Nat
  maxConcurrentUpstream : Nat
  memberKeys : Option MemberKeyConfig
  upstreams_ne : upstreams ≠ []
  maxTokens_pos : 0 < maxTokens.toNat
  perKey_pos : 0 < maxConcurrentPerKey
  upstream_pos : 0 < maxConcurrentUpstream

namespace LocalProxyState

def new (upstreams : List String) (h : upstreams ≠ []) : LocalProxyState where
  upstreams := upstreams
  embedUpstreams := []
  sttUpstreams := []
  sttSubpath := defaultSttSubpath
  maxTokens := 2048
  maxConcurrentPerKey := 4
  maxConcurrentUpstream := 32
  memberKeys := none
  upstreams_ne := h
  maxTokens_pos := by decide
  perKey_pos := by decide
  upstream_pos := by decide

def withMemberKeys (state : LocalProxyState) (cfg : MemberKeyConfig) : LocalProxyState :=
  { state with memberKeys := some cfg }

theorem max_one_pos (n : UInt64) : 0 < (max n 1).toNat := by
  have hle : (1 : UInt64) ≤ max n 1 := by
    rw [UInt64.max_def]
    split
    · exact UInt64.le_refl 1
    · rename_i h
      exact UInt64.le_of_lt (UInt64.not_le.1 h)
  exact UInt64.le_iff_toNat_le.1 hle

/-- A limit of zero is raised to one. -/
def withLimits (state : LocalProxyState) (maxTokens : UInt64)
    (maxConcurrentPerKey maxConcurrentUpstream : Nat) : LocalProxyState :=
  { state with
    maxTokens := max maxTokens 1
    maxConcurrentPerKey := max maxConcurrentPerKey 1
    maxConcurrentUpstream := max maxConcurrentUpstream 1
    maxTokens_pos := max_one_pos maxTokens
    perKey_pos := Nat.le_max_right _ _
    upstream_pos := Nat.le_max_right _ _ }

def withEmbedUpstreams (state : LocalProxyState) (embedUpstreams : List String) :
    LocalProxyState :=
  { state with embedUpstreams := embedUpstreams }

/-- A blank subpath keeps the one that is there. -/
def withStt (state : LocalProxyState) (sttUpstreams : List String) (sttSubpath : Option String) :
    LocalProxyState :=
  { state with
    sttUpstreams := sttUpstreams
    sttSubpath := (sttSubpath.filter fun s => !(trim s).isEmpty).getD state.sttSubpath }

/-- The in-flight requests that a key may have. -/
def concurrencyLimitFor (state : LocalProxyState) (label : String) : Nat :=
  match state.memberKeys with
  | some cfg =>
    if isMemberLabel label then max 1 (min cfg.maxConcurrent state.maxConcurrentPerKey)
    else state.maxConcurrentPerKey
  | none => state.maxConcurrentPerKey

theorem concurrencyLimitFor_pos (state : LocalProxyState) (label : String) :
    0 < state.concurrencyLimitFor label := by
  have hpos := state.perKey_pos
  unfold concurrencyLimitFor
  split
  · split
    · exact Nat.le_max_left _ _
    · exact hpos
  · exact hpos

theorem concurrencyLimitFor_le (state : LocalProxyState) (label : String) :
    state.concurrencyLimitFor label ≤ state.maxConcurrentPerKey := by
  have hpos := state.perKey_pos
  unfold concurrencyLimitFor
  split
  · split
    · omega
    · exact Nat.le_refl _
  · exact Nat.le_refl _

end LocalProxyState

/-- The packages that the handlers call, and the configuration. -/
structure Config where
  state : LocalProxyState
  hashKeyId : String → String
  format : JsonFormat
  sha256 : Bytes → Bytes
  /-- An address as it is written, where the text is one. -/
  parseIp : String → Option String

end State

section Signature

structure Outgoing where
  method : String
  url : String
  headers : HeaderMap
  body : Bytes
  deriving DecidableEq

/-- The head of an upstream's response. -/
structure UpstreamResponse where
  status : Nat
  headers : HeaderMap
  deriving DecidableEq

def UpstreamResponse.isServerError (r : UpstreamResponse) : Bool := 500 ≤ r.status && r.status < 600

/-- The identity provider's answer; a chunk that cannot be read is missing. -/
structure UserinfoResponse where
  status : Nat
  chunks : List (Option Bytes)
  deriving DecidableEq

inductive Op where
  /-- A call of the key store begins; its number is the answer. -/
  | begin (m : ProxyMethod)
  | await (m : ProxyMethod) (call : Nat)
  /-- The key's slots, which are there from its first request on. -/
  | keySlots (hash : String) (limit : Nat)
  | tryAcquireOwned (hash : String)
  | toBytes (limit : Nat)
  | requestUpstream
  /-- A permit, or nothing once the wait is over. -/
  | awaitUpstream
  | send (out : Outgoing)
  /-- What the upstream streams, as it is passed on to the client. -/
  | streamBody
  | ipBlocked (ip : String)
  | userinfo (url token : String)
  | reserve (account ip : String)
  deriving DecidableEq

abbrev Op.Ans : Op → Type
  | .begin _ => Nat
  | .await m _ => m.Ans
  | .keySlots _ _ | .requestUpstream => Unit
  | .tryAcquireOwned _ | .awaitUpstream => Bool
  | .toBytes _ => Except String Bytes
  | .send _ => Except String UpstreamResponse
  | .streamBody => List (Except String Bytes)
  | .ipBlocked _ => Option UInt64
  | .userinfo _ _ => Except String UserinfoResponse
  -- the clock is read while the limiter is locked
  | .reserve _ _ => UInt64 × Except UInt64 Unit

abbrev ProxySig : Sig := ⟨Op, Op.Ans⟩

abbrev Event := ProxySig.Event

abbrev M := Prog ProxySig

def call (m : ProxyMethod) : M m.Ans := do
  let n ← Prog.perform (E := ProxySig) (.begin m)
  Prog.perform (E := ProxySig) (.await m n)

def toBytes (limit : Nat) : M (Except String Bytes) := .perform (E := ProxySig) (.toBytes limit)

def send (out : Outgoing) : M (Except String UpstreamResponse) :=
  .perform (E := ProxySig) (.send out)

def streamBody : M (List (Except String Bytes)) := .perform (E := ProxySig) .streamBody

def ipBlocked (ip : String) : M (Option UInt64) := .perform (E := ProxySig) (.ipBlocked ip)

def userinfo (url token : String) : M (Except String UserinfoResponse) :=
  .perform (E := ProxySig) (.userinfo url token)

def reserve (account ip : String) : M (UInt64 × Except UInt64 Unit) :=
  .perform (E := ProxySig) (.reserve account ip)

/-- Wait for a permit, in the order of the asking. -/
def acquireUpstream : M Bool := do
  Prog.perform (E := ProxySig) .requestUpstream
  Prog.perform (E := ProxySig) .awaitUpstream

end Signature

section Responses

inductive Body where
  | error (message : String)
  | sttUnavailable
  | stream (items : List (Except String Bytes))
  | issued (key baseUrl model : String) (quotaRps : UInt32) (dailyRequests : UInt64)
  deriving DecidableEq

structure Response where
  status : Nat
  headers : HeaderMap
  body : Body
  deriving DecidableEq

def contentTypeJson : String × Bytes := ("content-type", utf8 "application/json")

def retryAfter (secs : UInt64) : String × Bytes := ("retry-after", utf8 (toString secs.toNat))

def jsonError (code : Nat) (msg : String) : Response := ⟨code, [contentTypeJson], .error msg⟩

def rateLimited (retryAfterSecs : UInt64) (msg : String) : Response :=
  ⟨429, [contentTypeJson, retryAfter retryAfterSecs], .error msg⟩

def sttUnavailable : Response := ⟨503, [contentTypeJson], .sttUnavailable⟩

/-- What a caller is told whose key could not be charged. -/
def refusal : ConsumeError → Response
  | .unknown => jsonError 401 "unknown api key"
  | .revoked => jsonError 401 "api key revoked"
  | .rateLimited secs => rateLimited secs "rate limit exceeded"
  | .dailyQuotaExceeded secs => rateLimited secs "daily quota exceeded"
  | .store _ => jsonError 500 "internal"
  | .crypt _ => jsonError 500 "internal"

end Responses

section Forwarding
variable (config : Config)

/-- The headers that go upstream: neither the caller's key, nor what belongs to one connection. -/
def forwardHeaders (headers : HeaderMap) : HeaderMap :=
  stripHopByHop (remove (remove (remove headers "authorization") "host") "content-length")

def responseHeaders (headers : HeaderMap) : HeaderMap :=
  remove (stripHopByHop headers) "content-length"

def maxBody (req : Request) : Nat :=
  if isSttTranscriptions req.method req.uri.path then maxSttBody else maxRequestBody

/-- The body that is forwarded. -/
def preparedBody (req : Request) (body : Bytes) : Except String Bytes :=
  if isGeneration req.method req.uri.path then
    clampGenerationBudget config.format body config.state.maxTokens
  else .ok body

def trimEndSlashes (s : String) : String :=
  String.ofList (s.toList.reverse.dropWhile (· = '/')).reverse

def isEmbeddings (path : String) : Bool :=
  ((path.toList.splitOn '/').getLast?).any (· = "embeddings".toList)

/-- The upstreams of a request and the subpath it is sent to, if that is not its own; nothing
where no upstream is configured. -/
def selectedUpstreams (state : LocalProxyState) (req : Request) :
    Option (List String × Option String) :=
  if isSttTranscriptions req.method req.uri.path then
    if state.sttUpstreams = [] then none else some (state.sttUpstreams, some state.sttSubpath)
  else if isEmbeddings req.uri.path && state.embedUpstreams ≠ [] then
    some (state.embedUpstreams, none)
  else some (state.upstreams, none)

def outgoing (req : Request) (subpath : Option String) (body : Bytes) (upstream : String) :
    Outgoing where
  method := req.method
  url := trimEndSlashes upstream ++ subpath.getD req.uri.pathAndQuery
  headers := forwardHeaders req.headers
  body := body

/-- The first response that is not a server error. -/
def tryUpstreams (out : String → Outgoing) : List String → M (Option UpstreamResponse)
  | [] => return none
  | upstream :: rest => do
    match ← send (out upstream) with
    | .ok r => if r.isServerError then tryUpstreams out rest else return some r
    | .error _ => tryUpstreams out rest

/-- The rest of a request that holds its key's slot. -/
def forward (req : Request) : M Response := do
  match ← toBytes (maxBody req) with
  | .error e => return jsonError 400 ("body read: " ++ e)
  | .ok bytes =>
    match preparedBody config req bytes with
    | .error msg => return jsonError 400 msg
    | .ok body =>
      if ← acquireUpstream then
        match selectedUpstreams config.state req with
        | none => return sttUnavailable
        | some (upstreams, subpath) =>
          match ← tryUpstreams (outgoing req subpath body) upstreams with
          | none => return jsonError 502 "upstream unreachable"
          | some r =>
            let items ← streamBody
            return ⟨r.status, responseHeaders r.headers, .stream items⟩
      else return jsonError 503 "upstream busy"

/-- Take one of the key's in-flight slots, if one is free. -/
def tryKeySlot (hash label : String) : M Bool := do
  Prog.perform (E := ProxySig) (.keySlots hash (config.state.concurrencyLimitFor label))
  Prog.perform (E := ProxySig) (.tryAcquireOwned hash)

def proxyHandler (req : Request) : M Response :=
  match extractBearer req.headers with
  | none => return jsonError 401 "missing api key"
  | some keyId =>
    if pathIsUnsafe req.uri.path then return jsonError 400 "path is not allowed"
    else if req.uri.path ∉ allowedUpstreamPaths then return jsonError 404 "unknown route"
    else do
      match ← call (.tryConsume keyId) with
      | .error e => return refusal e
      | .ok consumed =>
        if ← tryKeySlot config consumed.hash consumed.label then forward config req
        else return rateLimited 1 "too many concurrent requests for this api key"

end Forwarding

section Issuance
variable (config : Config)

inductive IdpVerdict where
  | subject (sub : String)
  | rejected
  | unavailable
  deriving DecidableEq

def maxUserinfoBody : Nat := 64 * 1024

/-- The body, unless it is longer than the cap or cannot be read. -/
def readCapped (cap : Nat) : Bytes → List (Option Bytes) → Option Bytes
  | out, [] => some out
  | out, some chunk :: chunks =>
    if cap < out.length + chunk.length then none else readCapped cap (out ++ chunk) chunks
  | _, none :: _ => none

def subjectOf (format : JsonFormat) (body : Bytes) : Option String :=
  match format.fromSlice body with
  | some (.object members) =>
    match members.lookup "sub" with
    | some (.string sub) => some sub
    | _ => none
  | _ => none

/-- What the provider's answer says of the token. -/
def idpVerdict (format : JsonFormat) : Except String UserinfoResponse → IdpVerdict
  | .error _ => .unavailable
  | .ok r =>
    if r.status = 401 ∨ r.status = 403 then .rejected
    else if ¬ (200 ≤ r.status ∧ r.status < 300) then .unavailable
    else
      match (readCapped maxUserinfoBody [] r.chunks).bind (subjectOf format) with
      | some sub => if (trim sub).isEmpty then .unavailable else .subject sub
      | none => .unavailable

/-- The account of a subject. -/
def subjectHash (sha256 : Bytes → Bytes) (sub : String) : String :=
  String.ofList ((hexEncode (sha256 (utf8 sub))).toList.take 16)

def unknownIp : String := "unknown"

/-- The address that a caller is counted under. -/
def clientIp (parseIp : String → Option String) (headers : HeaderMap) (trustForwardedFor : Bool) :
    String :=
  if trustForwardedFor then
    (do
      let value ← (headers.get "x-forwarded-for").bind headerToStr
      let first ← (value.toList.splitOn ',').head?
      parseIp (trim (String.ofList first))).getD unknownIp
  else unknownIp

def noStore : String × Bytes := ("cache-control", utf8 "no-store")

def memberKeyResponse (code : Nat) (body : Body) : Response :=
  ⟨code, [contentTypeJson, noStore], body⟩

def tooMany (retryAfterSecs : UInt64) (msg : String) : Response :=
  ⟨429, [contentTypeJson, noStore, retryAfter (max retryAfterSecs 1)], .error msg⟩

def memberKeyHandler (headers : HeaderMap) : M Response :=
  match config.state.memberKeys with
  | none => return memberKeyResponse 404 (.error "unknown route")
  | some cfg =>
    match extractBearer headers with
    | none => return memberKeyResponse 401 (.error "missing bearer token")
    | some token => do
      let ip := clientIp config.parseIp headers cfg.trustForwardedFor
      match ← ipBlocked ip with
      | some retry => return tooMany retry "too many key requests from this address"
      | none =>
        match idpVerdict config.format (← userinfo cfg.userinfoUrl token) with
        | .rejected => return memberKeyResponse 401 (.error "invalid token")
        | .unavailable => return memberKeyResponse 503 (.error "identity provider unavailable")
        | .subject sub =>
          let account := subjectHash config.sha256 sub
          match (← reserve account ip).2 with
          | .error retry => return tooMany retry "key issuance rate limit exceeded"
          | .ok () =>
            match ← call (.rotateMemberKey account cfg.quotaRps cfg.dailyQuota) with
            | .error _ => return memberKeyResponse 500 (.error "internal")
            | .ok key =>
              let body := Body.issued key cfg.baseUrl cfg.model cfg.quotaRps cfg.dailyQuota
              return memberKeyResponse 200 body

end Issuance

section Server
variable (config : Config)

structure Shared where
  keys : (KeyStore.proxyCalls config.hashKeyId).State
  perKeySlots : String → Option (Semaphore Nat)
  upstreamSlots : Semaphore Nat
  limiter : MemberKeys.IssuanceLimiter

/-- A proxy that starts over the rows of its store. -/
def Shared.booted (keys : (KeyStore.proxyCalls config.hashKeyId).State) : Shared config where
  keys := keys
  perKeySlots := fun _ => none
  upstreamSlots := .new config.state.maxConcurrentUpstream
  limiter := .empty

def Shared.opened (rows : Rows) : Shared config :=
  .booted config ((KeyStore.proxyCalls config.hashKeyId).init (KeyStore.Shared.opened rows))

/-- What the environment decides of one operation. -/
inductive Input where
  | ok
  | body (r : Except String Bytes)
  | timeout
  | upstream (r : Except String UpstreamResponse)
  | items (items : List (Except String Bytes))
  | userinfo (r : Except String UserinfoResponse)
  | secs (now : UInt64)
  deriving DecidableEq

variable {config}

/-- The answer of a call that has returned. -/
def returned (keys : (KeyStore.proxyCalls config.hashKeyId).State) (m : ProxyMethod) (n : Nat) :
    Option m.Ans :=
  match (keys.tasks[n]?).bind (·.prog) with
  | some (.ret r) => if h : r.1 = m then some (h ▸ r.2) else none
  | _ => none

def handle (sh : Shared config) (t : Nat) : (o : Op) → Input → Option (o.Ans × Shared config)
  | .begin m, .ok => some (sh.keys.tasks.length, { sh with keys := sh.keys.begin m sh.keys.shared })
  | .await m n, .ok => (returned sh.keys m n).map fun a => (a, sh)
  | .keySlots hash limit, .ok =>
    match sh.perKeySlots hash with
    | some _ => some ((), sh)
    | none => some ((), { sh with
        perKeySlots := Function.update sh.perKeySlots hash (some (.new limit)) })
  | .tryAcquireOwned hash, .ok => do
    let slots ← sh.perKeySlots hash
    match slots.tryAcquire t with
    | some slots => return (true, { sh with
        perKeySlots := Function.update sh.perKeySlots hash (some slots) })
    | none => return (false, sh)
  | .toBytes limit, .body (.ok bytes) => if bytes.length ≤ limit then some (.ok bytes, sh) else none
  | .toBytes _, .body (.error e) => some (.error e, sh)
  | .requestUpstream, .ok => some ((), { sh with upstreamSlots := sh.upstreamSlots.request t })
  | .awaitUpstream, .ok => if t ∈ sh.upstreamSlots.holders then some (true, sh) else none
  -- a permit that came in time is taken, also when the time is over
  | .awaitUpstream, .timeout =>
    if t ∈ sh.upstreamSlots.holders then none
    else some (false, { sh with upstreamSlots := sh.upstreamSlots.leave t })
  | .send _, .upstream r => some (r, sh)
  | .streamBody, .items items => some (items, sh)
  | .userinfo _ _, .userinfo r => some (r, sh)
  | .ipBlocked ip, .secs now =>
    config.state.memberKeys.map fun cfg =>
      (sh.limiter.ipBlocked ip now cfg.toMemberKeyConfig, sh)
  | .reserve account ip, .secs now =>
    config.state.memberKeys.map fun cfg =>
      let r := sh.limiter.reserve account ip now cfg.toMemberKeyConfig
      ((now, r.1), { sh with limiter := r.2 })
  | _, _ => none

/-- A request that has ended, or was dropped, gives its slots back. -/
def Shared.leave (sh : Shared config) (t : Nat) : Shared config :=
  { sh with
    perKeySlots := fun hash => (sh.perKeySlots hash).map (·.leave t)
    upstreamSlots := sh.upstreamSlots.leave t }

inductive Job where
  | proxy (req : Request)
  | memberKey (headers : HeaderMap)

variable (config) in
def Job.prog : Job → M Response
  | .proxy req => proxyHandler config req
  | .memberKey headers => memberKeyHandler config headers

/-- The calls that an operator makes. -/
def isOperatorCall : ProxyMethod → Bool
  | .createKey _ _ _ | .revoke _ | .revokeHash _ | .setMemberPoolDaily _ => true
  | .rotateMemberKey _ _ _ | .tryConsume _ => false

inductive World where
  /-- A call of the key store goes on. -/
  | keys (n : Nat) (c : KeyStore.Input)
  | operator (m : ProxyMethod)
  /-- The process stops and starts again, after losing the writes that the mask leaves out. -/
  | restart (mask : List Bool)

def turn (sh : Shared config) (w : World) : Option (Shared config) :=
  match w with
  | .keys n c =>
    ((KeyStore.proxyCalls config.hashKeyId).step sh.keys (.exec n c)).map fun keys =>
      { sh with keys := keys }
  | .operator m =>
    if isOperatorCall m then some { sh with keys := sh.keys.begin m sh.keys.shared } else none
  | .restart mask =>
    ((KeyStore.proxyCalls config.hashKeyId).step sh.keys (.world (.restart mask))).map fun keys =>
      .booted config keys

variable (config) in
abbrev server : System ProxySig where
  Shared := Shared config
  Job := Job
  Res := Response
  Input := Input
  World := World
  prog := Job.prog config
  onStart := fun sh _ => some sh
  handle := handle
  leave := Shared.leave
  spawn := fun _ => none
  world := turn
  halts := fun w => match w with
    | .restart _ => true
    | _ => false

variable (config) in
/-- The runs of a proxy that starts over the rows. -/
abbrev ServerRun (rows₀ : Rows)
    (ok : (server config).State → (server config).Action → Prop) :=
  System.Reach (server config) ok ((server config).init (.opened config rows₀))

end Server

section Handling
variable {config : Config}

/-- Everything one operation can answer, and what it does to the shared state. -/
inductive Handled (sh : Shared config) (t : Nat) : Sig.Event ProxySig → Shared config → Prop where
  | begin (m : ProxyMethod) : Handled sh t ⟨.begin m, sh.keys.tasks.length⟩
      { sh with keys := sh.keys.begin m sh.keys.shared }
  | await (m : ProxyMethod) (n : Nat) (a : m.Ans) (hreturned : returned sh.keys m n = some a) :
      Handled sh t ⟨.await m n, a⟩ sh
  | slots (hash : String) (limit : Nat) (slots : Semaphore Nat)
      (hslots : sh.perKeySlots hash = some slots) : Handled sh t ⟨.keySlots hash limit, ()⟩ sh
  | openSlots (hash : String) (limit : Nat) (hnone : sh.perKeySlots hash = none) :
      Handled sh t ⟨.keySlots hash limit, ()⟩ { sh with
        perKeySlots := Function.update sh.perKeySlots hash (some (.new limit)) }
  | acquire (hash : String) (slots slots' : Semaphore Nat)
      (hslots : sh.perKeySlots hash = some slots) (hsome : slots.tryAcquire t = some slots') :
      Handled sh t ⟨.tryAcquireOwned hash, true⟩ { sh with
        perKeySlots := Function.update sh.perKeySlots hash (some slots') }
  | full (hash : String) (slots : Semaphore Nat) (hslots : sh.perKeySlots hash = some slots)
      (hnone : slots.tryAcquire t = none) : Handled sh t ⟨.tryAcquireOwned hash, false⟩ sh
  | body (limit : Nat) (bytes : Bytes) (hlimit : bytes.length ≤ limit) :
      Handled sh t ⟨.toBytes limit, .ok bytes⟩ sh
  | noBody (limit : Nat) (e : String) : Handled sh t ⟨.toBytes limit, .error e⟩ sh
  | request : Handled sh t ⟨.requestUpstream, ()⟩
      { sh with upstreamSlots := sh.upstreamSlots.request t }
  | permit (hheld : t ∈ sh.upstreamSlots.holders) : Handled sh t ⟨.awaitUpstream, true⟩ sh
  | timeout (hnot : t ∉ sh.upstreamSlots.holders) : Handled sh t ⟨.awaitUpstream, false⟩
      { sh with upstreamSlots := sh.upstreamSlots.leave t }
  | send (out : Outgoing) (r : Except String UpstreamResponse) : Handled sh t ⟨.send out, r⟩ sh
  | stream (items : List (Except String Bytes)) : Handled sh t ⟨.streamBody, items⟩ sh
  | ipBlocked (ip : String) (now : UInt64) (cfg : MemberKeyConfig)
      (henabled : config.state.memberKeys = some cfg) :
      Handled sh t ⟨.ipBlocked ip, sh.limiter.ipBlocked ip now cfg.toMemberKeyConfig⟩ sh
  | userinfo (url token : String) (r : Except String UserinfoResponse) :
      Handled sh t ⟨.userinfo url token, r⟩ sh
  | reserve (account ip : String) (now : UInt64) (cfg : MemberKeyConfig)
      (henabled : config.state.memberKeys = some cfg) :
      Handled sh t
        ⟨.reserve account ip, (now, (sh.limiter.reserve account ip now cfg.toMemberKeyConfig).1)⟩
        { sh with limiter := (sh.limiter.reserve account ip now cfg.toMemberKeyConfig).2 }

variable {sh sh' : Shared config} {t : Nat} {o : Op} {c : Input} {a : o.Ans}

theorem handle_cases (h : handle sh t o c = some (a, sh')) : Handled sh t ⟨o, a⟩ sh' := by
  cases o with
  | await m n =>
    cases c with
    | ok =>
      obtain ⟨r, hreturned, heq⟩ := Option.map_eq_some_iff.1 h
      cases heq
      exact .await m n a hreturned
    | _ => cases h
  | keySlots hash limit =>
    cases c with
    | ok =>
      simp only [handle] at h
      split at h
      · rename_i slots hslots
        cases h
        exact .slots hash limit slots hslots
      · rename_i hnone
        cases h
        exact .openSlots hash limit hnone
    | _ => cases h
  | tryAcquireOwned hash =>
    cases c with
    | ok =>
      obtain ⟨slots, hslots, hrest⟩ := Option.bind_eq_some_iff.1 h
      split at hrest
      · rename_i slots' hsome
        cases hrest
        exact .acquire hash slots slots' hslots hsome
      · rename_i hnone
        cases hrest
        exact .full hash slots hslots hnone
    | _ => cases h
  | toBytes limit =>
    cases c with
    | body r =>
      cases r with
      | error e =>
        cases h
        exact .noBody limit e
      | ok bytes =>
        simp only [handle] at h
        split at h
        · rename_i hlimit
          cases h
          exact .body limit bytes hlimit
        · cases h
    | _ => cases h
  | awaitUpstream =>
    cases c with
    | ok =>
      simp only [handle] at h
      split at h
      · rename_i hheld
        cases h
        exact .permit hheld
      · cases h
    | timeout =>
      simp only [handle] at h
      split at h
      · cases h
      · rename_i hnot
        cases h
        exact .timeout hnot
    | _ => cases h
  | ipBlocked ip =>
    cases c with
    | secs now =>
      obtain ⟨cfg, henabled, heq⟩ := Option.map_eq_some_iff.1 h
      cases heq
      exact .ipBlocked ip now cfg henabled
    | _ => cases h
  | reserve account ip =>
    cases c with
    | secs now =>
      obtain ⟨cfg, henabled, heq⟩ := Option.map_eq_some_iff.1 h
      cases heq
      exact .reserve account ip now cfg henabled
    | _ => cases h
  | _ =>
    cases c <;> cases h
    constructor

end Handling
end Gateway.LocalProxy
