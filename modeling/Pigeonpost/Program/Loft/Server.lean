import Pigeonpost.Program.Loft.Store
import Pigeonpost.Program.Record

/-! # Publishing to and fetching from a loft (`pigeonpost-loft/src/server.rs`, `wire.rs`) -/

namespace Pigeonpost

/-! ## Loft configuration (`pigeonpost-loft/src/config.rs`, `server.rs`) -/

open Loft

namespace LoftConfig

def maxEventBytesLimit : ℕ := 2 * 1024 * 1024

def maxRequestBytesLimit : ℕ := maxEventBytesLimit + 64 * 1024

def maxCapacityBytes : ℕ := 1024 * 1024 * 1024 * 1024 * 1024

def maxRetentionDays : ℕ := 3650

def maxFetchLimitLimit : ℕ := 500

def maxFetchResponseBytesLimit : ℕ := 8 * 1024 * 1024

def maxRateLimitPerMinute : ℕ := 1000000

def maxGlobalRequestsPerMinute : ℕ := 10000000

def maxRateBytesPerMinute : ℕ := 1024 * 1024 * 1024 * 1024

def maxConcurrentConnectionsLimit : ℕ := 4096

def maxConcurrentRequestsLimit : ℕ := 4096

def maxBlockingOperationsLimit : ℕ := 256

def maxLimiterKeysLimit : ℕ := 65536

def maxRequestTimeoutSecs : ℕ := 300

def maxHeaderTimeoutSecs : ℕ := 300

def maxResponseTimeoutSecs : ℕ := 300

def maxTraceTimeoutMs : ℕ := 30000

def maxSweepBatch : ℕ := 10000

def maxSweepIntervalSecs : ℕ := 86400

def maxTrustedProxies : ℕ := 64

end LoftConfig

structure LoftConfig where
  pubkey : Bytes32
  origin : Bytes
  capacityBytes : ℕ
  retentionDays : ℕ
  maxEventBytes : ℕ
  maxRequestBytes : ℕ
  defaultFetchLimit : ℕ
  maxFetchLimit : ℕ
  maxFetchResponseBytes : ℕ
  rateLimitPerMinute : ℕ
  globalRequestsPerMinute : ℕ
  globalBytesPerMinute : ℕ
  sourceRequestsPerMinute : ℕ
  sourceBytesPerMinute : ℕ
  recipientBytesPerMinute : ℕ
  maxConcurrentConnections : ℕ
  maxConcurrentRequests : ℕ
  maxBlockingOperations : ℕ
  maxLimiterKeys : ℕ
  headerTimeoutSecs : ℕ
  requestTimeoutSecs : ℕ
  responseTimeoutSecs : ℕ
  traceTimeoutMs : ℕ
  trustedProxies : List IpAddr
  sweepBatch : ℕ
  sweepIntervalSecs : ℕ

/-- Zero or above a ceiling. -/
def outside (value ceiling : ℕ) : Bool := value = 0 || value > ceiling

def saturatingMul (a b : ℕ) : ℕ := min (a * b) (u64Limit - 1)

open LoftConfig in
def validateConfig (prim : Primitives) (urlText : Bytes → Bytes) (config : LoftConfig) :
    Except LoftError Unit := do
  (validateLoftOrigin prim urlText config.origin).mapError fun _ =>
    .configuration "invalid canonical loft origin"
  if outside config.capacityBytes maxCapacityBytes then
    throw (.configuration "capacity is outside supported bounds")
  if outside config.retentionDays maxRetentionDays then
    throw (.configuration "retention is outside supported bounds")
  let minimumRequestBytes := checkedAdd config.maxEventBytes (64 * 1024)
  if outside config.maxEventBytes maxEventBytesLimit
      || config.maxRequestBytes > maxRequestBytesLimit
      || minimumRequestBytes.all (config.maxRequestBytes < ·) then
    throw (.configuration "invalid event/request body limits")
  if config.maxFetchLimit = 0
      || config.defaultFetchLimit = 0
      || config.defaultFetchLimit > config.maxFetchLimit
      || config.maxFetchLimit > maxFetchLimitLimit
      || config.maxFetchResponseBytes > maxFetchResponseBytesLimit
      || config.maxFetchResponseBytes < saturatingMul config.maxEventBytes 2 then
    throw (.configuration "invalid fetch limits")
  if outside config.rateLimitPerMinute maxRateLimitPerMinute
      || outside config.globalRequestsPerMinute maxGlobalRequestsPerMinute
      || outside config.sourceRequestsPerMinute maxRateLimitPerMinute
      || outside config.globalBytesPerMinute maxRateBytesPerMinute
      || outside config.sourceBytesPerMinute maxRateBytesPerMinute
      || outside config.recipientBytesPerMinute maxRateBytesPerMinute then
    throw (.configuration "invalid request-rate limits")
  if outside config.maxConcurrentConnections maxConcurrentConnectionsLimit
      || outside config.maxConcurrentRequests maxConcurrentRequestsLimit
      || outside config.maxBlockingOperations maxBlockingOperationsLimit
      || outside config.maxLimiterKeys maxLimiterKeysLimit then
    throw (.configuration "admission limits are outside supported bounds")
  if outside config.headerTimeoutSecs maxHeaderTimeoutSecs
      || outside config.requestTimeoutSecs maxRequestTimeoutSecs
      || outside config.responseTimeoutSecs maxResponseTimeoutSecs
      || outside config.traceTimeoutMs maxTraceTimeoutMs
      || config.traceTimeoutMs > saturatingMul config.requestTimeoutSecs 1000
      || outside config.sweepBatch maxSweepBatch
      || outside config.sweepIntervalSecs maxSweepIntervalSecs then
    throw (.configuration "timeouts and retention work limits are outside supported bounds")
  if config.trustedProxies.length > maxTrustedProxies
      || config.trustedProxies.any (fun address => address.isUnspecified || address.isMulticast)
      then
    throw (.configuration "invalid trusted proxy list")

structure PublishRequest where
  wrap : Wrap
  token : Option Bytes

structure FetchRequest where
  auth : FetchAuth
  limit : Option ℕ

structure FetchResponse where
  events : List Wrap
  nextCursor : ℕ
  more : Bool

/-- The response as `serde_json` writes it. -/
def FetchResponse.toJson (attribution : AttributionBlock → Bytes) (response : FetchResponse) :
    Option Bytes := do
  let events ← response.events.mapM (Wrap.toJson attribution)
  return Json.object
    [Json.member "events" (Json.array events),
      Json.member "next_cursor" (Json.number response.nextCursor),
      Json.member "more" (Json.boolean response.more)]

structure ServerContext extends LoftContext where
  /-- The text of a parsed URL. -/
  urlText : Bytes → Bytes
  readPublish : Bytes → Option PublishRequest

structure PreparedPublish (H : Type) where
  wrap : Wrap
  token : Option Bytes
  encodedSize : ℕ
  id : H

section Publish

variable {H : Type} [Sha256 H] [DecidableEq H] (ctx : ServerContext)

def preparePublish (H : Type) [Sha256 H] (body : Bytes) (maxEventBytes : ℕ) :
    Except LoftError (PreparedPublish H) := do
  let request ← okOr (ctx.readPublish body)
    (.core (.malformedEnvelope "invalid publish request"))
  let encoded ← okOr (request.wrap.toJson ctx.json.attribution) .serialization
  if encoded.length > maxEventBytes then throw (.core .tooLarge)
  (request.wrap.verifyPublic ctx.prim).mapError .core
  return ⟨request.wrap, request.token, encoded.length, request.wrap.id H⟩

/-- One pass of the admission loop, with the policy sequence its policy checks returned. -/
def publish (config : LoftConfig) (store : LoftStore H) (body : Bytes) (now : ℕ)
    (expectedSeq : Option UInt64) : Except LoftError (LoftStore H × Bool) := do
  let prepared ← preparePublish ctx H body config.maxEventBytes
  let expiresAt ← okOr
    (if config.retentionDays * 86400 < u64Limit then
      checkedAdd now (config.retentionDays * 86400) else none) (.core .tooLarge)
  store.admitEvent ctx.toLoftContext prepared.wrap prepared.id now expiresAt
    config.capacityBytes expectedSeq

end Publish

/-! ## Fetching -/

/-- How many events a page may hold. -/
def LoftConfig.pageLimit (config : LoftConfig) (limit : Option ℕ) : ℕ :=
  let requestedLimit := min (max (limit.getD config.defaultFetchLimit) 1) config.maxFetchLimit
  let byteLimited := max (config.maxFetchResponseBytes / config.maxEventBytes - 1) 1
  min requestedLimit byteLimited

section Fetch

variable {H : Type} (ctx : ServerContext) (config : LoftConfig)

def fetchResponse (store : LoftStore H) (recipient : Bytes32) (cursor : ℕ)
    (requested : Option ℕ) : Except LoftError FetchResponse := do
  let limit := config.pageLimit requested
  let events ← store.fetch ctx.toLoftContext recipient cursor (limit + 1)
  let page := events.take limit
  return ⟨page.map Prod.snd, (page.getLast?.map Prod.fst).getD cursor, events.length > limit⟩

def encodeResponse (response : FetchResponse) : Except LoftError Bytes := do
  let encoded ← okOr (response.toJson ctx.json.attribution) .serialization
  if encoded.length > config.maxFetchResponseBytes then throw (.core .tooLarge)
  return encoded

/-- The handler, without traces and rate limits. -/
def fetch (store : LoftStore H) (request : FetchRequest) (nowMinute : ℕ) :
    Except LoftError Bytes := do
  let owner ← (request.auth.verify ctx.prim ctx.urlText config.pubkey config.origin
    nowMinute).mapError .core
  let response ← fetchResponse ctx config store owner request.auth.cursor.toNat request.limit
  encodeResponse ctx config response

end Fetch

/-! ## The source of a request -/

namespace Loft

structure Peer where
  connected : Option SocketAddr
  forwarded : Option Bytes
  xForwardedForPresent : Bool
  effectiveSource : Option SocketAddr

/-- The white space that a header value may hold. -/
def isHeaderSpace (b : UInt8) : Bool := b == 0x20 || b == 0x09

def trim (text : Bytes) : Bytes :=
  ((text.dropWhile isHeaderSpace).reverse.dropWhile isHeaderSpace).reverse

/-- `HeaderValue::to_str`. -/
def headerToStr (value : Bytes) : Option Bytes :=
  if value.all fun b => (0x20 ≤ b && b < 0x7f) || b == 0x09 then some value else none

section

variable (parseSocketAddr : Bytes → Option SocketAddr)

def parseForwardedSocket (value : Bytes) : Except LoftError SocketAddr := do
  let value ← if value.head? = some 0x22 ∧ value.getLast? = some 0x22 ∧ value.length ≥ 2 then
      .ok (value.drop 1).dropLast
    else if 0x22 ∈ value then .error .traceUnavailable
    else .ok value
  if value.isEmpty || value.any (fun b => isAsciiControl b || b == 0x5c) then
    throw .traceUnavailable
  let address ← okOr (parseSocketAddr value) .traceUnavailable
  if address.port = 0 || address.ip.isUnspecified || address.ip.isMulticast then
    throw .traceUnavailable
  return address

/-- The loop over the parameters of an element, behind `count` of them. -/
def forwardedFor (count : ℕ) (found : Option Bytes) : List Bytes → Except LoftError (Option Bytes)
  | [] => .ok found
  | parameter :: rest => do
    if count + 1 > 32 then throw .traceUnavailable
    let (name, value) ← okOr (splitOnce 0x3d (trim parameter)) .traceUnavailable
    if eqIgnoreAsciiCase (trim name) (ascii "for") then
      if found.isSome then throw .traceUnavailable
      forwardedFor (count + 1) (some (trim value)) rest
    else forwardedFor (count + 1) found rest

/-- The hop that an element names. -/
def forwardedHop (element : Bytes) : Except LoftError SocketAddr := do
  let found ← forwardedFor 0 none (element.splitOn 0x3b)
  parseForwardedSocket parseSocketAddr (← okOr found .traceUnavailable)

/-- The loop over the elements from the right, and whether it consumed one. -/
def walkForwarded (trusted : List IpAddr) (current : SocketAddr) (consumed : Bool) :
    List Bytes → Except LoftError (SocketAddr × Bool)
  | [] => .ok (current, consumed)
  | element :: rest =>
    if current.ip ∉ trusted then .ok (current, consumed)
    else do
      let hop ← forwardedHop parseSocketAddr element
      walkForwarded trusted hop true rest

def resolvePeerSource (config : LoftConfig) (peer : Peer) : Except LoftError SocketAddr := do
  if let some source := peer.effectiveSource then return source
  let connected ← okOr peer.connected .traceUnavailable
  if connected.ip ∉ config.trustedProxies then return connected
  if peer.xForwardedForPresent then throw .traceUnavailable
  let forwarded ← okOr ((peer.forwarded.bind headerToStr).filter fun value => value.length ≤ 4096)
    .traceUnavailable
  let elements := forwarded.splitOn 0x2c
  if elements.isEmpty || elements.length > 32 then throw .traceUnavailable
  let (current, consumed) ← walkForwarded parseSocketAddr config.trustedProxies connected false
    elements.reverse
  if !consumed then throw .traceUnavailable
  return current

end

end Loft

end Pigeonpost
