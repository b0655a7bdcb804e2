import Pigeonpost.Library.ByteString
import Pigeonpost.Library.Hex
import Pigeonpost.Program.ComplianceFormat
import Pigeonpost.Program.Handle

/-! # Log entries (`pigeonpost-registry/src/entry.rs`) -/

namespace Pigeonpost

/-! ## Network addresses (`pigeonpost-core/src/network.rs`) -/

structure Ipv4Addr where
  a : UInt8
  b : UInt8
  c : UInt8
  d : UInt8
deriving DecidableEq

structure Ipv6Addr where
  segments : Vector UInt16 8
deriving DecidableEq

def Ipv4Addr.isLoopback (address : Ipv4Addr) : Bool := address.a == 127

def Ipv4Addr.isUnspecified (address : Ipv4Addr) : Bool := address == ⟨0, 0, 0, 0⟩

def Ipv4Addr.isMulticast (address : Ipv4Addr) : Bool := 224 ≤ address.a && address.a ≤ 239

variable (address : Ipv6Addr)

def Ipv6Addr.isLoopback : Bool :=
  address.segments.toList == [0, 0, 0, 0, 0, 0, 0, 1]

def Ipv6Addr.isUnspecified : Bool :=
  address.segments.toList == [0, 0, 0, 0, 0, 0, 0, 0]

def Ipv6Addr.isMulticast : Bool :=
  address.segments[0] &&& 0xff00 == 0xff00

def highByte (segment : UInt16) : UInt8 := (segment >>> 8).toUInt8

def Ipv6Addr.toIpv4Mapped : Option Ipv4Addr :=
  if address.segments.toList.take 6 == [0, 0, 0, 0, 0, 0xffff] then
    some ⟨highByte address.segments[6], address.segments[6].toUInt8,
      highByte address.segments[7], address.segments[7].toUInt8⟩
  else none

def isPublicIpv4 (address : Ipv4Addr) : Bool :=
  let a := address.a
  let b := address.b
  let c := address.c
  !(a == 0
    || a == 10
    || a == 127
    || (a == 100 && (64 ≤ b && b ≤ 127))
    || (a == 169 && b == 254)
    || (a == 172 && (16 ≤ b && b ≤ 31))
    || (a == 192 && b == 0 && c == 0)
    || (a == 192 && b == 0 && c == 2)
    || (a == 192 && b == 88 && c == 99)
    || (a == 192 && b == 168)
    || (a == 198 && (b == 18 || b == 19))
    || (a == 198 && b == 51 && c == 100)
    || (a == 203 && b == 0 && c == 113)
    || a ≥ 224)

def isPublicIpv6 : Bool :=
  let s0 := address.segments[0]
  let s1 := address.segments[1]
  let s2 := address.segments[2]
  !(address.isUnspecified
    || address.isLoopback
    || address.isMulticast
    || (s0 &&& 0xe000) != 0x2000
    || (s0 == 0x2001 && s1 == 0x0000)
    || (s0 == 0x2001 && s1 == 0x0002)
    || (s0 == 0x2001 && s1 == 0x0db8)
    || (s0 == 0x2001 && (s1 &&& 0xfff0) == 0x0010)
    || (s0 == 0x2001 && (s1 &&& 0xfff0) == 0x0020)
    || (s0 == 0x3fff && (s1 &&& 0xf000) == 0)
    || (s0 == 0x2002
      && !isPublicIpv4 ⟨highByte s1, s1.toUInt8, highByte s2, s2.toUInt8⟩))

inductive IpAddr where
  | v4 (address : Ipv4Addr)
  | v6 (address : Ipv6Addr)
deriving DecidableEq

structure SocketAddr where
  ip : IpAddr
  port : UInt16

def IpAddr.isUnspecified : IpAddr → Bool
  | .v4 address => address.isUnspecified
  | .v6 address => address.isUnspecified

def IpAddr.isMulticast : IpAddr → Bool
  | .v4 address => address.isMulticast
  | .v6 address => address.isMulticast

/-- Whether an address is safe as an Internet-only outbound destination. -/
def isPublicNetworkAddress : IpAddr → Bool
  | .v4 address => isPublicIpv4 address
  | .v6 address =>
    match address.toIpv4Mapped with
    | some mapped => isPublicIpv4 mapped
    | none => isPublicIpv6 address

/-- Whether a host is `localhost` or one of its subdomains. -/
def isLocalhostName (host : Bytes) : Bool :=
  let candidate := trimEndMatches 0x2e host
  eqIgnoreAsciiCase candidate (ascii "localhost")
    || (rsplitOnce 0x2e candidate).any fun (_, suffix) =>
      eqIgnoreAsciiCase suffix (ascii "localhost")

/-! ## Primitives of other crates -/

inductive UrlHost where
  | ipv4 (address : Ipv4Addr)
  | ipv6 (address : Ipv6Addr)
  | domain (name : Bytes)

/-- What `validate_endpoint` reads of a parsed URL. -/
structure ParsedUrl where
  scheme : Bytes
  host : Option UrlHost
  cannotBeABase : Bool
  username : Bytes
  password : Option Bytes
  port : Option ℕ
  query : Option Bytes
  fragment : Option Bytes
  path : Bytes

/-- The URL parser and the Ed25519 checks the entry codec relies on. -/
structure Primitives where
  parseUrl : Bytes → Option ParsedUrl
  /-- Whether 32 bytes are an acceptable verifying key. -/
  verifyingKeyFromBytes : Bytes → Bool
  /-- Strict verification of a signature by a key over a message. -/
  verify : Bytes → Bytes → Bytes → Bool

/-! ## Data -/

def logEntryVersion : UInt8 := 1

def legacyLogEntryVersion : UInt8 := 0

def directoryAuthVersion : UInt8 := 1

def legacyLeafDomain : Bytes := ascii "pigeonpost/log-entry/v1"

def leafDomain : Bytes := ascii "pigeonpost/log-entry/strict-v1"

def sigDomainDirectoryEntryV1 : Bytes := ascii "pigeonpost/directory-entry/v1"

def sigDomainDirectoryEntryV2 : Bytes := ascii "pigeonpost/directory-entry/v2"

def sigDomainDirectoryDrainV1 : Bytes := ascii "pigeonpost/directory-drain/v1"

def gib : ℕ := 1024 * 1024 * 1024

inductive EntryKind where
  | handleClaim
  | handleRotation
  | directoryAdd
  | directoryRemove
  | complianceKeyPublish
deriving DecidableEq

def EntryKind.tag : EntryKind → UInt8
  | .handleClaim => 1
  | .handleRotation => 2
  | .directoryAdd => 3
  | .directoryRemove => 4
  | .complianceKeyPublish => 5

def EntryKind.asStr : EntryKind → Bytes
  | .handleClaim => ascii "handle_bind"
  | .handleRotation => ascii "handle_rotate"
  | .directoryAdd => ascii "directory_add"
  | .directoryRemove => ascii "directory_remove"
  | .complianceKeyPublish => ascii "compliance_key_publish"

/-- The fields of a claim and of a rotation. -/
structure HandlePayload where
  handle : Bytes
  pubkey : Bytes
  subject : Bytes
deriving DecidableEq

abbrev HandleClaim := HandlePayload

abbrev HandleRotation := HandlePayload

structure DirectoryAddAuthentication where
  version : UInt8
  retentionDays : UInt64
  policyOpen : Bool
  powFloor : UInt32
  maxEventBytes : UInt64
  mutationSequence : UInt64
  loftSignature : Bytes
deriving DecidableEq

structure DirectoryAdd where
  endpoint : Bytes
  loftPubkey : Bytes
  operator : Bytes
  capacityBytes : UInt64
  authentication : Option DirectoryAddAuthentication
deriving DecidableEq

structure DirectoryRemoveAuthentication where
  version : UInt8
  drainAfter : UInt64
  mutationSequence : UInt64
  loftSignature : Bytes
deriving DecidableEq

structure DirectoryRemove where
  endpoint : Bytes
  loftPubkey : Bytes
  reason : Bytes
  authentication : Option DirectoryRemoveAuthentication
deriving DecidableEq

/-- The addition a loft authorized, in whole GiB. -/
def DirectoryAdd.authenticated (endpoint loftPubkey : Bytes) (operator : Option Bytes)
    (capacityGb retentionDays : UInt64) (policyOpen : Bool) (powFloor : UInt32)
    (maxEventBytes mutationSequence : UInt64) (loftSignature : Bytes) :
    Except String DirectoryAdd :=
  if capacityGb.toNat * gib < 2 ^ 64 then
    .ok ⟨endpoint, loftPubkey, operator.getD [], UInt64.ofNat (capacityGb.toNat * gib),
      some ⟨directoryAuthVersion, retentionDays, policyOpen, powFloor, maxEventBytes,
        mutationSequence, loftSignature⟩⟩
  else .error "directory capacity overflows bytes"

def DirectoryRemove.authenticated (endpoint loftPubkey : Bytes)
    (drainAfter mutationSequence : UInt64) (loftSignature : Bytes) : DirectoryRemove :=
  ⟨endpoint, loftPubkey, ascii "operator_drain",
    some ⟨directoryAuthVersion, drainAfter, mutationSequence, loftSignature⟩⟩

inductive ComplianceKeyStatus where
  | active
  | retired
  | revoked
deriving DecidableEq

def ComplianceKeyStatus.tag : ComplianceKeyStatus → UInt8
  | .active => 1
  | .retired => 2
  | .revoked => 3

structure ComplianceKeyPublish where
  keyId : ComplianceKeyId
  publicKey : Bytes
  notBeforeMs : UInt64
  notAfterMs : UInt64
  status : ComplianceKeyStatus
deriving DecidableEq

structure Versioned (T : Type) where
  version : UInt8
  seq : UInt64
  payload : T
  tsMs : UInt64
deriving DecidableEq

inductive LogEntry where
  | handleClaim (v : Versioned HandleClaim)
  | handleRotation (v : Versioned HandleRotation)
  | directoryAdd (v : Versioned DirectoryAdd)
  | directoryRemove (v : Versioned DirectoryRemove)
  | complianceKeyPublish (v : Versioned ComplianceKeyPublish)
deriving DecidableEq

/-- The text of an `EntryError`. -/
abbrev EntryError := String

/-! ## Field codecs -/

/-- Lower-case hexadecimal of exactly `length` bytes. -/
def decodeLowerHex (length : ℕ) (value : Bytes) : Option Bytes :=
  if value.length != 2 * length || value.any (fun b => !isLowerHex b) then none
  else some (hexPairs value)

def decodeHex32 (value : Bytes) : Option Bytes := decodeLowerHex 32 value

def decodeHex64 (value : Bytes) : Option Bytes := decodeLowerHex 64 value

/-- Appends a field behind its 32-bit length. -/
def pushField (out field : Bytes) : Except EntryError Bytes :=
  if field.length < 2 ^ 32 then .ok (out ++ leBytes 4 field.length ++ field)
  else .error "field is too large"

def pushHandle (out handle pubkey subject : Bytes) : Except EntryError Bytes := do
  let out ← pushField out handle
  let out ← pushField out pubkey
  pushField out subject

def boolByte (b : Bool) : UInt8 := if b then 1 else 0

def directoryAddClaimPayload (endpoint loftPubkey : Bytes) (operator : Option Bytes)
    (capacityGb : ℕ) (retentionDays : UInt64) (policyOpen : Bool) (powFloor : UInt32)
    (maxEventBytes mutationSequence : UInt64) : Except EntryError Bytes := do
  let domain :=
    if mutationSequence = 0 then sigDomainDirectoryEntryV1 else sigDomainDirectoryEntryV2
  let out ← pushField domain endpoint
  let out ← pushField out loftPubkey
  let out ← pushField out (operator.getD [])
  let out := out ++ leBytes 8 capacityGb ++ leBytes 8 retentionDays.toNat
    ++ [boolByte policyOpen] ++ leBytes 4 powFloor.toNat ++ leBytes 8 maxEventBytes.toNat
  return if mutationSequence ≠ 0 then out ++ leBytes 8 mutationSequence.toNat else out

def directoryRemoveClaimPayload (endpoint : Bytes) (drainAfter mutationSequence : UInt64) :
    Except EntryError Bytes := do
  let out ← pushField sigDomainDirectoryDrainV1 endpoint
  return out ++ leBytes 8 drainAfter.toNat ++ leBytes 8 mutationSequence.toNat

/-! ## Field validation -/

def unsupportedVersion (version : UInt8) : EntryError :=
  "unsupported log entry version " ++ toString version

def validateCurrent (version : UInt8) : Except EntryError Unit :=
  if version = logEntryVersion then .ok () else .error (unsupportedVersion version)

def validateHex32 (field : String) (value : Bytes) : Except EntryError Unit :=
  if (decodeHex32 value).isNone then .error (field ++ " must be 32 lower-case hex bytes")
  else .ok ()

def validateHandle (handle pubkey subject : Bytes) (version : UInt8) (tsMs : UInt64) :
    Except EntryError Unit := do
  if version ≠ logEntryVersion ∧ version ≠ legacyLogEntryVersion then
    throw (unsupportedVersion version)
  if version = legacyLogEntryVersion ∧ tsMs.toNat % 1000 ≠ 0 then
    throw "legacy timestamp is not an exact number of seconds"
  if handle.head? ≠ some 0x2f ∨ handle.length > 256 ∨ handle.any isAsciiControl then
    throw "handle is not canonical"
  let currentHandle ←
    if version = logEntryVersion then
      match Handle.parse handle with
      | .error _ => throw "handle is not a canonical current provider handle"
      | .ok parsed =>
        if parsed.asPath ≠ handle then throw "handle is not canonical"
        else pure (some parsed)
    else pure none
  validateHex32 "pubkey" pubkey
  match splitOnce 0x3a subject with
  | none => throw "subject must be provider-namespaced"
  | some (nameSpace, opaqueId) =>
    if nameSpace.isEmpty ∨ opaqueId.isEmpty ∨ subject.length > 512
        ∨ subject.any isAsciiControl then
      throw "subject is malformed"
    if currentHandle.any fun parsed => parsed.nameSpace ≠ nameSpace then
      throw "subject namespace does not match handle namespace"

def validateCompliance (v : Versioned ComplianceKeyPublish) : Except EntryError Unit := do
  validateCurrent v.version
  v.payload.keyId.validate.mapError FormatError.toText
  validateHex32 "public_key" v.payload.publicKey
  if v.payload.keyId.authority.toList = List.replicate 32 0 then
    throw "compliance authority must not be all zeroes"
  if v.payload.publicKey = List.replicate 64 0x30 then
    throw "compliance public key must not be all zeroes"
  (validateComplianceEpoch v.payload.keyId v.payload.notBeforeMs
    v.payload.notAfterMs).mapError FormatError.toText

section Validation

variable (prim : Primitives)

def endpointMessage : EntryError :=
  "directory endpoint must be a public HTTPS origin or an exact numeric loopback HTTP origin"

def allowedOrigin (parsed : ParsedUrl) : Bool :=
  match parsed.host with
  | some (.ipv4 address) =>
    if parsed.scheme == ascii "http" then address.isLoopback
    else parsed.scheme == ascii "https" && isPublicNetworkAddress (.v4 address)
  | some (.ipv6 address) =>
    if parsed.scheme == ascii "http" then address.isLoopback
    else parsed.scheme == ascii "https" && isPublicNetworkAddress (.v6 address)
  | some (.domain name) => parsed.scheme == ascii "https" && !isLocalhostName name
  | none => false

def validateEndpoint (endpoint : Bytes) : Except EntryError Unit :=
  match prim.parseUrl endpoint with
  | none => .error endpointMessage
  | some parsed =>
    if endpoint.length > 2048
        || !allowedOrigin parsed
        || parsed.cannotBeABase
        || !parsed.username.isEmpty
        || parsed.password.isSome
        || parsed.port == some 0
        || parsed.query.isSome
        || parsed.fragment.isSome
        || !(parsed.path == [] || parsed.path == [0x2f]) then
      .error endpointMessage
    else .ok ()

def validateEd25519Key (field : String) (value : Bytes) : Except EntryError Bytes :=
  match decodeHex32 value with
  | none => .error (field ++ " must be 32 lower-case hex bytes")
  | some bytes =>
    if prim.verifyingKeyFromBytes bytes then .ok bytes else .error (field ++ " is invalid")

def decodeLoftSignature (value : Bytes) : Except EntryError Bytes :=
  match decodeHex64 value with
  | none => .error "loft_signature must be 64 lower-case hex bytes"
  | some signature => .ok signature

def validateDirectoryAdd (v : Versioned DirectoryAdd) : Except EntryError Unit := do
  validateCurrent v.version
  validateEndpoint prim v.payload.endpoint
  let key ← validateEd25519Key prim "loft_pubkey" v.payload.loftPubkey
  if v.payload.capacityBytes = 0 then throw "capacity_bytes must be non-zero"
  match v.payload.authentication with
  | none =>
    if v.payload.operator.isEmpty ∨ v.payload.operator.length > 256 then
      throw "operator must be 1..=256 bytes"
  | some auth =>
    if auth.version ≠ directoryAuthVersion then
      throw "unsupported directory authentication version"
    if v.payload.operator.length > 256 ∨ v.payload.operator.any isAsciiControl then
      throw "operator must be at most 256 safe bytes"
    if v.payload.capacityBytes.toNat % gib ≠ 0 then
      throw "authenticated capacity_bytes must be whole GiB"
    if auth.retentionDays = 0 ∨ auth.maxEventBytes = 0
        ∨ auth.maxEventBytes.toNat > 2 * 1024 * 1024 then
      throw "directory retention and event-size claims are invalid"
    let signature ← decodeLoftSignature auth.loftSignature
    let payload ← directoryAddClaimPayload v.payload.endpoint v.payload.loftPubkey
      (if v.payload.operator.isEmpty then none else some v.payload.operator)
      (v.payload.capacityBytes.toNat / gib) auth.retentionDays auth.policyOpen
      auth.powFloor auth.maxEventBytes auth.mutationSequence
    if !prim.verify key payload signature then
      throw "directory addition is not signed by the loft key"

def validateDirectoryRemove (v : Versioned DirectoryRemove) : Except EntryError Unit := do
  validateCurrent v.version
  validateEndpoint prim v.payload.endpoint
  let key ← validateEd25519Key prim "loft_pubkey" v.payload.loftPubkey
  match v.payload.authentication with
  | none =>
    if v.payload.reason.isEmpty ∨ v.payload.reason.length > 512 then
      throw "reason must be 1..=512 bytes"
  | some auth =>
    if auth.version ≠ directoryAuthVersion ∨ v.payload.reason ≠ ascii "operator_drain" then
      throw "authenticated removals require the operator_drain reason and supported auth version"
    let signature ← decodeLoftSignature auth.loftSignature
    let payload ← directoryRemoveClaimPayload v.payload.endpoint auth.drainAfter
      auth.mutationSequence
    if !prim.verify key payload signature then
      throw "directory removal is not signed by the loft key"

end Validation

/-! ## Entries -/

namespace LogEntry

def ofHandleClaim (seq : UInt64) (handle pubkey subject : Bytes) (tsMs : UInt64) : LogEntry :=
  .handleClaim ⟨logEntryVersion, seq, ⟨handle, pubkey, subject⟩, tsMs⟩

def ofHandleRotation (seq : UInt64) (handle pubkey subject : Bytes) (tsMs : UInt64) : LogEntry :=
  .handleRotation ⟨logEntryVersion, seq, ⟨handle, pubkey, subject⟩, tsMs⟩

def complianceKey (seq : UInt64) (payload : ComplianceKeyPublish) (tsMs : UInt64) : LogEntry :=
  .complianceKeyPublish ⟨logEntryVersion, seq, payload, tsMs⟩

def ofDirectoryAdd (seq : UInt64) (payload : DirectoryAdd) (tsMs : UInt64) : LogEntry :=
  .directoryAdd ⟨logEntryVersion, seq, payload, tsMs⟩

def ofDirectoryRemove (seq : UInt64) (payload : DirectoryRemove) (tsMs : UInt64) : LogEntry :=
  .directoryRemove ⟨logEntryVersion, seq, payload, tsMs⟩

def kind : LogEntry → EntryKind
  | handleClaim _ => .handleClaim
  | handleRotation _ => .handleRotation
  | directoryAdd _ => .directoryAdd
  | directoryRemove _ => .directoryRemove
  | complianceKeyPublish _ => .complianceKeyPublish

def version : LogEntry → UInt8
  | handleClaim v => v.version
  | handleRotation v => v.version
  | directoryAdd v => v.version
  | directoryRemove v => v.version
  | complianceKeyPublish v => v.version

def seq : LogEntry → UInt64
  | handleClaim v => v.seq
  | handleRotation v => v.seq
  | directoryAdd v => v.seq
  | directoryRemove v => v.seq
  | complianceKeyPublish v => v.seq

def tsMs : LogEntry → UInt64
  | handleClaim v => v.tsMs
  | handleRotation v => v.tsMs
  | directoryAdd v => v.tsMs
  | directoryRemove v => v.tsMs
  | complianceKeyPublish v => v.tsMs

def handleBinding : LogEntry → Option HandlePayload
  | handleClaim v => some v.payload
  | handleRotation v => some v.payload
  | _ => none

def compliancePublication : LogEntry → Option ComplianceKeyPublish
  | complianceKeyPublish v => some v.payload
  | _ => none

def authenticatedDirectoryMutation : LogEntry → Option (Bytes × Bytes × UInt64)
  | directoryAdd v => v.payload.authentication.map fun auth =>
    (v.payload.endpoint, v.payload.loftPubkey, auth.mutationSequence)
  | directoryRemove v => v.payload.authentication.map fun auth =>
    (v.payload.endpoint, v.payload.loftPubkey, auth.mutationSequence)
  | _ => none

def validate (prim : Primitives) (entry : LogEntry) : Except EntryError Unit :=
  if entry.version ≠ logEntryVersion
      ∧ ¬(entry.version = legacyLogEntryVersion ∧ entry.handleBinding.isSome) then
    .error (unsupportedVersion entry.version)
  else
    match entry with
    | handleClaim v =>
      validateHandle v.payload.handle v.payload.pubkey v.payload.subject v.version v.tsMs
    | handleRotation v =>
      validateHandle v.payload.handle v.payload.pubkey v.payload.subject v.version v.tsMs
    | directoryAdd v => validateDirectoryAdd prim v
    | directoryRemove v => validateDirectoryRemove prim v
    | complianceKeyPublish v => validateCompliance v

def legacyLeafBytes (entry : LogEntry) : Except EntryError Bytes :=
  match entry.handleBinding with
  | none => .error "only handle entries have a legacy codec"
  | some payload =>
    if entry.tsMs.toNat % 1000 ≠ 0 then
      .error "legacy timestamp is not an exact number of seconds"
    else do
      let out := legacyLeafDomain ++ [entry.kind.tag] ++ leBytes 8 entry.seq.toNat
      let out ← pushHandle out payload.handle payload.pubkey payload.subject
      return out ++ leBytes 8 (entry.tsMs.toNat / 1000)

/-- The kind-specific middle of a current leaf. -/
def pushPayload (out : Bytes) : LogEntry → Except EntryError Bytes
  | handleClaim v => pushHandle out v.payload.handle v.payload.pubkey v.payload.subject
  | handleRotation v => pushHandle out v.payload.handle v.payload.pubkey v.payload.subject
  | directoryAdd v => do
    let out ← pushField out v.payload.endpoint
    let out ← pushField out v.payload.loftPubkey
    let out ← pushField out v.payload.operator
    let out := out ++ leBytes 8 v.payload.capacityBytes.toNat
    match v.payload.authentication with
    | none => return out
    | some auth =>
      let signature ← decodeLoftSignature auth.loftSignature
      return out ++ [auth.version] ++ leBytes 8 auth.retentionDays.toNat
        ++ [boolByte auth.policyOpen] ++ leBytes 4 auth.powFloor.toNat
        ++ leBytes 8 auth.maxEventBytes.toNat ++ leBytes 8 auth.mutationSequence.toNat
        ++ signature
  | directoryRemove v => do
    let out ← pushField out v.payload.endpoint
    let out ← pushField out v.payload.loftPubkey
    let out ← pushField out v.payload.reason
    match v.payload.authentication with
    | none => return out
    | some auth =>
      let signature ← decodeLoftSignature auth.loftSignature
      return out ++ [auth.version] ++ leBytes 8 auth.drainAfter.toNat
        ++ leBytes 8 auth.mutationSequence.toNat ++ signature
  | complianceKeyPublish v => do
    let keyId ← v.payload.keyId.encode.mapError FormatError.toText
    match decodeHex32 v.payload.publicKey with
    | none => throw "public_key must be 32 lower-case hex bytes"
    | some publicKey =>
      return out ++ keyId ++ publicKey ++ leBytes 8 v.payload.notBeforeMs.toNat
        ++ leBytes 8 v.payload.notAfterMs.toNat ++ [v.payload.status.tag]

def leafBytes (prim : Primitives) (entry : LogEntry) : Except EntryError Bytes := do
  entry.validate prim
  if entry.version = legacyLogEntryVersion then entry.legacyLeafBytes
  else
    let out := leafDomain ++ [logEntryVersion, entry.kind.tag] ++ leBytes 8 entry.seq.toNat
    let out ← entry.pushPayload out
    return out ++ leBytes 8 entry.tsMs.toNat

end LogEntry

end Pigeonpost
