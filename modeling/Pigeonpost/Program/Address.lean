import Pigeonpost.Library.Hex
import Pigeonpost.Library.Outcome
import Pigeonpost.Program.Checkpoint
import Pigeonpost.Program.ComplianceFormat

/-! # Addresses (`pigeonpost-core/src/address.rs`, `b32.rs`, `token.rs`, `error.rs`) -/

namespace Pigeonpost

/-- The core errors the modelled functions return. -/
inductive CoreError where
  | malformedAddress (message : String)
  | invalidBase32
  | invalidKey
  | badSignature
  | malformedEnvelope (message : String)
  | successorMismatch
  | staleSequence
  | tooLarge
  | staleTimestamp
deriving DecidableEq

/-! ## Crockford base32 -/

namespace Base32

def alphabet : Bytes := ascii "0123456789abcdefghjkmnpqrstvwxyz"

def character (buffer : UInt16) : UInt8 := alphabet.getD (buffer &&& 0x1f).toNat 0

/-- The inner loop of `encode`: a character for every five bits, and the bits left. -/
def drain (buffer : UInt16) : ℕ → Bytes × ℕ
  | bits + 5 =>
    (character (buffer >>> UInt16.ofNat bits) :: (drain buffer bits).1, (drain buffer bits).2)
  | bits => ([], bits)

def encodeFrom (buffer : UInt16) (bits : ℕ) : Bytes → Bytes
  | [] => if 0 < bits then [character (buffer <<< UInt16.ofNat (5 - bits))] else []
  | byte :: input =>
    let buffer := buffer <<< 8 ||| byte.toUInt16
    let drained := drain buffer (bits + 8)
    drained.1 ++ encodeFrom buffer drained.2 input

def encode (input : Bytes) : Bytes := encodeFrom 0 0 input

def decodeChar (ch : UInt8) : Except CoreError UInt8 :=
  let lower := lowercaseByte ch
  if lower = 0x30 || lower = 0x6f then .ok 0
  else if lower = 0x31 || lower = 0x69 || lower = 0x6c then .ok 1
  else if 0x32 ≤ lower && lower ≤ 0x39 then .ok (lower - 0x30)
  else if 0x61 ≤ lower && lower ≤ 0x68 then .ok (lower - 0x61 + 10)
  else if lower = 0x6a || lower = 0x6b then .ok (lower - 0x61 + 9)
  else if lower = 0x6d || lower = 0x6e then .ok (lower - 0x61 + 8)
  else if 0x70 ≤ lower && lower ≤ 0x74 then .ok (lower - 0x61 + 7)
  else if 0x76 ≤ lower && lower ≤ 0x7a then .ok (lower - 0x61 + 6)
  else .error .invalidBase32

def decodeFrom (buffer : UInt16) (bits : ℕ) : Bytes → Except CoreError Bytes
  | [] => .ok []
  | ch :: input => do
    let value ← decodeChar ch
    let buffer := buffer <<< 5 ||| value.toUInt16
    if bits + 5 ≥ 8 then
      let rest ← decodeFrom buffer (bits + 5 - 8) input
      return (buffer >>> UInt16.ofNat (bits + 5 - 8)).toUInt8 :: rest
    else decodeFrom buffer (bits + 5) input

/-- Multi-byte characters are no base32 either, so that bytes are read one by one. -/
def decode (input : Bytes) : Except CoreError Bytes := decodeFrom 0 0 input

end Base32

/-! ## Key addresses -/

def addressBytes : ℕ := 16

def addressChars : ℕ := 26

def keyPrefix : Bytes := ascii "/k/"

/-- A key address. Only the canonical text of some hash can be built. -/
structure Address where
  text : Bytes
  canonical : ∃ raw : Bytes, raw.length = addressBytes ∧ text = keyPrefix ++ Base32.encode raw
deriving DecidableEq

namespace Address

def ofRaw (raw : Bytes) (h : raw.length = addressBytes) : Address :=
  ⟨keyPrefix ++ Base32.encode raw, raw, h, rfl⟩

def keyDigest (H : Type) [Sha256 H] [HashBytes H] (pubkey : Bytes32) : Bytes32 :=
  bytes32 (HashBytes.toBytes (Sha256.digest [.bytes pubkey.toList] : H))

def fromPubkey (H : Type) [Sha256 H] [HashBytes H] (pubkey : Bytes32) : Address :=
  ofRaw ((keyDigest H pubkey).toList.take addressBytes) (by simp [addressBytes])

def parse (input : Bytes) : Except CoreError Address := do
  let body ← okOr (stripStart keyPrefix input) (.malformedAddress "missing /k/ prefix")
  if body.length ≠ addressChars then throw (.malformedAddress "wrong length")
  let decoded ← (Base32.decode body).mapError fun _ => .malformedAddress "bad base32"
  if h : decoded.length < addressBytes then throw (.malformedAddress "insufficient entropy")
  else return ofRaw (decoded.take addressBytes) (by rw [List.length_take]; omega)

def matchesKey (H : Type) [Sha256 H] [HashBytes H] (address : Address) (pubkey : Bytes32) : Bool :=
  address = fromPubkey H pubkey

end Address

/-! ## Destinations -/

def maxHandleBytes : ℕ := 320

def maxHandleNamespaceBytes : ℕ := 32

def maxAddressBytes : ℕ := 254

def maxHandleNameBytes : ℕ := 39

def plainByte (b : UInt8) : Bool :=
  isAsciiAlphanumeric b || (ascii "-_.").contains b

def addressLocalByte (b : UInt8) : Bool :=
  isAsciiAlphanumeric b || (ascii "!$&'*+-=^_`\x7b|\x7d~.").contains b

def edgeMarked (segment : Bytes) : Bool :=
  segment.head?.any (ascii "-.@").contains || segment.getLast?.any (ascii "-.@").contains

def looksLikeAddress (segment : Bytes) : Bool :=
  match splitOnce 0x40 segment with
  | some (part, domain) => !part.isEmpty && domain.contains 0x2e
  | none => false

def badLabel (label : Bytes) : Bool :=
  label.isEmpty || label.length > 63 || !label.all (fun b => isAsciiAlphanumeric b || b == 0x2d)
    || label.head? == some 0x2d || label.getLast? == some 0x2d

def validateAddressSegment (segment : Bytes) : Except CoreError Unit := do
  if segment.length > maxAddressBytes then throw (.malformedAddress "bad handle length")
  let (part, domain) ← okOr (splitOnce 0x40 segment) (.malformedAddress "bad handle shape")
  if segment.count 0x40 > 1 then throw (.malformedAddress "bad handle characters")
  if part.isEmpty || domain.isEmpty then throw (.malformedAddress "bad handle shape")
  if !part.all addressLocalByte || edgeMarked part then
    throw (.malformedAddress "bad handle characters")
  if (domain.splitOn 0x2e).length < 2 then throw (.malformedAddress "bad handle shape")
  if (domain.splitOn 0x2e).any badLabel then throw (.malformedAddress "bad handle characters")

/-- The checks of one segment, of a namespace or of a name. -/
def validateSegment (limit : ℕ) (segment : Bytes) : Except CoreError Unit := do
  if looksLikeAddress segment then validateAddressSegment segment
  else
    if segment.isEmpty || segment.length > limit then throw (.malformedAddress "bad handle shape")
    if !segment.all plainByte || edgeMarked segment then
      throw (.malformedAddress "bad handle characters")

def isAsciiText (text : Bytes) : Bool := text.all (· < 0x80)

def canonicalHandle (input : Bytes) : Except CoreError Bytes := do
  if input.isEmpty || input.length > maxHandleBytes || !isAsciiText input then
    throw (.malformedAddress "bad handle length")
  let segments := ((stripStart [0x2f] input).getD input).splitOn 0x2f
  if segments.length > 3 then throw (.malformedAddress "too many segments in handle")
  match segments with
  | [only] =>
    if !looksLikeAddress only then throw (.malformedAddress "expected /<namespace>/<name>")
    validateAddressSegment only
    return 0x2f :: toAsciiLowercase only
  | segments =>
    if eqIgnoreAsciiCase (segments.headD []) (ascii "gh") then
      throw (.malformedAddress "legacy /gh namespace is not supported; use /github")
    validateSegment maxHandleNamespaceBytes (segments.headD [])
    segments.tail.forM (validateSegment maxHandleNameBytes)
    return segments.flatMap fun segment => 0x2f :: toAsciiLowercase segment

def namespaceRoot (input : Bytes) : Option Bytes := do
  guard !(input.isEmpty || input.length > maxHandleBytes || !isAsciiText input)
  let trimmed ← stripStart [0x2f] input
  let nameSpace := if trimmed.getLast? = some 0x2f then trimmed.dropLast else trimmed
  guard !(nameSpace.isEmpty || nameSpace.length > maxHandleNamespaceBytes
    || nameSpace.contains 0x2f || eqIgnoreAsciiCase nameSpace (ascii "gh")
    || nameSpace.head? == some 0x2d || nameSpace.getLast? == some 0x2d)
  guard (nameSpace.all plainByte)
  guard !eqIgnoreAsciiCase nameSpace (ascii "k")
  return toAsciiLowercase nameSpace

inductive DestinationTarget where
  | key (address : Address)
  | handle (handle : Bytes)
deriving DecidableEq

structure Destination where
  target : DestinationTarget
  loftHint : Option Bytes
  token : Option Bytes32
deriving DecidableEq

def Token.toHex (token : Bytes32) : Bytes := hex token.toList

def Token.fromHex (hex : Bytes) : Option Bytes32 :=
  if hex.length ≠ 64 then none else (decodeHexPairs hex).map bytes32

def Destination.forHandle (handle : Bytes) : Except CoreError Destination := do
  return ⟨.handle (← canonicalHandle handle), none, none⟩

/-- The checks of a loft hint are the URL parser's. -/
def Destination.parse (validateLoftHint : Bytes → Except CoreError Unit) (input : Bytes) :
    Except CoreError Destination := do
  let fragments := input.splitOn 0x23
  if fragments.length > 2 then throw (.malformedAddress "multiple fragments")
  let token ← fragments[1]?.mapM fun value => do
    let hex ← okOr (stripStart (ascii "t=") value) (.malformedAddress "unknown fragment")
    okOr (Token.fromHex hex) (.malformedAddress "bad capability token")
  let queries := (fragments.headD []).splitOn 0x3f
  if queries.length > 2 then throw (.malformedAddress "multiple queries")
  let loftHint ← queries[1]?.mapM fun value => do
    let hint ← okOr (stripStart (ascii "l=") value) (.malformedAddress "unknown query")
    validateLoftHint hint
    return hint
  let bare := queries.headD []
  let target ← if keyPrefix.isPrefixOf bare then (Address.parse bare).map .key
    else (canonicalHandle bare).map .handle
  return ⟨target, loftHint, token⟩

end Pigeonpost
