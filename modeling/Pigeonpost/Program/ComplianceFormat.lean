import Pigeonpost.Library.ByteString

/-! # Compliance key identifiers (`pigeonpost-compliance-format/src/lib.rs`) -/

namespace Pigeonpost

def complianceKeyIdVersion : UInt8 := 1

def complianceKeyIdLen : ℕ := 47

/-- One UTC day. -/
def traceEpochDurationMs : ℕ := 86400000

inductive CompliancePurpose where
  | attribution
  | networkTrace
  | identityTrace
deriving DecidableEq

def CompliancePurpose.toByte : CompliancePurpose → UInt8
  | .attribution => 1
  | .networkTrace => 2
  | .identityTrace => 3

inductive Jurisdiction where
  | us
  | eu
  | tr
  | test
deriving DecidableEq

def Jurisdiction.toByte : Jurisdiction → UInt8
  | .us => 1
  | .eu => 2
  | .tr => 3
  | .test => 255

inductive FormatError where
  | invalidLength (expected actual : ℕ)
  | unknownKeyIdVersion (value : UInt8)
  | unknownPurpose (value : UInt8)
  | unknownJurisdiction (value : UInt8)
  | notTracePurpose
  | invalidTraceEpoch
  | notAttributionPurpose
  | invalidAttributionEpoch
deriving DecidableEq

def FormatError.toText : FormatError → String
  | .invalidLength expected actual =>
    "invalid length: expected " ++ toString expected ++ ", got " ++ toString actual
  | .unknownKeyIdVersion value => "unknown key-id version " ++ toString value
  | .unknownPurpose value => "unknown compliance purpose " ++ toString value
  | .unknownJurisdiction value => "unknown jurisdiction " ++ toString value
  | .notTracePurpose => "compliance key is not a trace key"
  | .invalidTraceEpoch => "invalid daily trace epoch"
  | .notAttributionPurpose => "compliance key is not an attribution key"
  | .invalidAttributionEpoch => "invalid UTC calendar-month attribution epoch"

def CompliancePurpose.ofByte (value : UInt8) : Except FormatError CompliancePurpose :=
  if value = 1 then .ok .attribution
  else if value = 2 then .ok .networkTrace
  else if value = 3 then .ok .identityTrace
  else .error (.unknownPurpose value)

def Jurisdiction.ofByte (value : UInt8) : Except FormatError Jurisdiction :=
  if value = 1 then .ok .us
  else if value = 2 then .ok .eu
  else if value = 3 then .ok .tr
  else if value = 255 then .ok .test
  else .error (.unknownJurisdiction value)

abbrev Bytes32 := Vector UInt8 32

instance : LawfulBEq Bytes32 := inferInstance

/-- A 32-byte array copied from a slice of that length. -/
def bytes32 (slice : Bytes) : Bytes32 := Vector.ofFn fun i => slice.getD i 0

structure ComplianceKeyId where
  version : UInt8
  purpose : CompliancePurpose
  jurisdiction : Jurisdiction
  authority : Bytes32
  epochStartMs : UInt64
  generation : UInt32
deriving DecidableEq

variable (keyId : ComplianceKeyId)

namespace ComplianceKeyId

def validate : Except FormatError Unit :=
  if keyId.version != complianceKeyIdVersion then .error (.unknownKeyIdVersion keyId.version)
  else .ok ()

/-- The one canonical byte representation. -/
def encode : Except FormatError Bytes := do
  keyId.validate
  return [keyId.version, keyId.purpose.toByte, keyId.jurisdiction.toByte]
    ++ keyId.authority.toList
    ++ beBytes 8 keyId.epochStartMs.toNat
    ++ beBytes 4 keyId.generation.toNat

/-- Reads an exact canonical encoding. -/
def decode (bytes : Bytes) : Except FormatError ComplianceKeyId := do
  if bytes.length ≠ complianceKeyIdLen then
    throw (.invalidLength complianceKeyIdLen bytes.length)
  if bytes.getD 0 0 ≠ complianceKeyIdVersion then
    throw (.unknownKeyIdVersion (bytes.getD 0 0))
  let purpose ← CompliancePurpose.ofByte (bytes.getD 1 0)
  let jurisdiction ← Jurisdiction.ofByte (bytes.getD 2 0)
  return {
    version := bytes.getD 0 0
    purpose, jurisdiction
    authority := bytes32 ((bytes.drop 3).take 32)
    epochStartMs := UInt64.ofNat (readBE ((bytes.drop 35).take 8))
    generation := UInt32.ofNat (readBE ((bytes.drop 43).take 4)) }

end ComplianceKeyId

/-! ## Civil dates

The source computes in `i64`; every day count reachable from a `u64` millisecond
timestamp is far inside that range. -/

def civilFromDays (days : ℤ) : ℤ × ℕ × ℕ :=
  let z := days + 719468
  let era := z.fdiv 146097
  let dayOfEra := z - era * 146097
  let yearOfEra :=
    (dayOfEra - dayOfEra.tdiv 1460 + dayOfEra.tdiv 36524 - dayOfEra.tdiv 146096).tdiv 365
  let year := yearOfEra + era * 400
  let dayOfYear := dayOfEra - (365 * yearOfEra + yearOfEra.tdiv 4 - yearOfEra.tdiv 100)
  let monthPrime := (5 * dayOfYear + 2).tdiv 153
  let day := dayOfYear - (153 * monthPrime + 2).tdiv 5 + 1
  let month := monthPrime + if monthPrime < 10 then 3 else -9
  let year := year + if month ≤ 2 then 1 else 0
  (year, month.toNat, day.toNat)

def daysFromCivil (year : ℤ) (month day : ℕ) : Option ℤ :=
  if !(1 ≤ month && month ≤ 12) || !(1 ≤ day && day ≤ 31) then none
  else
    let year := year - if month ≤ 2 then 1 else 0
    let era := year.fdiv 400
    let yearOfEra := year - era * 400
    let monthPrime : ℤ := month + if month > 2 then -3 else 9
    let dayOfYear := (153 * monthPrime + 2).tdiv 5 + day - 1
    let dayOfEra := yearOfEra * 365 + yearOfEra.tdiv 4 - yearOfEra.tdiv 100 + dayOfYear
    some (era * 146097 + dayOfEra - 719468)

/-! ## Epochs -/

def u64Limit : ℕ := 2 ^ 64

def traceEpochEndMs : Except FormatError ℕ :=
  if keyId.purpose != .networkTrace && keyId.purpose != .identityTrace then
    .error .notTracePurpose
  else do
    keyId.validate
    if keyId.epochStartMs.toNat % traceEpochDurationMs != 0 then .error .invalidTraceEpoch
    else if keyId.epochStartMs.toNat + traceEpochDurationMs < u64Limit then
      .ok (keyId.epochStartMs.toNat + traceEpochDurationMs)
    else .error .invalidTraceEpoch

def traceEpochContains (timestampMs : UInt64) :
    Except FormatError Bool := do
  let epochEnd ← traceEpochEndMs keyId
  return decide (keyId.epochStartMs ≤ timestampMs) && decide (timestampMs.toNat < epochEnd)

def validateTraceEpoch (notBeforeMs notAfterMs : UInt64) :
    Except FormatError Unit := do
  let expectedEnd ← traceEpochEndMs keyId
  if notBeforeMs != keyId.epochStartMs || notAfterMs.toNat != expectedEnd then
    .error .invalidTraceEpoch
  else .ok ()

def attributionEpochEndMs : Except FormatError ℕ :=
  if keyId.purpose != .attribution then .error .notAttributionPurpose
  else do
    keyId.validate
    if keyId.epochStartMs.toNat % traceEpochDurationMs != 0 then .error .invalidAttributionEpoch
    else
      let (year, month, day) := civilFromDays (keyId.epochStartMs.toNat / traceEpochDurationMs)
      if day != 1 then .error .invalidAttributionEpoch
      else
        let (nextYear, nextMonth) := if month == 12 then (year + 1, 1) else (year, month + 1)
        match daysFromCivil nextYear nextMonth 1 with
        | none => .error .invalidAttributionEpoch
        | some nextDays =>
          let epochEnd := nextDays.toNat * traceEpochDurationMs
          if nextDays < 0 || epochEnd ≥ u64Limit || epochEnd ≤ keyId.epochStartMs.toNat then
            .error .invalidAttributionEpoch
          else .ok epochEnd

def validateAttributionEpoch (notBeforeMs notAfterMs : UInt64) :
    Except FormatError Unit := do
  let expectedEnd ← attributionEpochEndMs keyId
  if notBeforeMs != keyId.epochStartMs || notAfterMs.toNat != expectedEnd then
    .error .invalidAttributionEpoch
  else .ok ()

def complianceEpochEndMs : Except FormatError ℕ :=
  match keyId.purpose with
  | .attribution => attributionEpochEndMs keyId
  | .networkTrace | .identityTrace => traceEpochEndMs keyId

/-- Validates a published interval by the epoch contract of its purpose. -/
def validateComplianceEpoch (notBeforeMs notAfterMs : UInt64) : Except FormatError Unit :=
  match keyId.purpose with
  | .attribution => validateAttributionEpoch keyId notBeforeMs notAfterMs
  | .networkTrace | .identityTrace => validateTraceEpoch keyId notBeforeMs notAfterMs

/-! ## Hashing and signature checks of other crates -/

/-- SHA-256 and the Ed25519 checks. -/
structure CryptoPrimitives where
  sha256 : Bytes → Bytes32
  verifyingKeyFromBytes : Bytes32 → Bool
  isWeak : Bytes32 → Bool
  /-- Strict verification of a signature by a key over a message. -/
  verifyStrict : Bytes32 → Bytes → Vector UInt8 64 → Bool

/-- An array copied from a slice of its length. -/
def copyArray (width : ℕ) (slice : Bytes) : Vector UInt8 width :=
  Vector.ofFn fun i => slice.getD i 0

end Pigeonpost
