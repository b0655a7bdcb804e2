import Pigeonpost.Program.Directory.Tables
import Pigeonpost.Verification.Shared.ByteHash
import Pigeonpost.Verification.Shared.SymbolicHash

/-! # A directory for concrete runs

Natural numbers measure, every signature holds, and a request's text is its fields, each
behind marks. -/

namespace Pigeonpost.SampleDirectory

instance : F64 ℕ where
  zero := 0
  one := 1
  isFinite _ := true
  le a b := a ≤ b
  ratio a b := a / b

/-- The fields one after another, each self-delimiting. -/
def packFields (fields : List Bytes) : Bytes := fields.flatMap SymbolicHash.markBytes

theorem packFields_injective : Function.Injective packFields := by
  intro fields
  induction fields with
  | nil =>
    intro fields' h
    cases fields' with
    | nil => rfl
    | cons field => cases field <;> simp [packFields, SymbolicHash.markBytes] at h
  | cons field _ ih =>
    intro fields' h
    cases fields' with
    | nil => cases field <;> simp [packFields, SymbolicHash.markBytes] at h
    | cons =>
      have hr := congrArg SymbolicHash.unmarkBytes h
      simp only [packFields, List.flatMap_cons, SymbolicHash.unmarkBytes_markBytes,
        Option.some.injEq, Prod.mk.injEq] at hr
      rw [hr.1, ih hr.2]

def optionField (field : Option Bytes) : Bytes := field.elim [] (1 :: ·)

theorem optionField_injective : Function.Injective optionField := by
  intro a b h
  cases a <;> cases b <;> simp_all [optionField]

def stateField : LoftState → Bytes
  | .pending => [0]
  | .active => [1]
  | .degraded => [2]
  | .draining => [3]
  | .removed => [4]

theorem stateField_injective : Function.Injective stateField := by
  intro a b h
  cases a <;> cases b <;> simp_all [stateField]

def entryFields (entry : DirectoryEntry ℕ) : List Bytes :=
  [entry.endpoint, entry.pubkey, optionField entry.operator,
    decimal entry.capacityGb.toNat, decimal entry.retentionDays.toNat,
    [boolByte entry.policy.isOpen], decimal entry.policy.powFloor.toNat,
    decimal entry.policy.maxEventBytes.toNat, decimal entry.sequence.toNat,
    decimal entry.utilization, entry.signature, stateField entry.state,
    decimal entry.health.uptime30d, decimal entry.health.probeFailStreak,
    decimal entry.health.lastProbe,
    optionField (entry.drainAfter.map fun after => decimal after.toNat),
    decimal entry.lastMutationSequence.toNat]

def authorizationFields (authorization : DrainAuthorization) : List Bytes :=
  [authorization.endpoint, decimal authorization.after.toNat,
    decimal authorization.sequence.toNat, authorization.signature]

theorem decimal_uint64_injective : Function.Injective fun n : UInt64 => decimal n.toNat :=
  fun _ _ h => UInt64.toNat_inj.mp (decimal_injective h)

theorem decimal_uint32_injective : Function.Injective fun n : UInt32 => decimal n.toNat :=
  fun _ _ h => UInt32.toNat_inj.mp (decimal_injective h)

theorem entryFields_injective : Function.Injective entryFields := by
  rintro ⟨endpoint, pubkey, operator, capacity, retention, ⟨isOpen, pow, maxBytes⟩, sequence,
    utilization, signature, state, ⟨uptime, streak, last⟩, after, lastSequence⟩
    ⟨endpoint', pubkey', operator', capacity', retention', ⟨isOpen', pow', maxBytes'⟩, sequence',
    utilization', signature', state', ⟨uptime', streak', last'⟩, after', lastSequence'⟩ h
  have ho : ∀ a b : Bool, boolByte a = boolByte b → a = b := by decide
  simp only [entryFields, List.cons.injEq, and_true] at h
  obtain ⟨rfl, rfl, h₁, h₂, h₃, h₄, h₅, h₆, h₇, h₈, rfl, h₉, h₁₀, h₁₁, h₁₂, h₁₃, h₁₄⟩ := h
  obtain rfl := optionField_injective h₁
  obtain rfl := decimal_uint64_injective h₂
  obtain rfl := decimal_uint64_injective h₃
  obtain rfl := ho _ _ h₄
  obtain rfl := decimal_uint32_injective h₅
  obtain rfl := decimal_uint64_injective h₆
  obtain rfl := decimal_uint64_injective h₇
  obtain rfl := decimal_injective h₈
  obtain rfl := stateField_injective h₉
  obtain rfl := decimal_injective h₁₀
  obtain rfl := decimal_injective h₁₁
  obtain rfl := decimal_injective h₁₂
  obtain rfl := Option.map_injective decimal_uint64_injective (optionField_injective h₁₃)
  obtain rfl := decimal_uint64_injective h₁₄
  rfl

theorem authorizationFields_injective : Function.Injective authorizationFields := by
  rintro ⟨endpoint, after, sequence, signature⟩ ⟨endpoint', after', sequence', signature'⟩ h
  simp only [authorizationFields, List.cons.injEq, and_true] at h
  obtain ⟨rfl, h₁, h₂, rfl⟩ := h
  obtain rfl := decimal_uint64_injective h₁
  obtain rfl := decimal_uint64_injective h₂
  rfl

def json : DirectoryJson ℕ where
  addition mutation := packFields [mutation.endpoint, mutation.loftPubkey, mutation.operator]
  removal mutation := packFields [mutation.endpoint, mutation.loftPubkey, mutation.reason]
  entry entry := packFields (entryFields entry)
  authorization authorization := packFields (authorizationFields authorization)

/-- Every nonempty text is the origin of a public host, and every signature holds. -/
def prim : Primitives where
  parseUrl text :=
    if text.isEmpty then none
    else some ⟨ascii "https", some (.domain (ascii "loft.example")), false, [], none, none, none,
      none, []⟩
  verifyingKeyFromBytes _ := true
  verify _ _ _ := true

def sampleCtx : DirectoryContext ℕ := ⟨prim, json⟩

def loftEntry (digit : UInt8) (sequence : UInt64) : DirectoryEntry ℕ where
  endpoint := ascii "https://loft.example"
  pubkey := List.replicate 64 digit
  operator := none
  capacityGb := 1
  retentionDays := 30
  policy := ⟨true, 18, 65536⟩
  sequence := sequence
  utilization := 0
  signature := List.replicate 128 0x30
  state := .pending
  health := ⟨0, 0, 0⟩
  drainAfter := none
  lastMutationSequence := 0

def firstCheckpoint : PersistedRegistryCheckpoint ByteHash :=
  ⟨1, ascii "log.example", 1, ⟨5⟩, ascii "note", 1⟩

end Pigeonpost.SampleDirectory
