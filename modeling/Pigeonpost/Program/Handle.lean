import Pigeonpost.Library.ByteString

/-! # Handles (`pigeonpost-registry/src/handle.rs`) -/

namespace Pigeonpost

/-! ## Registry errors (`pigeonpost-registry/src/error.rs`)

The variants the modelled functions return. -/

inductive RegistryError where
  | unknownNamespace (name : Bytes)
  | malformedHandle (message : String)
  | malformedCheckpoint (message : String)
  | malformedEntry (message : String)
  | corruptStorage (message : String)
  | invalidConfiguration (message : String)
  | registryUnavailable
  | overloaded
  | witnessConflict
  | witnessUnavailable
  | rateLimited
  | proofRejected (message : String)
  | handleQuotaExceeded (limit : ℕ)
  | alreadyBound
  | directoryReplay
  | notFound
  | storage (message : String)
  | serialization
deriving DecidableEq

/-- The limit of a signed 64-bit column. -/
def i64Max : ℕ := 2 ^ 63 - 1

/-- The namespaces the registry mirrors. -/
def namespaces : List Bytes := [ascii "github", ascii "google"]

def maxName : ℕ := 39

def isNameByte (b : UInt8) : Bool :=
  isAsciiAlphanumeric b || b == 0x2d || b == 0x5f || b == 0x2e || b == 0x40

def validateName (name : Bytes) : Except RegistryError Bytes :=
  if name.isEmpty || name.length > maxName then
    .error (.malformedHandle "name must be 1..=39 characters")
  else if !name.all isNameByte then
    .error (.malformedHandle "name may contain only letters, digits, '-', '_', '.', and '@'")
  else if name.count 0x40 > 1 || name.head? == some 0x40 || name.getLast? == some 0x40 then
    .error (.malformedHandle "'@' belongs inside a name, once")
  else if name.head? == some 0x2d || name.getLast? == some 0x2d then
    .error (.malformedHandle "name may not start or end with '-'")
  else .ok (toAsciiLowercase name)

/-! ## Accepted names are canonical -/

theorem isNameByte_lowercaseByte : ∀ b, isNameByte (lowercaseByte b) = isNameByte b :=
  forall_byte (by decide +kernel)

theorem lowercaseByte_eq_iff :
    ∀ b, (lowercaseByte b = 0x40 ↔ b = 0x40) ∧ (lowercaseByte b = 0x2d ↔ b = 0x2d) :=
  forall_byte (by decide +kernel)

theorem count_at_toAsciiLowercase (name : Bytes) :
    (toAsciiLowercase name).count 0x40 = name.count 0x40 := by
  rw [toAsciiLowercase, List.count_eq_countP, List.countP_map]
  apply List.countP_congr
  intro b _
  simp [(lowercaseByte_eq_iff b).1]

theorem map_lowercaseByte_eq_some (b : Option UInt8) :
    (b.map lowercaseByte = some 0x40 ↔ b = some 0x40) ∧
      (b.map lowercaseByte = some 0x2d ↔ b = some 0x2d) := by
  cases b with
  | none => simp
  | some b => simpa using lowercaseByte_eq_iff b

/-- The lower-case form of an accepted name is accepted as it is. -/
theorem validateName_toAsciiLowercase {name name' : Bytes} (h : validateName name = .ok name') :
    validateName name' = .ok name' := by
  have hchecks : ∀ name, validateName (toAsciiLowercase name) =
      (validateName name).map fun _ => toAsciiLowercase name := by
    intro name
    have hat := map_lowercaseByte_eq_some name.head?
    have hend := map_lowercaseByte_eq_some name.getLast?
    have hall : (toAsciiLowercase name).all isNameByte = name.all isNameByte := by
      simp [toAsciiLowercase, Function.comp_def, isNameByte_lowercaseByte]
    have hempty : (toAsciiLowercase name).isEmpty = name.isEmpty := by
      cases name <;> rfl
    have hlen : (toAsciiLowercase name).length = name.length := by simp [toAsciiLowercase]
    have hhead : (toAsciiLowercase name).head? = name.head?.map lowercaseByte := by
      simp [toAsciiLowercase]
    have hlast : (toAsciiLowercase name).getLast? = name.getLast?.map lowercaseByte := by
      simp [toAsciiLowercase]
    simp only [validateName, hempty, hlen, hall, count_at_toAsciiLowercase, hhead, hlast,
      toAsciiLowercase_idem, beq_iff_eq, Bool.or_eq_true, hat.1, hat.2, hend.1, hend.2]
    split_ifs <;> rfl
  obtain rfl : name' = toAsciiLowercase name := by
    unfold validateName at h
    split_ifs at h
    exact (Except.ok.inj h).symm
  rw [hchecks, h]
  rfl

/-- A mirrored name. Its fields are private in the source, so every value passed
the checks of `new`. -/
structure Handle where
  nameSpace : Bytes
  name : Bytes
  known : nameSpace ∈ namespaces
  canonical : validateName name = .ok name
deriving DecidableEq

namespace Handle

def new (nameSpace name : Bytes) : Except RegistryError Handle :=
  let lowered := toAsciiLowercase nameSpace
  if hknown : lowered ∈ namespaces then
    match hname : validateName name with
    | .error e => .error e
    | .ok name' => .ok ⟨lowered, name', hknown, validateName_toAsciiLowercase hname⟩
  else .error (.unknownNamespace lowered)

/-- Parses `/<namespace>/<name>`. -/
def parse (input : Bytes) : Except RegistryError Handle :=
  let trimmed := match input with
    | 0x2f :: rest => rest
    | _ => input
  match splitOnce 0x2f trimmed with
  | none => .error (.malformedHandle "expected /<namespace>/<name>")
  | some (nameSpace, name) => new nameSpace name

def asPath (handle : Handle) : Bytes :=
  0x2f :: handle.nameSpace ++ 0x2f :: handle.name

/-- The path of a handle parses back to it. -/
theorem parse_asPath (handle : Handle) : parse handle.asPath = .ok handle := by
  obtain ⟨nameSpace, name, hknown, hname⟩ := handle
  have hspace : 0x2f ∉ nameSpace ∧ toAsciiLowercase nameSpace = nameSpace := by
    simp only [namespaces, List.mem_cons, List.not_mem_nil, or_false] at hknown
    rcases hknown with rfl | rfl
    · decide
    · decide
  simp only [asPath, parse, List.cons_append, splitOnce_append hspace.1]
  simp only [new, hspace.2, hknown, dif_pos]
  split
  · next e he => simp [hname] at he
  rename_i name' he
  cases hname.symm.trans he
  rfl

end Handle

end Pigeonpost
