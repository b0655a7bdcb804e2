import Pigeonpost.Library.ByteString

/-! # Hexadecimal text -/

namespace Pigeonpost

open List

/-! ## Lower-case codec -/

def isLowerHex (b : UInt8) : Bool := isAsciiDigit b || (0x61 ≤ b && b ≤ 0x66)

/-- The value of a lower-case hexadecimal digit. -/
def hexValue (b : UInt8) : UInt8 := if isAsciiDigit b then b - 0x30 else b - 0x57

def hexPairs : Bytes → Bytes
  | hi :: lo :: rest => (hexValue hi * 16 + hexValue lo) :: hexPairs rest
  | _ => []

/-- The lower-case digit of a value below sixteen. -/
def hexChar (value : UInt8) : UInt8 := if value < 10 then value + 0x30 else value + 0x57

/-- Two lower-case digits for each byte. -/
def hex (bytes : Bytes) : Bytes := bytes.flatMap fun b => [hexChar (b / 16), hexChar (b % 16)]

/-! ## Radix-16 parsing -/

def isAsciiHexdigit (b : UInt8) : Bool :=
  isAsciiDigit b || (0x61 ≤ b && b ≤ 0x66) || (0x41 ≤ b && b ≤ 0x46)

/-- The value of a hexadecimal digit of either case. -/
def hexDigit? (b : UInt8) : Option UInt8 :=
  if isAsciiDigit b then some (b - 0x30)
  else if 0x61 ≤ b && b ≤ 0x66 then some (b - 0x57)
  else if 0x41 ≤ b && b ≤ 0x46 then some (b - 0x37)
  else none

/-- A two-character number in base 16, which may start with a plus sign. -/
def hexPair? (hi lo : UInt8) : Option UInt8 :=
  if hi = 0x2b then hexDigit? lo
  else do
    let high ← hexDigit? hi
    let low ← hexDigit? lo
    return high * 16 + low

def decodeHexPairs : Bytes → Option Bytes
  | hi :: lo :: rest => do
    let byte ← hexPair? hi lo
    let bytes ← decodeHexPairs rest
    return byte :: bytes
  | _ => some []

/-! ## Agreement on lower-case text -/

theorem hexDigit?_of_isLowerHex : ∀ b, isLowerHex b = true → hexDigit? b = some (hexValue b) :=
  forall_byte (by decide +kernel)

theorem isLowerHex_spec :
    ∀ b, isLowerHex b = true → b ≠ 0x2b ∧ isAsciiHexdigit b = true ∧ hexValue b < 16 ∧
      hexChar (hexValue b) = b :=
  forall_byte (by decide +kernel)

theorem nibbles_of_lt {high low : UInt8} (hh : high < 16) (hl : low < 16) :
    (high * 16 + low) / 16 = high ∧ (high * 16 + low) % 16 = low := by
  have hh : high.toNat < 16 := hh
  have hl : low.toNat < 16 := hl
  constructor
  · apply UInt8.toNat_inj.mp
    simp
    omega
  · apply UInt8.toNat_inj.mp
    simp
    omega

theorem decodeHexPairs_of_isLowerHex (text : Bytes) (h : ∀ b ∈ text, isLowerHex b = true) :
    decodeHexPairs text = some (hexPairs text) := by
  induction text using hexPairs.induct with
  | case1 hi lo _ ih =>
    have hhi := h hi (by simp)
    have hlo := h lo (by simp)
    rw [decodeHexPairs, hexPair?, if_neg (isLowerHex_spec hi hhi).1, hexDigit?_of_isLowerHex hi hhi,
      hexDigit?_of_isLowerHex lo hlo, ih fun b hb => h b (by simp [hb])]
    rfl
  | case2 text hne =>
    match text, hne with
    | [], _ => rfl
    | [_], _ => rfl
    | hi :: lo :: rest, hne => exact absurd rfl (hne hi lo rest)

theorem hex_hexPairs (text : Bytes) (hl : text.length % 2 = 0)
    (h : ∀ b ∈ text, isLowerHex b = true) : hex (hexPairs text) = text := by
  induction text using hexPairs.induct with
  | case1 hi lo _ ih =>
    obtain ⟨-, -, hhl, hhi⟩ := isLowerHex_spec hi (h hi (by simp))
    obtain ⟨-, -, hll, hlo⟩ := isLowerHex_spec lo (h lo (by simp))
    obtain ⟨hd, hm⟩ := nibbles_of_lt hhl hll
    have hr := ih (by simp at hl; omega) fun b hb => h b (by simp [hb])
    rw [hex] at hr
    rw [hexPairs, hex, flatMap_cons, hr, hd, hm, hhi, hlo]
    rfl
  | case2 text hne =>
    match text, hne with
    | [], _ => rfl
    | [_], _ => simp at hl
    | hi :: lo :: rest, hne => exact absurd rfl (hne hi lo rest)

theorem isLowerHex_hexChar : ∀ value, value < 16 → isLowerHex (hexChar value) = true ∧
    hexValue (hexChar value) = value :=
  forall_byte (by decide +kernel)

theorem nibbles_lt : ∀ b : UInt8, b / 16 < 16 ∧ b % 16 < 16 ∧ b / 16 * 16 + b % 16 = b :=
  forall_byte (by decide +kernel)

theorem isLowerHex_of_mem_hex {bytes : Bytes} {b : UInt8} (h : b ∈ hex bytes) :
    isLowerHex b = true := by
  obtain ⟨byte, -, hb⟩ := mem_flatMap.mp h
  obtain ⟨hh, hl, -⟩ := nibbles_lt byte
  simp only [mem_cons, not_mem_nil, or_false] at hb
  rcases hb with rfl | rfl
  · exact (isLowerHex_hexChar _ hh).1
  · exact (isLowerHex_hexChar _ hl).1

variable (bytes : Bytes)

@[simp] theorem length_hex : (hex bytes).length = 2 * bytes.length := by
  induction bytes with
  | nil => rfl
  | cons _ _ ih =>
    simp only [hex, flatMap_cons, length_append, length_cons] at ih ⊢
    simp
    omega

theorem hexPairs_hex : hexPairs (hex bytes) = bytes := by
  induction bytes with
  | nil => rfl
  | cons byte _ ih =>
    obtain ⟨hh, hl, hs⟩ := nibbles_lt byte
    rw [hex] at ih
    rw [hex, flatMap_cons, cons_append, cons_append, nil_append, hexPairs, ih,
      (isLowerHex_hexChar _ hh).2, (isLowerHex_hexChar _ hl).2, hs]

theorem decodeHexPairs_hex : decodeHexPairs (hex bytes) = some bytes := by
  rw [decodeHexPairs_of_isLowerHex _ fun _ => isLowerHex_of_mem_hex, hexPairs_hex]

end Pigeonpost
