import Pigeonpost.Library.ByteString
import Mathlib.Tactic.IntervalCases

/-! # Base64 with padding

The encoder works on chunks of three bytes, the decoder on a bit buffer that it
feeds with one character at a time. -/

namespace Pigeonpost.Base64

open List

def alphabet : Bytes :=
  ascii "ABCDEFGHIJKLMNOPQRSTUVWXYZabcdefghijklmnopqrstuvwxyz0123456789+/"

def padding : UInt8 := 0x3d

/-- The character of a six-bit value. -/
def letter (value : ℕ) : UInt8 := alphabet.getD (value % 64) padding

/-- The characters of the 24 bits of a chunk. -/
def encode : Bytes → Bytes
  | a :: b :: c :: rest =>
    let n := a.toNat * 65536 + b.toNat * 256 + c.toNat
    letter (n / 262144) :: letter (n / 4096) :: letter (n / 64) :: letter n :: encode rest
  | [a, b] =>
    let n := a.toNat * 65536 + b.toNat * 256
    [letter (n / 262144), letter (n / 4096), letter (n / 64), padding]
  | [a] =>
    let n := a.toNat * 65536
    [letter (n / 262144), letter (n / 4096), padding, padding]
  | [] => []

theorem encode_triple (a b c : UInt8) (rest : Bytes) :
    ∃ n, n = a.toNat * 65536 + b.toNat * 256 + c.toNat ∧ encode (a :: b :: c :: rest) =
      letter (n / 262144) :: letter (n / 4096) :: letter (n / 64) :: letter n :: encode rest :=
  ⟨_, rfl, by rw [encode]⟩

theorem encode_pair (a b : UInt8) : ∃ n, n = a.toNat * 65536 + b.toNat * 256 ∧ encode [a, b] =
      [letter (n / 262144), letter (n / 4096), letter (n / 64), padding] :=
  ⟨_, rfl, by rw [encode]⟩

theorem encode_single (a : UInt8) : ∃ n, n = a.toNat * 65536 ∧ encode [a] =
      [letter (n / 262144), letter (n / 4096), padding, padding] :=
  ⟨_, rfl, by rw [encode]⟩

@[simp] theorem encode_nil : encode [] = [] := by
  rw [encode]

/-- The decoder's buffer of 32 bits and the number of bits waiting in it. -/
structure Buffer where
  value : ℕ
  bits : ℕ

/-- Feeds one six-bit value and takes a byte out when eight bits are there. -/
def feed (buffer : Buffer) (value : ℕ) : Buffer × Bytes :=
  let filled := buffer.value * 64 % 2 ^ 32 + value
  if buffer.bits + 6 ≥ 8 then
    (⟨filled, buffer.bits + 6 - 8⟩, [UInt8.ofNat (filled / 2 ^ (buffer.bits + 6 - 8))])
  else (⟨filled, buffer.bits + 6⟩, [])

/-- The decoding loop, up to the first padding character. -/
def decodeLoop (buffer : Buffer) : Bytes → Option Bytes
  | [] => some []
  | ch :: rest =>
    if ch = padding then some []
    else
      match alphabet.findIdx? (· == ch) with
      | none => none
      | some value =>
        let (buffer, out) := feed buffer value
        (decodeLoop buffer rest).map (out ++ ·)

def isBase64Byte (b : UInt8) : Bool :=
  isAsciiAlphanumeric b || b == 0x2b || b == 0x2f || b == padding

/-- Decodes exactly the texts the encoder produces. -/
def decode (input : Bytes) : Option Bytes :=
  if input.length % 4 ≠ 0 || input.any (fun b => !isBase64Byte b)
      || (input.findIdx? (· == padding)).any (fun first => first < input.length - 2) then none
  else
    match decodeLoop ⟨0, 0⟩ input with
    | none => none
    | some out => if encode out = input then some out else none

theorem encode_of_decode {input out : Bytes} (h : decode input = some out) :
    encode out = input := by
  unfold decode at h
  split at h
  · cases h
  split at h
  · cases h
  split at h
  · next heq => exact Option.some.inj h ▸ heq
  · cases h

/-! ## Characters -/

variable (value : ℕ)

theorem letter_mod : letter (value % 64) = letter value := by
  simp [letter]

theorem findIdx?_letter {value : ℕ} (h : value < 64) :
    alphabet.findIdx? (· == letter value) = some value := by
  interval_cases value <;> decide

theorem letter_mem : letter value ∈ alphabet := by
  have h : value % 64 < alphabet.length := Nat.mod_lt value (by decide)
  rw [letter, getD_eq_getElem?_getD, getElem?_eq_getElem h]
  exact getElem_mem h

theorem letter_ne_padding : letter value ≠ padding := by
  have hp : ∀ b ∈ alphabet, b ≠ padding := by decide +kernel
  exact hp _ (letter_mem value)

@[simp] theorem isBase64Byte_letter : isBase64Byte (letter value) = true := by
  have hb : ∀ b ∈ alphabet, isBase64Byte b = true := by decide +kernel
  exact hb _ (letter_mem value)

/-! ## The decoding loop -/

theorem decodeLoop_letter (buffer : Buffer) (value : ℕ) (rest : Bytes) :
    decodeLoop buffer (letter value :: rest) =
      (decodeLoop (feed buffer (value % 64)).1 rest).map ((feed buffer (value % 64)).2 ++ ·) := by
  have hindex := findIdx?_letter (Nat.mod_lt value (by omega : 0 < 64))
  rw [letter_mod] at hindex
  rw [decodeLoop, if_neg (letter_ne_padding value), hindex]

/-- The first character of a chunk gives no byte. -/
theorem decodeLoop_first (v m : ℕ) : ∃ v', v' % 64 = m % 64 ∧
    ∀ rest, decodeLoop ⟨v, 0⟩ (letter m :: rest) = decodeLoop ⟨v', 6⟩ rest := by
  refine ⟨v * 64 % 2 ^ 32 + m % 64, by omega, fun rest => ?_⟩
  rw [decodeLoop_letter]
  simp [feed]

/-- Each further character completes a byte and leaves two bits fewer waiting. -/
theorem decodeLoop_next (v bits m : ℕ) (hb : bits = 0 ∨ bits = 2 ∨ bits = 4)
    (hv : v % 2 ^ (bits + 2) = m / 64 % 2 ^ (bits + 2)) :
    ∃ v', v' % 2 ^ bits = m % 2 ^ bits ∧
      ∀ rest, decodeLoop ⟨v, bits + 2⟩ (letter m :: rest) =
        (decodeLoop ⟨v', bits⟩ rest).map (UInt8.ofNat (m / 2 ^ bits) :: ·) := by
  refine ⟨v * 64 % 2 ^ 32 + m % 64, by rcases hb with rfl | rfl | rfl <;> omega, fun rest => ?_⟩
  have hbyte : UInt8.ofNat ((v * 64 % 2 ^ 32 + m % 64) / 2 ^ bits) =
      UInt8.ofNat (m / 2 ^ bits) := by
    apply UInt8.toNat_inj.mp
    rw [UInt8.toNat_ofNat', UInt8.toNat_ofNat']
    rcases hb with rfl | rfl | rfl <;> omega
  rw [decodeLoop_letter, ← hbyte]
  rcases hb with rfl | rfl | rfl <;> simp [feed]

theorem ofNat_eq_of_mod {n : ℕ} {b : UInt8} (h : n % 256 = b.toNat) : UInt8.ofNat n = b := by
  apply UInt8.toNat_inj.mp
  rw [UInt8.toNat_ofNat', ← h]

variable (input : Bytes)

theorem decodeLoop_encode : ∀ v, decodeLoop ⟨v, 0⟩ (encode input) = some input := by
  induction input using encode.induct with
  | case1 a b c rest ih =>
    intro v
    have ha := a.toNat_lt
    have hb := b.toNat_lt
    have hc := c.toNat_lt
    obtain ⟨n, hn, he⟩ := encode_triple a b c rest
    obtain ⟨v1, hv1, h1⟩ := decodeLoop_first v (n / 262144)
    obtain ⟨v2, hv2, h2⟩ := decodeLoop_next v1 4 (n / 4096) (by omega) (by omega)
    obtain ⟨v3, hv3, h3⟩ := decodeLoop_next v2 2 (n / 64) (by omega) (by omega)
    obtain ⟨v4, -, h4⟩ := decodeLoop_next v3 0 n (by omega) (by omega)
    rw [he, h1, h2, h3, h4, ih, ofNat_eq_of_mod (b := a) (by omega),
      ofNat_eq_of_mod (b := b) (by omega), ofNat_eq_of_mod (b := c) (by omega)]
    rfl
  | case2 a b =>
    intro v
    have ha := a.toNat_lt
    have hb := b.toNat_lt
    obtain ⟨n, hn, he⟩ := encode_pair a b
    obtain ⟨v1, hv1, h1⟩ := decodeLoop_first v (n / 262144)
    obtain ⟨v2, hv2, h2⟩ := decodeLoop_next v1 4 (n / 4096) (by omega) (by omega)
    obtain ⟨v3, hv3, h3⟩ := decodeLoop_next v2 2 (n / 64) (by omega) (by omega)
    rw [he, h1, h2, h3, ofNat_eq_of_mod (b := a) (by omega), ofNat_eq_of_mod (b := b) (by omega)]
    rfl
  | case3 a =>
    intro v
    have ha := a.toNat_lt
    obtain ⟨n, hn, he⟩ := encode_single a
    obtain ⟨v1, hv1, h1⟩ := decodeLoop_first v (n / 262144)
    obtain ⟨v2, hv2, h2⟩ := decodeLoop_next v1 4 (n / 4096) (by omega) (by omega)
    rw [he, h1, h2, ofNat_eq_of_mod (b := a) (by omega)]
    rfl
  | case4 => simp [decodeLoop]

/-! ## The encoded text -/

/-- Letters, then padding to a multiple of four characters. -/
theorem encode_eq : ∃ values pads, encode input = map letter values ++ replicate pads padding ∧
    pads ≤ 2 ∧ values.length + pads = (input.length + 2) / 3 * 4 := by
  induction input using encode.induct with
  | case1 a b c rest ih =>
    obtain ⟨n, -, he⟩ := encode_triple a b c rest
    obtain ⟨values, pads, hr, hp, hl⟩ := ih
    refine ⟨n / 262144 :: n / 4096 :: n / 64 :: n :: values, pads, by rw [he, hr]; rfl, hp, ?_⟩
    simp only [length_cons]
    omega
  | case2 a b =>
    obtain ⟨n, -, he⟩ := encode_pair a b
    exact ⟨[n / 262144, n / 4096, n / 64], 1, he, by simp, by simp⟩
  | case3 a =>
    obtain ⟨n, -, he⟩ := encode_single a
    exact ⟨[n / 262144, n / 4096], 2, he, by simp, by simp⟩
  | case4 => exact ⟨[], 0, by simp, by simp, by simp⟩

theorem length_encode : (encode input).length = (input.length + 2) / 3 * 4 := by
  obtain ⟨values, pads, he, -, hl⟩ := encode_eq input
  rw [he, length_append, length_map, length_replicate, hl]

theorem isBase64Byte_of_mem_encode : ∀ b ∈ encode input, isBase64Byte b = true := by
  obtain ⟨values, pads, he, -⟩ := encode_eq input
  have hp : isBase64Byte padding = true := by decide
  rw [he]
  simp [or_imp, forall_and, hp]

/-- Padding stands only in the last two places. -/
theorem padding_position (i : ℕ) (h : (encode input).findIdx? (· == padding) = some i) :
    (encode input).length ≤ i + 2 := by
  obtain ⟨values, pads, he, hp, -⟩ := encode_eq input
  have hn : (map letter values).findIdx? (· == padding) = none := by
    simp [findIdx?_eq_none_iff, letter_ne_padding]
  rw [he, findIdx?_append, hn] at h
  obtain ⟨j, -, rfl⟩ := Option.map_eq_some_iff.mp h
  rw [he, length_append, length_replicate]
  omega

theorem decode_encode : decode (encode input) = some input := by
  have hc : (encode input).any (fun b => !isBase64Byte b) = false := by
    rw [any_eq_false]
    intro b hb
    simp [isBase64Byte_of_mem_encode input b hb]
  have hp : ((encode input).findIdx? (· == padding)).any
      (fun first => first < (encode input).length - 2) = false := by
    cases hf : (encode input).findIdx? (· == padding) with
    | none => rfl
    | some i =>
      have hle := padding_position input i hf
      simp only [Option.any_some, decide_eq_false_iff_not]
      omega
  rw [decode, hc, hp]
  simp [length_encode, decodeLoop_encode]

/-- The bytes a line-oriented text must not hold are not in the encoded text. -/
theorem not_mem_encode {b : UInt8} (hb : isBase64Byte b = false) (input : Bytes) :
    b ∉ encode input := by
  intro hm
  exact absurd (hb.symm.trans (isBase64Byte_of_mem_encode input b hm)) (by simp)

end Pigeonpost.Base64
