import Mathlib.Data.List.Basic
import Mathlib.Data.Vector.Defs
import Mathlib.Tactic.Ring

/-! # Byte strings

Texts and binary data as lists of bytes, with the text operations of a UTF-8
string library and fixed-width integers in both byte orders. -/

namespace Pigeonpost

open List hiding Vector

variable {width n : ℕ}

/-- Byte strings and UTF-8 texts. -/
abbrev Bytes := List UInt8

instance : LawfulBEq Bytes := inferInstance

def ascii (text : String) : Bytes := text.toList.map fun c => UInt8.ofNat c.toNat

/-- A property of all bytes, checked on their values. -/
theorem forall_byte {P : UInt8 → Prop} (h : ∀ n : Fin 256, P (UInt8.ofNat n)) (b : UInt8) :
    P b := by
  have hb := h ⟨b.toNat, b.toNat_lt⟩
  rwa [UInt8.ofNat_toNat] at hb

/-! ## ASCII classes -/

def isAsciiControl (b : UInt8) : Bool := b < 0x20 || b == 0x7f

def isAsciiDigit (b : UInt8) : Bool := 0x30 ≤ b && b ≤ 0x39

def isAsciiUppercase (b : UInt8) : Bool := 0x41 ≤ b && b ≤ 0x5a

def isAsciiLowercase (b : UInt8) : Bool := 0x61 ≤ b && b ≤ 0x7a

def isAsciiAlphanumeric (b : UInt8) : Bool :=
  isAsciiDigit b || isAsciiUppercase b || isAsciiLowercase b

def lowercaseByte (b : UInt8) : UInt8 := if isAsciiUppercase b then b + 0x20 else b

def toAsciiLowercase (text : Bytes) : Bytes := text.map lowercaseByte

theorem lowercaseByte_lowercaseByte : ∀ b, lowercaseByte (lowercaseByte b) = lowercaseByte b :=
  forall_byte (by decide +kernel)

theorem toAsciiLowercase_idem (text : Bytes) :
    toAsciiLowercase (toAsciiLowercase text) = toAsciiLowercase text := by
  simp [toAsciiLowercase, Function.comp_def, lowercaseByte_lowercaseByte]

def eqIgnoreAsciiCase (a b : Bytes) : Bool := toAsciiLowercase a == toAsciiLowercase b

/-! ## Splitting -/

/-- The parts before and after the first occurrence of a byte. -/
def splitOnce (sep : UInt8) : Bytes → Option (Bytes × Bytes)
  | [] => none
  | b :: rest =>
    if b = sep then some ([], rest)
    else (splitOnce sep rest).map fun (before, after) => (b :: before, after)

variable {sep : UInt8} {before : Bytes}

theorem splitOnce_eq_some {text after : Bytes} (h : splitOnce sep text = some (before, after)) :
    text = before ++ sep :: after ∧ sep ∉ before := by
  induction text generalizing before with
  | nil => simp [splitOnce] at h
  | cons b _ ih =>
    rw [splitOnce] at h
    by_cases hb : b = sep
    · rw [if_pos hb] at h
      obtain ⟨rfl, rfl⟩ := h
      simp [hb]
    · rw [if_neg hb, Option.map_eq_some_iff] at h
      obtain ⟨⟨before', after'⟩, hr, heq⟩ := h
      obtain ⟨rfl, rfl⟩ := heq
      obtain ⟨rfl, hn⟩ := ih hr
      simp [hn, Ne.symm hb]

theorem splitOnce_append (h : sep ∉ before) (after : Bytes) :
    splitOnce sep (before ++ sep :: after) = some (before, after) := by
  induction before with
  | nil => simp [splitOnce]
  | cons _ _ ih =>
    simp only [mem_cons, not_or] at h
    obtain ⟨hb, hr⟩ := h
    rw [cons_append, splitOnce, if_neg (Ne.symm hb), ih hr]
    rfl

/-- Two texts with separator-free heads agree exactly part by part. -/
theorem append_sep_inj {a b c d : Bytes} (ha : sep ∉ a) (hb : sep ∉ b) :
    a ++ sep :: c = b ++ sep :: d ↔ a = b ∧ c = d := by
  constructor
  · intro h
    have hs := congrArg (splitOnce sep) h
    rw [splitOnce_append ha, splitOnce_append hb] at hs
    simpa using hs
  · rintro ⟨rfl, rfl⟩
    rfl

/-- The parts before and after the last occurrence of a byte. -/
def rsplitOnce (sep : UInt8) (text : Bytes) : Option (Bytes × Bytes) :=
  (splitOnce sep text.reverse).map fun (after, before) => (before.reverse, after.reverse)

/-- Drops a trailing run of one byte. -/
def trimEndMatches (c : UInt8) (text : Bytes) : Bytes :=
  (text.reverse.dropWhile (· == c)).reverse

/-! ## Fixed-width integers -/

/-- The low `width` bytes of a number, least significant first. -/
def leBytes : ℕ → ℕ → Bytes
  | 0, _ => []
  | width + 1, n => UInt8.ofNat n :: leBytes width (n / 256)

/-- The low `width` bytes of a number, most significant first. -/
def beBytes (width n : ℕ) : Bytes := (leBytes width n).reverse

def readLE : Bytes → ℕ
  | [] => 0
  | b :: rest => b.toNat + 256 * readLE rest

def readBE (bytes : Bytes) : ℕ := readLE bytes.reverse

@[simp] theorem length_leBytes (width n : ℕ) : (leBytes width n).length = width := by
  induction width generalizing n with
  | zero => rfl
  | succ _ ih => simp [leBytes, ih]

@[simp] theorem length_beBytes (width n : ℕ) : (beBytes width n).length = width := by
  simp [beBytes]

/-- A number is read back up to a multiple of the range of its width. -/
theorem readLE_leBytes_mod (width n : ℕ) : readLE (leBytes width n) = n % 256 ^ width := by
  induction width generalizing n with
  | zero => simp [leBytes, readLE, Nat.mod_one]
  | succ width ih =>
    rw [leBytes, readLE, ih, UInt8.toNat_ofNat', pow_succ' 256 width, Nat.mod_mul (a := 256)]

theorem readLE_leBytes (h : n < 256 ^ width) : readLE (leBytes width n) = n := by
  rw [readLE_leBytes_mod, Nat.mod_eq_of_lt h]

theorem readBE_beBytes (h : n < 256 ^ width) : readBE (beBytes width n) = n := by
  simp [readBE, beBytes, readLE_leBytes h]

theorem leBytes_inj {m : ℕ} (hm : m < 256 ^ width) (hn : n < 256 ^ width) :
    leBytes width m = leBytes width n ↔ m = n := by
  constructor
  · intro h
    rw [← readLE_leBytes hm, h, readLE_leBytes hn]
  · rintro rfl
    rfl

theorem beBytes_inj {m : ℕ} (hm : m < 256 ^ width) (hn : n < 256 ^ width) :
    beBytes width m = beBytes width n ↔ m = n := by
  rw [beBytes, beBytes, reverse_inj, leBytes_inj hm hn]

/-! ## Cutting a fixed-width head -/

/-- Two concatenations with heads of one length agree exactly part by part. -/
theorem append_inj_of_length {a b c d : Bytes} (h : a.length = b.length) :
    a ++ c = b ++ d ↔ a = b ∧ c = d := by
  constructor
  · intro heq
    exact append_inj heq h
  · rintro ⟨rfl, rfl⟩
    rfl

theorem vector_append_inj {a b : Vector UInt8 n} {c d : Bytes} :
    a.toList ++ c = b.toList ++ d ↔ a = b ∧ c = d := by
  rw [append_inj_of_length (by simp), Vector.toList_inj]

/-- Elements that can be told apart at the head of a text can be told apart one by one. -/
theorem flatMap_append_inj {α : Type} {f : α → Bytes} {P : α → Prop}
    (hf : ∀ {x y c d}, P x → P y → f x ++ c = f y ++ d → x = y ∧ c = d) {xs ys : List α}
    (hl : xs.length = ys.length) (hx : ∀ x ∈ xs, P x) (hy : ∀ y ∈ ys, P y) {c d : Bytes}
    (h : xs.flatMap f ++ c = ys.flatMap f ++ d) : xs = ys ∧ c = d := by
  induction xs generalizing ys with
  | nil =>
    obtain rfl := length_eq_zero_iff.mp hl.symm
    exact ⟨rfl, h⟩
  | cons x xs ih =>
    obtain ⟨y, ys, rfl⟩ := exists_cons_of_length_eq_add_one hl.symm
    rw [flatMap_cons, flatMap_cons, append_assoc, append_assoc] at h
    rw [forall_mem_cons] at hx hy
    obtain ⟨rfl, hr⟩ := hf hx.1 hy.1 h
    obtain ⟨rfl, heq⟩ := ih (Nat.succ.inj hl) hx.2 hy.2 hr
    exact ⟨rfl, heq⟩

theorem take_drop_append {slice after : Bytes} {start : ℕ} (hs : before.length = start)
    (hw : slice.length = width) : ((before ++ (slice ++ after)).drop start).take width = slice := by
  rw [drop_left' hs, take_left' hw]

end Pigeonpost
