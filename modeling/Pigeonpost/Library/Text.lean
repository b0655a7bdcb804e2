import Pigeonpost.Library.ByteString
import Mathlib.Data.Nat.Digits.Defs
import Mathlib.Tactic.IntervalCases

/-! # Texts of lines

Splitting a text at a separator, its lines, and decimal numbers in it. -/

namespace Pigeonpost

open List

/-! ## Separators and prefixes -/

/-- The rest of a text behind a given start. -/
def stripStart (start text : Bytes) : Option Bytes :=
  if start.isPrefixOf text then some (text.drop start.length) else none

/-- The parts before and after the first occurrence of a text. -/
def splitOnceAt (sep : Bytes) : Bytes → Option (Bytes × Bytes)
  | [] => if sep.isEmpty then some ([], []) else none
  | b :: rest =>
    if sep.isPrefixOf (b :: rest) then some ([], (b :: rest).drop sep.length)
    else (splitOnceAt sep rest).map fun (before, after) => (b :: before, after)

theorem stripStart_append (start rest : Bytes) : stripStart start (start ++ rest) = some rest := by
  simp [stripStart]

variable {line : Bytes} {sep : UInt8}

theorem splitOnceAt_append_of_notMem (h : sep ∉ line) (rest : Bytes) :
    splitOnceAt [sep, sep] (line ++ rest) =
      (splitOnceAt [sep, sep] rest).map fun (before, after) => (line ++ before, after) := by
  induction line with
  | nil => simp
  | cons _ _ ih =>
    simp only [mem_cons, not_or] at h
    rw [cons_append, splitOnceAt, if_neg (by simp [isPrefixOf, h.1]), ih h.2]
    simp [Function.comp_def]

variable {text before after : Bytes} {f : UInt8 → UInt8}

theorem eq_of_splitOnceAt {sep : Bytes} (h : splitOnceAt sep text = some (before, after)) :
    text = before ++ (sep ++ after) := by
  induction text generalizing before after with
  | nil =>
    simp only [splitOnceAt, List.isEmpty_iff, Option.ite_none_right_eq_some, Option.some.injEq,
      Prod.mk.injEq] at h
    obtain ⟨rfl, rfl, rfl⟩ := h
    rfl
  | cons _ _ ih =>
    rw [splitOnceAt] at h
    split at h
    · rename_i hs
      cases h
      obtain ⟨tail, ht⟩ := isPrefixOf_iff_prefix.mp hs
      rw [← ht, drop_left, nil_append]
    · obtain ⟨⟨first, second⟩, hr, heq⟩ := Option.map_eq_some_iff.mp h
      cases heq
      rw [ih hr, cons_append]

/-- What stands behind a text does not move its first separator. -/
theorem splitOnceAt_append {sep : Bytes} (h : splitOnceAt sep text = some (before, after))
    (extra : Bytes) : splitOnceAt sep (text ++ extra) = some (before, after ++ extra) := by
  induction text generalizing before after with
  | nil =>
    simp only [splitOnceAt, List.isEmpty_iff, Option.ite_none_right_eq_some, Option.some.injEq,
      Prod.mk.injEq] at h
    obtain ⟨rfl, rfl, rfl⟩ := h
    cases extra <;> simp [splitOnceAt]
  | cons b rest ih =>
    have hle : sep.length ≤ (b :: rest).length := by
      rw [eq_of_splitOnceAt h, length_append, length_append]
      omega
    have hp : sep.isPrefixOf (b :: rest ++ extra) = sep.isPrefixOf (b :: rest) := by
      rw [Bool.eq_iff_iff, isPrefixOf_iff_prefix, isPrefixOf_iff_prefix]
      exact ⟨fun hs => prefix_of_prefix_length_le hs (prefix_append _ extra) hle,
        fun hs => hs.trans (prefix_append _ extra)⟩
    rw [splitOnceAt] at h
    rw [cons_append, splitOnceAt, ← cons_append, hp]
    split at h
    · rename_i hs
      cases h
      rw [if_pos hs, drop_append_of_le_length hle]
    · rename_i hs
      obtain ⟨⟨first, second⟩, hr, heq⟩ := Option.map_eq_some_iff.mp h
      cases heq
      rw [if_neg hs, ih hr]
      rfl

/-- Before the first doubled separator stands no separator. -/
theorem getLast?_of_splitOnceAt (h : splitOnceAt [sep, sep] text = some (before, after)) :
    before.getLast? ≠ some sep := by
  induction text generalizing before with
  | nil => simp [splitOnceAt] at h
  | cons b rest ih =>
    rw [splitOnceAt] at h
    split at h
    · cases h
      simp
    · rename_i hs
      obtain ⟨⟨first, second⟩, hr, heq⟩ := Option.map_eq_some_iff.mp h
      cases heq
      cases first with
      | nil =>
        rintro hb
        obtain rfl : b = sep := by simpa using hb
        exact hs (by rw [eq_of_splitOnceAt hr]; simp [isPrefixOf])
      | cons c first =>
        rw [getLast?_cons_cons]
        exact ih hr

theorem intercalate_cons_byte (sep : Bytes) (b : UInt8) (tail : Bytes) (rest : List Bytes) :
    sep.intercalate ((b :: tail) :: rest) = b :: sep.intercalate (tail :: rest) := by
  cases rest with
  | nil => simp
  | cons => simp [intercalate_cons_cons]

/-- Lines with a separator between them, all but the first nonempty, end at the first
doubled separator. -/
theorem splitOnceAt_intercalate (rest : Bytes) (lines : List Bytes) :
    ∀ first, (∀ line ∈ first :: lines, sep ∉ line) → (∀ line ∈ lines, line ≠ []) →
      splitOnceAt [sep, sep] ([sep].intercalate (first :: lines) ++ sep :: sep :: rest) =
        some ([sep].intercalate (first :: lines), rest) := by
  induction lines with
  | nil =>
    intro first hf _
    rw [intercalate_singleton, splitOnceAt_append_of_notMem (hf first (by simp))]
    simp [splitOnceAt, isPrefixOf]
  | cons second _ ih =>
    intro first hf hne
    have hr := ih second (fun line hl => hf line (by simp [hl]))
      fun line hl => hne line (by simp [hl])
    obtain ⟨b, tail, rfl⟩ := exists_cons_of_ne_nil (hne second (by simp))
    have hb : sep ≠ b := fun heq => hf (b :: tail) (by simp) (by simp [heq])
    rw [intercalate_cons_byte, cons_append] at hr
    rw [intercalate_cons_cons, intercalate_cons_byte, append_assoc, append_assoc,
      splitOnceAt_append_of_notMem (hf first (by simp)), singleton_append,
      cons_append, splitOnceAt, if_neg (by simp [isPrefixOf, hb]), hr]
    simp

/-- A byte map that keeps the separator keeps the parts. -/
theorem splitOn_map (hf : ∀ b, f b = sep ↔ b = sep) (text : Bytes) :
    (text.map f).splitOn sep = (text.splitOn sep).map (map f) := by
  induction text with
  | nil => simp
  | cons b text ih =>
    simp only [map_cons, splitOn_cons_eq_if_modifyHead, beq_iff_eq, hf, ih]
    split
    · rfl
    · cases text.splitOn sep <;> rfl

theorem splitOnce_map (hf : ∀ b, f b = sep ↔ b = sep) (text : Bytes) :
    splitOnce sep (text.map f) = (splitOnce sep text).map (Prod.map (map f) (map f)) := by
  induction text with
  | nil => rfl
  | cons b text ih =>
    simp only [map_cons, splitOnce, hf, ih]
    split
    · rfl
    · cases splitOnce sep text <;> rfl

theorem headD_splitOn (sep : UInt8) (text : Bytes) :
    (text.splitOn sep).headD [] = text.takeWhile (· != sep) := by
  induction text with
  | nil => simp
  | cons b text ih =>
    rw [splitOn_cons_eq_if_modifyHead, takeWhile_cons]
    by_cases hb : b = sep
    · simp [hb]
    · cases hs : text.splitOn sep with
      | nil => exact absurd hs (splitOn_ne_nil _ _)
      | cons first rest => simpa [hb, hs] using ih

/-! ## Lines -/

/-- A line without the carriage return before its newline. -/
def stripReturn (line : Bytes) : Bytes :=
  if line.getLast? = some 0x0d then line.dropLast else line

/-- The lines of a text: a final newline opens no further line, and a last line
without a newline keeps its carriage return. -/
def lines (text : Bytes) : List Bytes :=
  if text.isEmpty then []
  else
    match _h : splitOnce 0x0a text with
    | none => [text]
    | some (line, rest) => stripReturn line :: lines rest
termination_by text.length
decreasing_by
  obtain ⟨rfl, -⟩ := splitOnce_eq_some _h
  simp only [List.length_append, List.length_cons]
  omega

@[simp] theorem lines_nil : lines [] = [] := by
  rw [lines]
  rfl

theorem lines_append_newline (h : 0x0a ∉ line) (rest : Bytes) :
    lines (line ++ 0x0a :: rest) = stripReturn line :: lines rest := by
  rw [lines, if_neg (by simp)]
  split
  · next hn => rw [splitOnce_append h] at hn; cases hn
  rename_i hs
  rw [splitOnce_append h] at hs
  simp only [Option.some.injEq, Prod.mk.injEq] at hs
  rw [← hs.1, ← hs.2]

theorem splitOnce_eq_none (h : sep ∉ text) : splitOnce sep text = none := by
  induction text with
  | nil => rfl
  | cons _ _ ih =>
    simp only [mem_cons, not_or] at h
    rw [splitOnce, if_neg (Ne.symm h.1), ih h.2]
    rfl

theorem lines_of_no_newline (h : 0x0a ∉ line) (hne : line ≠ []) : lines line = [line] := by
  rw [lines, if_neg (by simpa using hne)]
  split
  · rfl
  · next hs => rw [splitOnce_eq_none h] at hs; cases hs

/-- A text that ends its last line goes on with further lines. -/
theorem lines_append (h : text.getLast? = some 0x0a) (extra : Bytes) :
    lines (text ++ extra) = lines text ++ lines extra := by
  induction text using lines.induct with
  | case1 _ he => simp [isEmpty_iff.mp he] at h
  | case2 _ _ hs =>
    obtain ⟨before, after, rfl, hb⟩ := eq_append_cons_of_mem (mem_of_getLast? h)
    exact absurd (hs.symm.trans (splitOnce_append hb after)) (by simp)
  | case3 _ _ _ rest hs ih =>
    obtain ⟨rfl, hf⟩ := splitOnce_eq_some hs
    rw [append_assoc, cons_append, lines_append_newline hf, lines_append_newline hf, cons_append]
    cases rest with
    | nil => simp
    | cons => rw [ih (by simpa using h)]

theorem stripReturn_eq_self (h : 0x0d ∉ line) : stripReturn line = line := by
  unfold stripReturn
  split
  · next hl => exact absurd (mem_of_getLast? hl) h
  · rfl

/-- Carriage returns before newlines stand at the ends of lines. -/
theorem return_newline_infix_iff (h : 0x0a ∉ line) (rest : Bytes) :
    [0x0d, 0x0a] <:+: line ++ 0x0a :: rest ↔
      line.getLast? = some 0x0d ∨ [0x0d, 0x0a] <:+: rest := by
  induction line with
  | nil => simp [infix_cons_iff]
  | cons b tail ih =>
    simp only [mem_cons, not_or] at h
    rw [cons_append, infix_cons_iff, ih h.2]
    cases tail with
    | nil => simp [eq_comm]
    | cons c tail =>
      have hc : ¬0x0a = c := fun heq => h.2 (heq ▸ mem_cons_self)
      simp [hc]

/-- A text is its lines joined, when no carriage return goes with a newline and the last
line has none. -/
theorem intercalate_lines (h : ¬[0x0d, 0x0a] <:+: text) (hl : text.getLast? ≠ some 0x0a) :
    [0x0a].intercalate (lines text) = text := by
  induction text using lines.induct with
  | case1 _ he => rw [isEmpty_iff.mp he, lines_nil, intercalate_nil]
  | case2 _ he hs =>
    rw [lines, if_neg he]
    split
    · exact intercalate_singleton
    · next hsome => exact absurd (hs.symm.trans hsome) (by simp)
  | case3 _ _ line rest hs ih =>
    obtain ⟨rfl, hf⟩ := splitOnce_eq_some hs
    rw [return_newline_infix_iff hf, not_or] at h
    obtain ⟨c, tail, rfl⟩ : ∃ c tail, rest = c :: tail :=
      exists_cons_of_ne_nil (by rintro rfl; simp at hl)
    have hr := ih h.2 (by simpa using hl)
    rw [lines_append_newline hf, stripReturn, if_neg h.1]
    cases hlines : lines (c :: tail) with
    | nil => simp [hlines] at hr
    | cons => rw [intercalate_cons_cons, ← hlines, hr, append_assoc, singleton_append]

theorem mem_of_mem_stripReturn {b : UInt8} (h : b ∈ stripReturn line) : b ∈ line := by
  unfold stripReturn at h
  split at h
  · exact dropLast_subset line h
  · exact h

theorem not_mem_of_mem_lines (h : line ∈ lines text) : 0x0a ∉ line := by
  induction text using lines.induct with
  | case1 _ he =>
    rw [lines, if_pos he] at h
    exact absurd h not_mem_nil
  | case2 _ he hs =>
    rw [lines, if_neg he] at h
    split at h
    · rw [mem_singleton.mp h]
      intro hm
      obtain ⟨before, after, rfl, hb⟩ := eq_append_cons_of_mem hm
      exact absurd (hs.symm.trans (splitOnce_append hb after)) (by simp)
    · next hsome => exact absurd (hs.symm.trans hsome) (by simp)
  | case3 _ _ _ _ hs ih =>
    obtain ⟨rfl, hf⟩ := splitOnce_eq_some hs
    rw [lines_append_newline hf] at h
    rcases mem_cons.mp h with rfl | hr
    · exact fun hm => hf (mem_of_mem_stripReturn hm)
    · exact ih hr

/-! ## UTF-8 -/

/-- Where a UTF-8 reader stands: the continuation bytes still due and the range of the next. -/
structure Utf8Position where
  due : ℕ
  low : UInt8
  high : UInt8
deriving DecidableEq

/-- Between two characters. -/
def utf8Boundary : Utf8Position := ⟨0, 0x80, 0xbf⟩

/-- The position behind the first byte of a character. -/
def utf8Start (b : UInt8) : Option Utf8Position :=
  if b < 0x80 then some utf8Boundary
  else if b < 0xc2 then none
  else if b < 0xe0 then some ⟨1, 0x80, 0xbf⟩
  else if b = 0xe0 then some ⟨2, 0xa0, 0xbf⟩
  else if b = 0xed then some ⟨2, 0x80, 0x9f⟩
  else if b < 0xf0 then some ⟨2, 0x80, 0xbf⟩
  else if b = 0xf0 then some ⟨3, 0x90, 0xbf⟩
  else if b < 0xf4 then some ⟨3, 0x80, 0xbf⟩
  else if b = 0xf4 then some ⟨3, 0x80, 0x8f⟩
  else none

def utf8Step (position : Option Utf8Position) (b : UInt8) : Option Utf8Position :=
  match position with
  | none => none
  | some ⟨0, _, _⟩ => utf8Start b
  | some ⟨due + 1, low, high⟩ =>
    if low ≤ b ∧ b ≤ high then some ⟨due, 0x80, 0xbf⟩ else none

/-- Whether a byte string is well-formed UTF-8. -/
def isUtf8 (text : Bytes) : Bool :=
  text.foldl utf8Step (some utf8Boundary) == some utf8Boundary

theorem isUtf8_append {a b : Bytes} (ha : isUtf8 a = true) (hb : isUtf8 b = true) :
    isUtf8 (a ++ b) = true := by
  simp only [isUtf8, beq_iff_eq] at ha hb ⊢
  rw [foldl_append, ha, hb]

theorem isUtf8_of_ascii (h : ∀ b ∈ text, b < 0x80) : isUtf8 text = true := by
  induction text with
  | nil => rfl
  | cons b _ ih =>
    have hb : utf8Step (some utf8Boundary) b = some utf8Boundary := if_pos (h b (by simp))
    have hr := ih fun c hc => h c (by simp [hc])
    simp only [isUtf8, beq_iff_eq, foldl_cons, hb] at hr ⊢
    exact hr

/-! ## Decimal numbers -/

def decimal (n : ℕ) : Bytes := (Nat.toDigits 10 n).map fun c => UInt8.ofNat c.toNat

def digitByte (d : ℕ) : UInt8 := UInt8.ofNat (0x30 + d)

def digitValue (b : UInt8) : ℕ := b.toNat - 0x30

/-- The number a digit string stands for. -/
def digitsValue (digits : Bytes) : ℕ := digits.foldl (fun acc b => acc * 10 + digitValue b) 0

/-- An unsigned number below `limit`: digits, with an optional plus sign. -/
def parseUnsigned (limit : ℕ) (text : Bytes) : Option ℕ :=
  let digits := match text with
    | 0x2b :: rest => rest
    | _ => text
  if digits.isEmpty || !digits.all isAsciiDigit then none
  else if digitsValue digits < limit then some (digitsValue digits)
  else none

variable {n : ℕ}

theorem decimal_of_lt (h : n < 10) : decimal n = [digitByte n] := by
  interval_cases n <;> rfl

theorem decimal_of_le (h : 10 ≤ n) : decimal n = decimal (n / 10) ++ [digitByte (n % 10)] := by
  have hl := decimal_of_lt (Nat.mod_lt n (by omega : 0 < 10))
  unfold decimal at hl ⊢
  rw [Nat.toDigits_eq_if (by omega), if_neg (by omega), map_append]
  rw [Nat.toDigits_of_lt_base (Nat.mod_lt n (by omega))] at hl
  rw [← hl]

/-- Induction on the digits of a number. -/
theorem decimal_induction {P : ℕ → Prop} (small : ∀ n, n < 10 → P n)
    (step : ∀ n, 10 ≤ n → P (n / 10) → P n) : ∀ n, P n := by
  intro n
  induction n using Nat.strong_induction_on with
  | _ n ih =>
    rcases Nat.lt_or_ge n 10 with h | h
    · exact small n h
    · exact step n h (ih _ (by omega))

theorem isAsciiDigit_digitByte {d : ℕ} (h : d < 10) : isAsciiDigit (digitByte d) = true := by
  interval_cases d <;> rfl

theorem digitValue_digitByte {d : ℕ} (h : d < 10) : digitValue (digitByte d) = d := by
  interval_cases d <;> rfl

theorem all_isAsciiDigit_decimal (n : ℕ) : (decimal n).all isAsciiDigit = true := by
  induction n using decimal_induction with
  | small n h => simp [decimal_of_lt h, isAsciiDigit_digitByte h]
  | step n h ih =>
    simp [decimal_of_le h, ih, isAsciiDigit_digitByte (Nat.mod_lt n (by omega : 0 < 10))]

theorem digitsValue_decimal (n : ℕ) : digitsValue (decimal n) = n := by
  induction n using decimal_induction with
  | small n h => simp [decimal_of_lt h, digitsValue, digitValue_digitByte h]
  | step n h ih =>
    unfold digitsValue at ih ⊢
    rw [decimal_of_le h, foldl_append, ih]
    simp only [foldl_cons, foldl_nil, digitValue_digitByte (Nat.mod_lt n (by omega : 0 < 10))]
    omega

theorem decimal_ne_nil (n : ℕ) : decimal n ≠ [] := by
  rcases Nat.lt_or_ge n 10 with h | h
  · simp [decimal_of_lt h]
  · simp [decimal_of_le h]

theorem length_decimal_le {k : ℕ} (hk : 0 < k) (h : n < 10 ^ k) : (decimal n).length ≤ k := by
  induction n using decimal_induction generalizing k with
  | small n hn =>
    rw [decimal_of_lt hn]
    exact hk
  | step n hn ih =>
    obtain ⟨k, rfl⟩ := Nat.exists_eq_succ_of_ne_zero hk.ne'
    have hkpos : 0 < k := by
      rcases Nat.eq_zero_or_pos k with rfl | hkpos
      · omega
      · exact hkpos
    have hd : n / 10 < 10 ^ k := by
      omega
    rw [decimal_of_le hn, length_append, length_singleton]
    exact Nat.succ_le_succ (ih hkpos hd)

theorem head?_decimal_ne (h : n ≠ 0) : (decimal n).head? ≠ some 0x30 := by
  induction n using decimal_induction with
  | small n => interval_cases n <;> simp_all [decimal_of_lt, digitByte]
  | step n hn ih =>
    have hd : n / 10 ≠ 0 := by omega
    rw [decimal_of_le hn, head?_append_of_ne_nil _ (decimal_ne_nil _)]
    exact ih hd

theorem not_mem_decimal {b : UInt8} (hb : isAsciiDigit b = false) (n : ℕ) : b ∉ decimal n := by
  intro hm
  have hd := all_eq_true.mp (all_isAsciiDigit_decimal n) b hm
  exact absurd (hb.symm.trans hd) (by simp)

theorem parseUnsigned_decimal_eq (limit n : ℕ) :
    parseUnsigned limit (decimal n) = if n < limit then some n else none := by
  have hd : (match decimal n with
      | 0x2b :: rest => rest
      | _ => decimal n) = decimal n := by
    split
    · rename_i rest heq
      have hm : (0x2b : UInt8) ∈ decimal n := by
        rw [heq]
        exact mem_cons_self
      exact absurd hm (not_mem_decimal rfl n)
    · rfl
  simp only [parseUnsigned, hd]
  simp [decimal_ne_nil, all_isAsciiDigit_decimal, digitsValue_decimal]

theorem parseUnsigned_decimal {limit : ℕ} (h : n < limit) :
    parseUnsigned limit (decimal n) = some n := by
  rw [parseUnsigned_decimal_eq, if_pos h]

theorem decimal_injective : Function.Injective decimal := by
  intro m n h
  rw [← digitsValue_decimal m, h, digitsValue_decimal]

end Pigeonpost
