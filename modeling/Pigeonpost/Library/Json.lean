import Pigeonpost.Library.Text

/-! # Compact JSON texts

What a compact JSON writer emits for numbers, byte arrays and objects whose texts need no
escapes, and how long it is. -/

namespace Pigeonpost.Json

open List Json

def separated (items : List Bytes) : Bytes := List.intercalate [0x2c] items

def array (items : List Bytes) : Bytes := 0x5b :: (separated items ++ [0x5d])

def object (members : List Bytes) : Bytes := 0x7b :: (separated members ++ [0x7d])

/-- A text without characters that need an escape. -/
def plainText (text : Bytes) : Bytes := 0x22 :: (text ++ [0x22])

def member (name : String) (value : Bytes) : Bytes := plainText (ascii name) ++ 0x3a :: value

def number (n : ℕ) : Bytes := decimal n

def byteArray (bytes : Bytes) : Bytes := array (bytes.map fun b => number b.toNat)

def boolean (b : Bool) : Bytes := if b then ascii "true" else ascii "false"

/-! ## Lengths -/

theorem length_separated : ∀ items : List Bytes,
    (separated items).length = (items.map length).sum + (items.length - 1) := by
  intro items
  induction items with
  | nil => rfl
  | cons item rest ih =>
    cases rest with
    | nil => simp [separated]
    | cons next rest =>
      have hc : separated (item :: next :: rest) =
          item ++ 0x2c :: separated (next :: rest) := by simp [separated]
      rw [hc, length_append, length_cons, ih]
      simp only [map_cons, sum_cons, length_cons]
      omega

theorem length_array (items : List Bytes) :
    (array items).length = (items.map length).sum + (items.length - 1) + 2 := by
  simp only [array, length_cons, length_append, length_separated, length_nil]

theorem length_object (members : List Bytes) :
    (object members).length = (members.map length).sum + (members.length - 1) + 2 := by
  simp only [object, length_cons, length_append, length_separated, length_nil]

@[simp] theorem length_plainText (text : Bytes) : (plainText text).length = text.length + 2 := by
  simp [plainText]

@[simp] theorem length_member (name : String) (value : Bytes) :
    (member name value).length = (ascii name).length + value.length + 3 := by
  simp only [member, length_append, length_plainText, length_cons]
  omega

theorem length_number_byte (b : UInt8) : (number b.toNat).length ≤ 3 :=
  length_decimal_le (by decide) (b.toNat_lt.trans (by decide))

theorem length_number_u64 (n : UInt64) : (number n.toNat).length ≤ 20 :=
  length_decimal_le (by decide) (n.toNat_lt.trans (by decide))

theorem length_byteArray_le {bytes : Bytes} (h : bytes ≠ []) :
    (byteArray bytes).length ≤ 4 * bytes.length + 1 := by
  have hs : ((bytes.map fun b => number b.toNat).map length).sum ≤ 3 * bytes.length := by
    clear h
    induction bytes with
    | nil => simp
    | cons b =>
      have hb := length_number_byte b
      simp only [map_cons, sum_cons, length_cons]
      omega
  have hp : 0 < bytes.length := length_pos_iff.mpr h
  rw [byteArray, length_array, length_map]
  omega

/-! ## Values are read back

A value is over where something follows that does not go on with a digit. -/

def Stops (rest : Bytes) : Prop := ∀ b ∈ rest.head?, isAsciiDigit b = false

/-- A text of a value determines the value and where it ends. -/
def SelfDelimiting {α : Type} (write : α → Bytes) : Prop :=
  ∀ a b x y, Stops x → Stops y → write a ++ x = write b ++ y → a = b ∧ x = y

variable (rest : Bytes)

theorem stops_comma : Stops (0x2c :: rest) := by
  intro b hb
  cases hb
  rfl

theorem stops_bracket : Stops (0x5d :: rest) := by
  intro b hb
  cases hb
  rfl

theorem stops_brace : Stops (0x7d :: rest) := by
  intro b hb
  cases hb
  rfl

theorem takeWhile_number {rest : Bytes} (h : Stops rest) (n : ℕ) :
    (number n ++ rest).takeWhile isAsciiDigit = number n := by
  have hd := all_eq_true.mp (all_isAsciiDigit_decimal n)
  rw [number, takeWhile_append_of_pos hd]
  cases rest with
  | nil => simp
  | cons b => simp [h b rfl]

theorem selfDelimiting_number : SelfDelimiting number := by
  intro a b x y hx hy h
  have hd := congrArg (takeWhile isAsciiDigit) h
  rw [takeWhile_number hx, takeWhile_number hy] at hd
  obtain rfl := decimal_injective hd
  exact ⟨rfl, append_cancel_left h⟩

variable {α : Type}

theorem SelfDelimiting.comp {β : Type} {write : β → Bytes} (h : SelfDelimiting write) {f : α → β}
    (hf : Function.Injective f) : SelfDelimiting fun a => write (f a) := by
  intro a b x y hx hy heq
  obtain ⟨hab, hxy⟩ := h (f a) (f b) x y hx hy heq
  exact ⟨hf hab, hxy⟩

variable {write : α → Bytes} {name : String} {x y : Bytes}

/-- One member of an object and what follows it. -/
theorem SelfDelimiting.split_member (h : SelfDelimiting write) {a b : α}
    (hx : Stops x) (hy : Stops y)
    (heq : member name (write a) ++ x = member name (write b) ++ y) : a = b ∧ x = y := by
  simp only [member, append_assoc, cons_append] at heq
  exact h a b x y hx hy (cons.inj (append_cancel_left heq)).2

theorem SelfDelimiting.next_member (h : SelfDelimiting write) {a b : α}
    (heq : member name (write a) ++ 0x2c :: x = member name (write b) ++ 0x2c :: y) :
    a = b ∧ x = y := by
  obtain ⟨hab, hxy⟩ := h.split_member (stops_comma x) (stops_comma y) heq
  exact ⟨hab, (cons.inj hxy).2⟩

/-- What follows the first item of an array. -/
def afterItem (items : List Bytes) (rest : Bytes) : Bytes :=
  if items = [] then 0x5d :: rest else 0x2c :: (separated items ++ 0x5d :: rest)

theorem separated_cons_append (item : Bytes) (items : List Bytes) (rest : Bytes) :
    separated (item :: items) ++ 0x5d :: rest = item ++ afterItem items rest := by
  cases items with
  | nil | cons => simp [separated, afterItem]

theorem stops_afterItem (items : List Bytes) (rest : Bytes) : Stops (afterItem items rest) := by
  unfold afterItem
  split
  · exact stops_bracket rest
  · exact stops_comma _

/-- An array of self-delimiting items that do not look like its end. -/
theorem SelfDelimiting.array (h : SelfDelimiting write)
    (hitem : ∀ a x y, write a ++ x ≠ 0x5d :: y) :
    SelfDelimiting fun items : List α => Json.array (items.map write) := by
  intro items items' x y _ _ heq
  simp only [Json.array, cons_append, append_assoc, nil_append, cons.injEq, true_and] at heq
  induction items generalizing items' with
  | nil =>
    cases items' with
    | nil => simpa [separated] using heq
    | cons =>
      rw [map_cons, separated_cons_append] at heq
      exact absurd heq.symm (hitem _ _ _)
  | cons a items ih =>
    cases items' with
    | nil =>
      rw [map_cons, separated_cons_append] at heq
      exact absurd heq (hitem _ _ _)
    | cons b items' =>
      rw [map_cons, map_cons, separated_cons_append, separated_cons_append] at heq
      obtain ⟨rfl, ht⟩ := h a b _ _ (stops_afterItem _ _) (stops_afterItem _ _) heq
      simp only [afterItem, map_eq_nil_iff] at ht
      by_cases hitems : items = [] <;> by_cases hi' : items' = []
      · subst hitems hi'
        simpa using ht
      · simp [hitems, hi'] at ht
      · simp [hitems, hi'] at ht
      · rw [if_neg hitems, if_neg hi'] at ht
        obtain ⟨rfl, rfl⟩ := ih items' (cons.inj ht).2
        exact ⟨rfl, rfl⟩

theorem number_append_ne {n : ℕ} : number n ++ x ≠ 0x5d :: y := by
  intro h
  cases hd : number n with
  | nil => exact decimal_ne_nil n hd
  | cons b =>
    rw [hd] at h
    have hb : b ∈ number n := hd ▸ mem_cons_self
    rw [(cons.inj h).1] at hb
    exact not_mem_decimal rfl n hb

theorem selfDelimiting_byteArray : SelfDelimiting byteArray :=
  (selfDelimiting_number.comp fun _ _ => UInt8.toNat_inj.mp).array fun _ _ _ => number_append_ne

theorem selfDelimiting_plainText (h : Function.Injective write) (hq : ∀ a, 0x22 ∉ write a) :
    SelfDelimiting fun a => plainText (write a) := by
  intro a b x y _ _ heq
  simp only [plainText, cons_append, append_assoc, nil_append, cons.injEq, true_and] at heq
  obtain ⟨ht, hr⟩ := (append_sep_inj (hq a) (hq b)).mp heq
  exact ⟨h ht, hr⟩

end Pigeonpost.Json
