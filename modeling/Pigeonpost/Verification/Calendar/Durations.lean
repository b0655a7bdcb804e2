import Pigeonpost.Program.Calendar

/-! # The durations that are read

The loop of `parse_duration` reads more than durations: a `T` may stand anywhere, units come in
any order, digits at the end are dropped, and sums wrap around. -/

namespace Pigeonpost.Calendar

open Option

/-! ## Two grammars -/

def unitSeconds : Char → Bool → Option ℕ
  | 'W', false => some (7 * 86400)
  | 'D', false => some 86400
  | 'H', true => some 3600
  | 'M', true => some 60
  | 'S', true => some 1
  | _, _ => none

/-- The letters behind the `P` of an RFC 5545 duration. -/
def durationShapes : List String :=
  ["W", "D", "DTH", "DTHM", "DTHMS", "DTM", "DTMS", "DTS", "TH", "THM", "THMS", "TM", "TMS", "TS"]

/-- Digits in front of every unit of a shape, and the seconds they stand for. -/
inductive Filled : Bool → List Char → List Char → ℕ → Prop
  | nil {inTime} : Filled inTime [] [] 0
  | time {inTime shape text n} : Filled true shape text n →
    Filled inTime ('T' :: shape) ('T' :: text) n
  | unit {inTime unit seconds d shape text n} : unitSeconds unit inTime = some seconds →
    d ≠ [] → d.all Char.isDigit = true → Filled inTime shape text n →
    Filled inTime (unit :: shape) (d ++ unit :: text) (digitsNumber d * seconds + n)

/-- A well-formed duration behind its `P`. -/
def DurValue (text : List Char) (n : ℕ) : Prop :=
  ∃ shape ∈ durationShapes, Filled false shape.toList text n

/-- What the loop reads behind the digits it holds, and the seconds this stands for. -/
inductive Lenient : Bool → List Char → List Char → ℕ → Prop
  | stop {inTime num} : Lenient inTime num [] 0
  | time {inTime num text n} : Lenient true num text n → Lenient inTime num ('T' :: text) n
  | digit {inTime num c text n} : c.isDigit = true → Lenient inTime (num ++ [c]) text n →
    Lenient inTime num (c :: text) n
  | unit {inTime num unit seconds text n} : unitSeconds unit inTime = some seconds →
    num ≠ [] → digitsNumber num < 2 ^ 63 → Lenient inTime [] text n →
    Lenient inTime num (unit :: text) (digitsNumber num * seconds + n)

/-- A text without a minus sign, and what stands behind its `P`. -/
def Unsigned (isWhiteSpace : Char → Bool) (text body : List Char) : Prop :=
  trim isWhiteSpace text = 'P' :: body ∨ trim isWhiteSpace text = '+' :: 'P' :: body

variable {inTime : Bool} {unit : Char} {seconds n n' : ℕ} {shape num text body : List Char}

theorem not_digit_of_unitSeconds (h : unitSeconds unit inTime = some seconds) :
    unit ≠ 'T' ∧ unit.isDigit = false ∧ 0 < seconds := by
  unfold unitSeconds at h
  split at h <;> cases h <;> decide

theorem Lenient.unique (h : Lenient inTime num text n) (h' : Lenient inTime num text n') :
    n = n' := by
  induction h generalizing n' with
  | stop => cases h'; rfl
  | time _ ih =>
    cases h' with
    | time h' => exact ih h'
    | digit hc => cases hc
    | unit hu => cases (not_digit_of_unitSeconds hu).1 rfl
  | digit hc _ ih =>
    cases h' with
    | time => cases hc
    | digit _ h' => exact ih h'
    | unit hu => cases hc.symm.trans (not_digit_of_unitSeconds hu).2.1
  | unit hu _ _ _ ih =>
    cases h' with
    | time => cases (not_digit_of_unitSeconds hu).1 rfl
    | digit hc => cases hc.symm.trans (not_digit_of_unitSeconds hu).2.1
    | unit hu' _ _ h' =>
      cases hu.symm.trans hu'
      rw [ih h']

theorem Unsigned.unique {isWhiteSpace : Char → Bool} {body' : List Char}
    (h : Unsigned isWhiteSpace text body) (h' : Unsigned isWhiteSpace text body') :
    body = body' := by
  rcases h with h | h <;> rcases h' with h' | h' <;> cases h.symm.trans h' <;> rfl

theorem Lenient.digits {digits : List Char} (hd : ∀ c ∈ digits, c.isDigit = true)
    (h : Lenient inTime (num ++ digits) text n) : Lenient inTime num (digits ++ text) n := by
  induction digits generalizing num with
  | nil => simpa using h
  | cons c digits ih =>
    obtain ⟨hc, hd⟩ := List.forall_mem_cons.mp hd
    exact .digit hc (ih hd (by simpa using h))

/-- What is well-formed is read, unless its numbers are out of range. -/
theorem Filled.lenient (h : Filled inTime shape text n) (hn : n < 2 ^ 63) :
    Lenient inTime [] text n := by
  induction h with
  | nil => exact .stop
  | time _ ih => exact .time (ih hn)
  | @unit _ _ _ d _ _ _ hu hne hd _ ih =>
    have hb := Nat.le_mul_of_pos_right (digitsNumber d) (not_digit_of_unitSeconds hu).2.2
    exact .digits (List.all_eq_true.mp hd) (.unit hu hne (by simp; omega) (ih (by omega)))

/-! ## The loop -/

theorem unitTotal_eq (n : ℕ) : unitTotal (.ofNat n) unit inTime =
    (unitSeconds unit inTime).map fun seconds => .ofNat (n * seconds) := by
  unfold unitTotal unitSeconds
  split <;> simp [Int64.ofNat_mul, Int64.mul_assoc]

theorem parseI64_eq_some {k : Int64} : parseI64 num = some k ↔
    num ≠ [] ∧ digitsNumber num < 2 ^ 63 ∧ .ofNat (digitsNumber num) = k := by
  simp only [parseI64, ite_none_left_eq_some, not_or, Nat.not_le, some.injEq, and_assoc, ne_eq]

theorem scanDuration_eq_some (total : ℕ) {result : Int64} :
    scanDuration (.ofNat total) num inTime text = some result ↔
      ∃ n, Lenient inTime num text n ∧ result = .ofNat (total + n) := by
  constructor
  · intro h
    induction text generalizing total num inTime with
    | nil => exact ⟨0, .stop, (some.inj h).symm⟩
    | cons c text ih =>
      rw [scanDuration] at h
      split_ifs at h with ht hd
      · obtain ⟨n, hl, hr⟩ := ih _ h
        exact ⟨n, ht ▸ .time hl, hr⟩
      · obtain ⟨n, hl, hr⟩ := ih _ h
        exact ⟨n, .digit hd hl, hr⟩
      · simp only [bind_eq_bind, bind_eq_some_iff, parseI64_eq_some] at h
        obtain ⟨_, ⟨hne, hb, rfl⟩, _, ha, h⟩ := h
        rw [unitTotal_eq] at ha
        obtain ⟨seconds, hu, rfl⟩ := map_eq_some_iff.mp ha
        rw [← Int64.ofNat_add] at h
        obtain ⟨n, hl, hr⟩ := ih _ h
        exact ⟨_, .unit hu hne hb hl, by rw [hr, Nat.add_assoc]⟩
  · rintro ⟨n, h, rfl⟩
    induction h generalizing total with
    | stop => rfl
    | time _ ih => exact ih total
    | digit hc _ ih =>
      rw [scanDuration, if_neg (by rintro rfl; cases hc), if_pos hc, ih]
    | unit hu hne hb _ ih =>
      obtain ⟨ht, hd, -⟩ := not_digit_of_unitSeconds hu
      rw [scanDuration, if_neg ht, if_neg (by simp [hd]), parseI64_eq_some.mpr ⟨hne, hb, rfl⟩]
      simp only [bind_eq_bind, bind_some, unitTotal_eq, hu, map_some]
      rw [← Int64.ofNat_add, ih, Nat.add_assoc]

theorem unsignedDuration_eq_some {neg : Bool} {total : Int64} :
    unsignedDuration neg text = some total ↔ neg = false ∧ ∃ body n, text = 'P' :: body ∧
      Lenient false [] body n ∧ total = .ofNat n ∧ 0 < total ∧ total ≤ 366 * 86400 := by
  unfold unsignedDuration
  split
  · rename_i s
    simp only [bind_eq_bind, bind_eq_some_iff, ite_none_left_eq_some,
      some.injEq, Bool.or_eq_true, decide_eq_true_eq, not_or, Bool.not_eq_true,
      Int64.not_le, Int64.not_lt, gt_iff_lt, List.cons.injEq, true_and]
    constructor
    · rintro ⟨_, hs, ⟨⟨hn, hp⟩, hb⟩, rfl⟩
      obtain ⟨n, hl, ht⟩ := (scanDuration_eq_some 0).mp hs
      exact ⟨hn, s, n, rfl, hl, by rw [ht, Nat.zero_add], hp, hb⟩
    · rintro ⟨hn, _, n, rfl, hl, ht, hp, hb⟩
      exact ⟨total, (scanDuration_eq_some 0).mpr ⟨n, hl, by rw [ht, Nat.zero_add]⟩,
        ⟨⟨hn, hp⟩, hb⟩, rfl⟩
  · rename_i hne
    simp only [reduceCtorEq, false_iff, not_and, not_exists]
    rintro - body n rfl
    exact absurd rfl (hne body)

theorem parseDuration_eq_some (isWhiteSpace : Char → Bool) {total : Int64} :
    parseDuration isWhiteSpace text = some total ↔ ∃ body n, Unsigned isWhiteSpace text body ∧
      Lenient false [] body n ∧ total = .ofNat n ∧ 0 < total ∧ total ≤ 366 * 86400 := by
  unfold parseDuration Unsigned
  generalize trim isWhiteSpace text = text
  split
  · simp [unsignedDuration_eq_some]
  · simp [unsignedDuration_eq_some]
  · rename_i hm hp
    simp only [unsignedDuration_eq_some, true_and, or_iff_left (hp _)]

theorem ofNat_counts (hn : n ≤ 366 * 86400) :
    (0 < Int64.ofNat n ↔ 0 < n) ∧ Int64.ofNat n ≤ 366 * 86400 := by
  rw [Int64.lt_iff_toInt_lt, Int64.le_iff_toInt_le, Int64.toInt_ofNat_of_lt (by omega)]
  exact ⟨Int.natCast_pos, Int.ofNat_le.mpr hn⟩

/-- A text is read by the loose grammar, and exactly just where what it reads is a duration that
is not too long. -/
theorem parseDuration_exact_iff (isWhiteSpace : Char → Bool) (text : List Char) :
    (∀ total, parseDuration isWhiteSpace text = some total ↔
      ∃ body n, Unsigned isWhiteSpace text body ∧ Lenient false [] body n ∧ total = .ofNat n ∧
        0 < total ∧ total ≤ 366 * 86400) ∧
    ((∀ total, parseDuration isWhiteSpace text = some total ↔
      ∃ body n, Unsigned isWhiteSpace text body ∧ DurValue body n ∧ total = .ofNat n ∧
        0 < n ∧ n ≤ 366 * 86400) ↔
      ∀ body n, Unsigned isWhiteSpace text body → Lenient false [] body n →
        0 < Int64.ofNat n → Int64.ofNat n ≤ 366 * 86400 → DurValue body n ∧ n ≤ 366 * 86400) := by
  have hr : ∀ {body n}, DurValue body n → n ≤ 366 * 86400 → Lenient false [] body n := by
    rintro body n ⟨_, -, hf⟩ hn
    exact hf.lenient (by omega)
  refine ⟨fun total => parseDuration_eq_some isWhiteSpace, fun h body n hu hl hp hb => ?_,
    fun h total => (parseDuration_eq_some isWhiteSpace).trans ⟨?_, ?_⟩⟩
  · have hs := (parseDuration_eq_some isWhiteSpace).mpr ⟨body, n, hu, hl, rfl, hp, hb⟩
    obtain ⟨body', n', hu', hd, -, -, hn⟩ := (h _).mp hs
    cases hu.unique hu'
    cases hl.unique (hr hd hn)
    exact ⟨hd, hn⟩
  · rintro ⟨body, n, hu, hl, rfl, hp, hb⟩
    obtain ⟨hd, hn⟩ := h body n hu hl hp hb
    exact ⟨body, n, hu, hd, rfl, (ofNat_counts hn).1.mp hp, hn⟩
  · rintro ⟨body, n, hu, hd, rfl, hp, hn⟩
    exact ⟨body, n, hu, hr hd hn, rfl, (ofNat_counts hn).1.mpr hp, (ofNat_counts hn).2⟩

theorem parseDuration_exact_week :
    parseDuration Char.isWhitespace " +P2W".toList = some 1209600 := by
  have hu : Unsigned Char.isWhitespace " +P2W".toList "2W".toList := .inr (by decide +kernel)
  obtain ⟨_, hf, rfl⟩ : ∃ n, Filled false "W".toList "2W".toList n ∧ n = 1209600 :=
    ⟨_, .unit (d := ['2']) rfl (by decide) rfl .nil, by decide⟩
  have hd : DurValue "2W".toList 1209600 := ⟨"W", .head _, hf⟩
  refine ((parseDuration_exact_iff _ _).2.mpr (fun body n hu' hl _ _ => ?_) _).mpr
    ⟨_, _, hu, hd, rfl, by decide⟩
  cases hu.unique hu'
  cases hl.unique (hf.lenient (by decide))
  exact ⟨hd, by decide⟩

/-- More than five hundred billion years wrap around to a week, and digits without their
letter are dropped. -/
theorem parseDuration_wraps :
    (∃ n, DurValue "30500568904944W".toList n ∧ 366 * 86400 < n) ∧
      parseDuration Char.isWhitespace "P30500568904944W".toList = some 579584 ∧
      parseDuration Char.isWhitespace "PT1H30".toList = some 3600 :=
  ⟨⟨_, ⟨"W", .head _, .unit (d := "30500568904944".toList) rfl (by decide) rfl .nil⟩,
    by decide⟩, by decide +kernel, by decide +kernel⟩

end Pigeonpost.Calendar
