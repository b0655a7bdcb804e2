import Mathlib.Algebra.Group.Nat.Defs
import Pigeonpost.Library.Outcome

/-! # Recurring events and durations (`pigeonpost-postbox/src/calendar`: `time.rs`, `ics.rs`)

Instants and wall times are seconds, a wall time counted as if it were UTC. -/

namespace Pigeonpost.Calendar

/-- The instants at which the clocks of a zone show a wall time. -/
inductive LocalResult where
  | none
  | single (instant : ℤ)
  | ambiguous (first second : ℤ)

def LocalResult.instants : LocalResult → List ℤ
  | none => []
  | single instant => [instant]
  | ambiguous first second => [first, second]

/-- A time zone: its offset at every instant, and the instants of every wall time. -/
structure Zone where
  offset : ℤ → ℤ
  fromLocal : ℤ → LocalResult
  bounded : ∀ instant, -(18 * 3600) ≤ offset instant ∧ offset instant ≤ 18 * 3600
  shows : ∀ wall instant, instant ∈ (fromLocal wall).instants ↔ instant + offset instant = wall

namespace Zone

variable (zone : Zone)

def toLocal (instant : ℤ) : ℤ := instant + zone.offset instant

/-- The offset in force before a gap: half-hours back until the wall time exists. -/
def offsetBefore (probe : ℤ) : ℕ → Option ℤ
  | 0 => none
  | steps + 1 =>
    match zone.fromLocal (probe - 1800) with
    | .single instant | .ambiguous instant _ => some (zone.offset instant)
    | .none => offsetBefore (probe - 1800) steps

def resolveRfc (wall : ℤ) : ℤ :=
  match zone.fromLocal wall with
  | .single instant => instant
  | .ambiguous first second => min first second
  | .none => wall - (zone.offsetBefore wall 48).getD 0

end Zone

/-- A rule with the wall times it generates apart from its `UNTIL`, which is an instant, or
midnight of a date for days. -/
structure Rule where
  /-- Why the engine refuses to read the stored rule. -/
  invalid : Option String
  generates : ℤ → Bool
  bound : Option ℤ

/-- The text that names an occurrence, by its date or its wall time. -/
inductive Key where
  | date (day : ℤ)
  | timed (wall : ℤ)
deriving DecidableEq

/-- What expansion needs to know about an event. -/
structure Series where
  allDay : Bool
  start : ℤ
  length : ℤ
  zone : Zone
  rule : Option Rule
  exdates : List Key

/-- One generated occurrence. -/
structure Instance where
  key : Key
  localStart : ℤ
  localEnd : ℤ
  startsAt : ℤ
  endsAt : ℤ
deriving DecidableEq

/-- `DateTime::from_timestamp` with its default: an instant that chrono cannot hold is taken for
the start of 1970. -/
def fromTimestamp (seconds : ℤ) : ℤ :=
  if -8334601228800 ≤ seconds ∧ seconds ≤ 8210266876799 then seconds else 0

namespace Series

variable (series : Series)

/-- The last wall time that `naive_set` lets the rule generate. -/
def naiveUntil (rule : Rule) : Option ℤ :=
  rule.bound.map fun bound => if series.allDay then bound + 86399 else series.zone.toLocal bound

/-- Whether the engine generates a wall time. -/
def generates (rule : Rule) (wall : ℤ) : Bool :=
  rule.generates wall && (series.naiveUntil rule).all (wall ≤ ·)

def between (rule : Rule) (lo hi : ℤ) : List ℤ :=
  ((List.range (hi + 1 - lo).toNat).map fun n : ℕ => lo + n).filter (series.generates rule)

def keyOf (wall : ℤ) : Key := if series.allDay then .date (wall / 86400) else .timed wall

def instanceAt (wall : ℤ) : Instance :=
  let localEnd := wall + series.length
  if series.allDay then ⟨series.keyOf wall, wall, localEnd, wall, localEnd⟩
  else
    let startsAt := series.zone.resolveRfc wall
    ⟨series.keyOf wall, wall, localEnd, startsAt,
      max (series.zone.resolveRfc localEnd) (startsAt + 60)⟩

def slack : ℤ := if series.allDay then 14 * 3600 else 0

/-- What the engine has for a window, which is widened by any offset and the length. -/
def asked (rule : Rule) (lower upper : ℤ) : List ℤ :=
  let lo := fromTimestamp (lower - series.slack - 18 * 3600) - series.length
  series.between rule (max lo series.start) (fromTimestamp (upper + series.slack + 18 * 3600))

/-- How many wall times the engine returns at most. -/
def cap (limit : ℕ) : ℕ := min (limit * 3 + 16) 65535

end Series

/-! ## Durations -/

/-- White space is Unicode's. -/
def trim (isWhiteSpace : Char → Bool) (text : List Char) : List Char :=
  ((text.dropWhile isWhiteSpace).reverse.dropWhile isWhiteSpace).reverse

def digitsNumber (digits : List Char) : ℕ :=
  digits.foldl (fun n c => n * 10 + (c.toNat - 0x30)) 0

/-- `str::parse` of digits. -/
def parseI64 (digits : List Char) : Option Int64 :=
  if digits = [] ∨ 2 ^ 63 ≤ digitsNumber digits then none
  else some (.ofNat (digitsNumber digits))

def unitTotal (n : Int64) : Char → Bool → Option Int64
  | 'W', false => some (n * 7 * 86400)
  | 'D', false => some (n * 86400)
  | 'H', true => some (n * 3600)
  | 'M', true => some (n * 60)
  | 'S', true => some n
  | _, _ => none

/-- The loop of `parse_duration`, whose sums wrap around. -/
def scanDuration (total : Int64) (num : List Char) (inTime : Bool) : List Char → Option Int64
  | [] => some total
  | ch :: rest =>
    if ch = 'T' then scanDuration total num true rest
    else if ch.isDigit then scanDuration total (num ++ [ch]) inTime rest
    else do
      let n ← parseI64 num
      let added ← unitTotal n ch inTime
      scanDuration (total + added) [] inTime rest

/-- `parse_duration` behind the sign. -/
def unsignedDuration (neg : Bool) : List Char → Option Int64
  | 'P' :: s => do
    let total ← scanDuration 0 [] false s
    if neg || total ≤ 0 || total > 366 * 86400 then none else some total
  | _ => none

def parseDuration (isWhiteSpace : Char → Bool) (text : List Char) : Option Int64 :=
  match trim isWhiteSpace text with
  | '-' :: s => unsignedDuration true s
  | '+' :: s => unsignedDuration false s
  | s => unsignedDuration false s

end Pigeonpost.Calendar
