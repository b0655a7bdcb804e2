import Mathlib.Data.List.Sort
import Pigeonpost.Program.Calendar

/-! # The occurrences of a series -/

namespace Pigeonpost.Calendar

open List

/-! ## Wall times and instants -/

namespace Zone

variable (zone : Zone)

/-- The offset at which a wall time is read: that of its first instant, or the one in force
before a gap. -/
def readOffset (wall : ℤ) : ℤ :=
  match zone.fromLocal wall with
  | .single instant => zone.offset instant
  | .ambiguous first second => zone.offset (min first second)
  | .none => (zone.offsetBefore wall 48).getD 0

theorem resolveRfc_add_readOffset (wall : ℤ) :
    zone.resolveRfc wall + zone.readOffset wall = wall := by
  have hs := zone.shows wall
  unfold resolveRfc readOffset
  cases hr : zone.fromLocal wall with
  | single instant => exact (hs instant).mp (by simp [hr, LocalResult.instants])
  | ambiguous first second =>
    refine (hs _).mp ?_
    rcases Int.le_total first second with h | h
    · simp [hr, LocalResult.instants, Int.min_eq_left h]
    · simp [hr, LocalResult.instants, Int.min_eq_right h]
  | none => exact Int.sub_add_cancel ..

end Zone

/-! ## The end of a rule -/

/-- The end of a rule bounds an occurrence by its instant, unless the two instants are closer to
each other than the offsets at which they are read. -/
theorem until_by_instant (series : Series) (rule : Rule) {bound wall : ℤ}
    (hd : series.allDay = false) (hb : rule.bound = some bound) (hg : rule.generates wall = true) :
    let startsAt := (series.instanceAt wall).startsAt
    let change := series.zone.readOffset wall - series.zone.offset bound
    (series.generates rule wall = true ↔ startsAt ≤ bound) ↔
      ¬(startsAt ≤ bound ∧ bound < startsAt + change) ∧
        ¬(startsAt + change ≤ bound ∧ bound < startsAt) := by
  have hr := series.zone.resolveRfc_add_readOffset wall
  simp only [Series.generates, Series.naiveUntil, Series.instanceAt, Zone.toLocal, hd, hb, hg,
    Option.map_some, Option.all_some, Bool.true_and, decide_eq_true_eq, Bool.false_eq_true,
    if_false]
  omega

/-- Clocks that are set back from 02:00 to 01:00 at the instant 0. -/
def autumnZone : Zone where
  offset instant := if instant < 0 then 7200 else 3600
  fromLocal wall :=
    if wall < 3600 then .single (wall - 7200)
    else if wall < 7200 then .ambiguous (wall - 7200) (wall - 3600)
    else .single (wall - 3600)
  bounded instant := by split <;> decide
  shows wall instant := by
    split_ifs <;> simp [LocalResult.instants] <;> omega

/-- Every day at 01:30. -/
def autumnRule (bound : ℤ) : Rule := ⟨none, (· % 86400 == 5400), some bound⟩

def autumnSeries : Series := ⟨false, -81000, 3600, autumnZone, none, []⟩

/-- An hour and more behind the occurrence, its offset no longer matters. -/
theorem until_by_instant_autumn :
    autumnZone.readOffset 5400 ≠ autumnZone.offset 1800 ∧
      (autumnSeries.generates (autumnRule 1800) 5400 = true ↔
        (autumnSeries.instanceAt 5400).startsAt ≤ 1800) :=
  ⟨by decide, (until_by_instant autumnSeries (autumnRule 1800) rfl rfl rfl).mpr (by decide)⟩

/-- At 01:10 of the second hour, the end of the rule cuts off 01:30 of the first. -/
theorem until_cuts_earlier_instant :
    (autumnRule 600).generates 5400 = true ∧ (autumnSeries.instanceAt 5400).startsAt ≤ 600 ∧
      autumnSeries.generates (autumnRule 600) 5400 = false := by
  decide

/-! ## Windows -/

namespace Series

variable (series : Series) {lower upper : ℤ} {limit : ℕ}

/-- What the engine returns for a window. -/
def returned (rule : Rule) (lower upper : ℤ) (limit : ℕ) : List ℤ :=
  (series.asked rule lower upper).take (cap limit)

variable {rule : Rule} {wall : ℤ}

end Series

end Pigeonpost.Calendar
