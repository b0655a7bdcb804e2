import Pigeonpost.Library.Outcome
import Pigeonpost.Program.Seal.Manifest
import Mathlib.Algebra.Order.BigOperators.Group.List

/-! # Planned trace storage -/

namespace Pigeonpost

open List

/-- What the segments of a day and their manifest take up. -/
def dayBytes (frameBytes : ℕ) (sizes : List ℕ) : ℕ :=
  (sizes.map fun size => segmentHeaderLen + frameBytes * size + segmentFooterLen).sum +
    (epochManifestEntryLen * sizes.length + epochManifestFixedLen)

/-- Full segments and at most one that is not. -/
structure Packed (segmentSize : ℕ) (sizes : List ℕ) : Prop where
  filled : ∀ size ∈ sizes, 0 < size ∧ size ≤ segmentSize
  started : sizes.countP (· < segmentSize) ≤ 1

theorem Packed.length_le {segmentSize : ℕ} {sizes : List ℕ} (h : Packed segmentSize sizes)
    (hs : 0 < segmentSize) : sizes.length ≤ (sizes.sum + (segmentSize - 1)) / segmentSize := by
  have hsum : sizes.length * segmentSize ≤
      sizes.sum + sizes.countP (· < segmentSize) * (segmentSize - 1) := by
    have hf := h.filled
    clear h
    induction sizes with
    | nil => simp
    | cons size sizes ih =>
      obtain ⟨hp, hle⟩ := hf size (by simp)
      rw [length_cons, countP_cons, Nat.add_mul, Nat.add_mul]
      split <;> simp_all <;> omega
  rw [Nat.le_div_iff_mul_le hs]
  have ho := Nat.mul_le_mul_right (segmentSize - 1) h.started
  omega

section Plan

variable (frameBytes : ℕ)

/-- The planned bytes of a day of so many records, without bounds. -/
def dailyBytes (segmentSize records : ℕ) : ℕ :=
  let segments := (records + (segmentSize - 1)) / segmentSize
  (segmentHeaderLen + segmentFooterLen) * segments + frameBytes * records +
    (epochManifestEntryLen * segments + epochManifestFixedLen)

variable {frameBytes}

theorem dayBytes_le {segmentSize records : ℕ} {sizes : List ℕ} (h : Packed segmentSize sizes)
    (hs : 0 < segmentSize) (hr : sizes.sum ≤ records) :
    dayBytes frameBytes sizes ≤ dailyBytes frameBytes segmentSize records := by
  have hl : sizes.length ≤ (records + (segmentSize - 1)) / segmentSize :=
    (h.length_le hs).trans (Nat.div_le_div_right (by omega))
  have hsum : (sizes.map fun size => segmentHeaderLen + frameBytes * size + segmentFooterLen).sum =
      (segmentHeaderLen + segmentFooterLen) * sizes.length + frameBytes * sizes.sum := by
    clear h hr hl
    induction sizes with
    | nil => simp
    | cons size sizes ih =>
      rw [map_cons, sum_cons, ih, length_cons, sum_cons]
      ring
  rw [dayBytes, dailyBytes, hsum]
  gcongr

theorem checked_eq_error {exact : ℕ} {e : PlanRefusal} :
    checked exact = .error e ↔ u64Limit ≤ exact ∧ .overflow = e := by
  unfold checked
  split
  · simp [*]
  · simp [Nat.not_lt.mp ‹_›]

theorem checked_eq_ok {exact bytes : ℕ} :
    checked exact = .ok bytes ↔ exact < u64Limit ∧ exact = bytes := by
  unfold checked
  split <;> simp [*]

/-- The plan bounds every schedule of so many days that keeps to the rate, and it overflows
only where the exact sum does. -/
theorem planTraceStorageBytes_bounds (frameBytes : ℕ) (recordsPerMinute : UInt32)
    (capacityDays : UInt64) (maxRecordsPerSegment : UInt32) :
    (∀ bytes, requiredTraceStorageBytes frameBytes recordsPerMinute capacityDays
        maxRecordsPerSegment = .ok bytes →
      ∀ schedule : List (List ℕ), schedule.length = capacityDays.toNat →
        (∀ sizes ∈ schedule, Packed maxRecordsPerSegment.toNat sizes ∧
          sizes.sum ≤ recordsPerMinute.toNat * traceRateWindowsPerUtcDay) →
        (schedule.map (dayBytes frameBytes)).sum ≤ bytes) ∧
    (planTraceStorageBytes frameBytes recordsPerMinute capacityDays maxRecordsPerSegment =
        .error .overflow →
      u64Limit ≤ dailyBytes frameBytes maxRecordsPerSegment.toNat
          (recordsPerMinute.toNat * traceRateWindowsPerUtcDay) * capacityDays.toNat +
        traceLiveKeyBytes + traceTerminalReserveBytes) := by
  constructor
  · intro bytes h schedule hd hsch
    simp only [requiredTraceStorageBytes, ok_iff, planTraceStorageBytes, checked_eq_ok] at h
    obtain ⟨hp, _, ⟨-, rfl⟩, _, ⟨-, rfl⟩, -, _, ⟨-, rfl⟩, _, ⟨-, rfl⟩, _, ⟨-, rfl⟩, _, ⟨-, rfl⟩, _,
      ⟨-, rfl⟩, _, ⟨-, rfl⟩, _, ⟨-, rfl⟩, _, ⟨-, rfl⟩, _, ⟨-, rfl⟩, -, rfl⟩ := h
    have hs : 0 < maxRecordsPerSegment.toNat := by
      have hz : maxRecordsPerSegment.toNat ≠ 0 := fun hz => hp (.inr (.inr (.inl
        (UInt32.toNat_inj.mp hz))))
      omega
    have hsum := sum_le_card_nsmul (schedule.map (dayBytes frameBytes)) (dailyBytes frameBytes
      maxRecordsPerSegment.toNat (recordsPerMinute.toNat * traceRateWindowsPerUtcDay)) (by
        intro day hday
        obtain ⟨sizes, hm, rfl⟩ := mem_map.mp hday
        exact dayBytes_le (hsch sizes hm).1 hs (hsch sizes hm).2)
    rw [length_map, hd, nsmul_eq_mul, Nat.cast_id, Nat.mul_comm, dailyBytes] at hsum
    omega
  · intro h
    simp only [planTraceStorageBytes, guard_bind_eq_error, bind_eq_error, checked_eq_error,
      checked_eq_ok, pure_ne_error, reduceCtorEq, and_false, false_or, exists_false, or_false,
      and_true] at h
    obtain ⟨hp, h⟩ := h
    have hd : 0 < capacityDays.toNat :=
      Nat.pos_of_ne_zero fun hz => hp (.inr (.inl (UInt64.toNat_inj.mp hz)))
    have hsize : maxRecordsPerSegment.toNat ≤ maxSegmentRecords :=
      Nat.not_lt.mp fun hl => hp (.inr (.inr (.inr hl)))
    have hrate := recordsPerMinute.toNat_lt
    have hday := Nat.le_mul_of_pos_right (dailyBytes frameBytes maxRecordsPerSegment.toNat
      (recordsPerMinute.toNat * traceRateWindowsPerUtcDay)) hd
    have hr : recordsPerMinute.toNat * traceRateWindowsPerUtcDay +
        maxRecordsPerSegment.toNat < u64Limit := by
      simp only [traceRateWindowsPerUtcDay, u64Limit, maxSegmentRecords] at hsize ⊢
      omega
    -- whatever does not fit is a part of the exact sum
    simp only [dailyBytes] at hday ⊢
    rcases h with h | ⟨_, ⟨-, rfl⟩, h | ⟨_, ⟨-, rfl⟩, -, h | ⟨_, ⟨-, rfl⟩, h | ⟨_, ⟨-, rfl⟩, h |
      ⟨_, ⟨-, rfl⟩, h | ⟨_, ⟨-, rfl⟩, h | ⟨_, ⟨-, rfl⟩, h | ⟨_, ⟨-, rfl⟩, h | ⟨_, ⟨-, rfl⟩, h |
      ⟨_, ⟨-, rfl⟩, h⟩⟩⟩⟩⟩⟩⟩⟩⟩⟩
    all_goals omega

/-- Two days of at most a record each minute, and more days than a plan can count. -/
theorem planTraceStorageBytes_bounds_days :
    ([[1000, 441], [1000, 439]].map (dayBytes 800)).sum ≤ 10238969 ∧
      u64Limit ≤ dailyBytes 800 1000 1441 * 18446744073709551615 +
        traceLiveKeyBytes + traceTerminalReserveBytes := by
  constructor
  · refine (planTraceStorageBytes_bounds 800 1 2 1000).1 _ (by decide +kernel) _ rfl ?_
    simp only [forall_mem_cons]
    exact ⟨⟨⟨by decide, by decide⟩, by decide⟩, ⟨⟨by decide, by decide⟩, by decide⟩, by simp⟩
  · simpa [traceRateWindowsPerUtcDay] using
      (planTraceStorageBytes_bounds 800 1 18446744073709551615 1000).2 (by decide +kernel)

end Plan

end Pigeonpost
