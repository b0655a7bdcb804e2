import Pigeonpost.Verification.Checkpoint.Signed
import Pigeonpost.Verification.Shared.ByteHash

/-! # When a note was witnessed

The time of a cosigned note is an order statistic of the newest cosignatures of its roster,
so further signature lines can only move it forward. -/

namespace Pigeonpost.Checkpoint

open List

/-! ## The `k`-th largest of some numbers -/

/-- At least `k` of the numbers are as large as `value`, and fewer than `k` are larger. -/
def KthLargest (numbers : List ℕ) (k value : ℕ) : Prop :=
  k ≤ numbers.countP (value ≤ ·) ∧ numbers.countP (value < ·) < k

variable {numbers : List ℕ}

theorem exists_kthLargest {k : ℕ} (h : k < numbers.length) :
    ∃ value, (numbers.mergeSort fun left right => left ≥ right)[k]? = some value ∧
      KthLargest numbers (k + 1) value := by
  have hlt : k < (numbers.mergeSort fun left right => left ≥ right).length := by simpa using h
  refine ⟨_, getElem?_eq_getElem hlt, ?_⟩
  have hp := mergeSort_perm numbers fun left right => decide (left ≥ right)
  have hs : (numbers.mergeSort fun left right => decide (left ≥ right)).Pairwise
      fun left right => decide (left ≥ right) :=
    pairwise_mergeSort (fun a b c hab hbc => by simp at *; omega)
      (fun a b => by simp; omega) numbers
  rw [KthLargest, ← hp.countP_eq, ← hp.countP_eq]
  generalize (numbers.mergeSort fun left right => decide (left ≥ right)) = sorted at *
  generalize hv : sorted[k] = value
  have hsplit : sorted = sorted.take k ++ value :: sorted.drop (k + 1) := by
    rw [← hv, getElem_cons_drop, take_append_drop]
  have hl : (sorted.take k).length = k := length_take_of_le hlt.le
  rw [hsplit, pairwise_append] at hs
  obtain ⟨-, ht, hh⟩ := hs
  have hf : (sorted.take k).countP (value ≤ ·) = (sorted.take k).length :=
    countP_eq_length.mpr fun a ha => by simpa using hh a ha value mem_cons_self
  have hb : (sorted.drop (k + 1)).countP (value < ·) = 0 :=
    countP_eq_zero.mpr fun a ha => by simpa using rel_of_pairwise_cons ht ha
  have hle := countP_le_length (p := (value < ·)) (l := sorted.take k)
  rw [hsplit, countP_append, countP_append, countP_cons_of_pos (by simp),
    countP_cons_of_neg (by simp)]
  omega

theorem KthLargest.mono {others : List ℕ} {k value later : ℕ} (h : KthLargest numbers k value)
    (h' : KthLargest others k later)
    (hle : ∀ bound, numbers.countP (bound ≤ ·) ≤ others.countP (bound ≤ ·)) : value ≤ later := by
  by_contra hlt
  have hc : others.countP (value ≤ ·) ≤ others.countP (later < ·) :=
    countP_mono_left fun a _ ha => by simp at *; omega
  exact absurd ((h.1.trans (hle value)).trans hc) (Nat.not_le.mpr h'.2)

/-! ## Newest cosignatures -/

variable {H : Type} [HashBytes H] {sigs : Signatures} {body signatures text extra key : Bytes}
  {witnesses : List WitnessKey} {threshold now maxAge futureSkew : ℕ}
  {freshness : Option Freshness} {verified : VerifiedCheckpoint H}

def cosignatureTimes (sigs : Signatures) (body signatures : Bytes) (freshness : Option Freshness)
    (witness : WitnessKey) : Set ℕ :=
  {timestamp | ∃ line ∈ lines signatures,
    validCosignature sigs body witness.name witness.key freshness line = some timestamp}

def newestTimes (sigs : Signatures) (body signatures : Bytes) (freshness : Option Freshness)
    (witnesses : List WitnessKey) : List ℕ :=
  witnesses.filterMap fun witness =>
    newestValidCosignature sigs body signatures witness.name witness.key freshness

theorem newestValidCosignature_eq_some {witness : WitnessKey} {timestamp : ℕ} :
    newestValidCosignature sigs body signatures witness.name witness.key freshness =
        some timestamp ↔
      IsGreatest (cosignatureTimes sigs body signatures freshness witness) timestamp := by
  rw [newestValidCosignature, max?_eq_some_iff]
  simp only [mem_filterMap, IsGreatest, upperBounds, cosignatureTimes, Set.mem_ofPred_eq]

theorem exists_le_max? {bound : ℕ} :
    (∃ newest, numbers.max? = some newest ∧ bound ≤ newest) ↔ ∃ n ∈ numbers, bound ≤ n := by
  constructor
  · rintro ⟨newest, hnew, hle⟩
    exact ⟨newest, max?_mem hnew, hle⟩
  · rintro ⟨n, hn, hle⟩
    obtain ⟨newest, hnew⟩ := Option.isSome_iff_exists.mp (isSome_max?_of_mem hn)
    exact ⟨newest, hnew, hle.trans ((max?_eq_some_iff.mp hnew).2 n hn)⟩

/-- More lines leave no witness without a cosignature and make none older. -/
theorem countP_newestTimes_append (sigs : Signatures) (body : Bytes)
    (witnesses : List WitnessKey) (freshness : Option Freshness)
    (hl : lines (signatures ++ extra) = lines signatures ++ lines extra) (bound : ℕ) :
    (newestTimes sigs body signatures freshness witnesses).countP (bound ≤ ·) ≤
      (newestTimes sigs body (signatures ++ extra) freshness witnesses).countP (bound ≤ ·) := by
  have hs : ∀ newest : Option ℕ, (newest.map fun n => decide (bound ≤ n)).getD false = true ↔
      ∃ n, newest = some n ∧ bound ≤ n := by
    intro newest
    cases newest <;> simp
  simp only [newestTimes, countP_filterMap]
  refine countP_mono_left fun witness _ hw => ?_
  rw [hs, newestValidCosignature, exists_le_max?] at hw ⊢
  obtain ⟨n, hn, hle⟩ := hw
  rw [hl, filterMap_append]
  exact ⟨n, mem_append_left _ hn, hle⟩

/-! ## Accepted notes -/

theorem verifyWithFreshWitnesses_eq_ok (ht : threshold ≠ 0) :
    verifyWithFreshWitnesses sigs text key witnesses threshold now maxAge futureSkew =
        .ok verified ↔
      ¬(now > i64Max ∨ maxAge = 0 ∨ futureSkew > maxAge) ∧
      witnessQuorumIntersects threshold witnesses.length = true ∧
      hasDuplicateWitness witnesses = false ∧
      verify sigs text key = .ok verified.checkpoint ∧
      ∃ body signatures, splitOnceAt [newline, newline] text = some (body, signatures) ∧
        ∃ times, newestTimes sigs body signatures (some ⟨now, maxAge, futureSkew⟩) witnesses =
          times ∧ threshold ≤ times.length ∧
          (times.mergeSort fun left right => left ≥ right)[threshold - 1]? =
            verified.witnessedAt := by
  have hp := guard_eq_ok (c := now > i64Max ∨ maxAge = 0 ∨ futureSkew > maxAge)
    (e := RegistryError.malformedCheckpoint "invalid witness freshness policy")
    (k := verifyWitnessPolicy sigs text key witnesses threshold (some ⟨now, maxAge, futureSkew⟩))
    (b := verified)
  refine hp.trans (and_congr_right fun _ => ?_)
  simp only [verifyWitnessPolicy, ok_iff, if_neg ht]
  refine and_congr (by simp [ht]) (and_congr (by simp) ?_)
  constructor
  · rintro ⟨parsed, hv, hq⟩
    obtain ⟨-, body, signatures, hs, -⟩ := verify_eq_ok.mp hv
    rw [hs] at hq
    simp only [ok_iff] at hq
    obtain ⟨hc, rfl⟩ := hq
    exact ⟨hv, body, signatures, hs, _, rfl, Nat.not_lt.mp hc, rfl⟩
  · rintro ⟨hv, body, signatures, hs, _, rfl, hc, htime⟩
    refine ⟨_, hv, ?_⟩
    rw [hs]
    simp only [ok_iff]
    exact ⟨Nat.not_lt.mpr hc, VerifiedCheckpoint.mk.injEq .. ▸ ⟨rfl, htime⟩⟩

theorem verify_append {checkpoint : Checkpoint H} (h : verify sigs text key = .ok checkpoint)
    (he : text.getLast? = some newline) (hlen : (text ++ extra).length ≤ maxCheckpointBytes)
    (hsplit : splitOnceAt [newline, newline] text = some (body, signatures)) :
    lines (signatures ++ extra) = lines signatures ++ lines extra ∧
      verify sigs (text ++ extra) key = .ok checkpoint := by
  obtain ⟨-, _, _, hs', hp, hs⟩ := verify_eq_ok.mp h
  obtain ⟨rfl, rfl⟩ := Prod.mk.inj (Option.some.inj (hsplit.symm.trans hs'))
  have hne : signatures ≠ [] := by
    rintro rfl
    simp [hasValidSignature] at hs
  rw [eq_of_splitOnceAt hsplit, getLast?_append_of_ne_nil _ (by simp),
    getLast?_append_of_ne_nil _ hne] at he
  have hl := lines_append he extra
  refine ⟨hl, verify_eq_ok.mpr ⟨hlen, _, _, splitOnceAt_append hsplit extra, hp, ?_⟩⟩
  rw [hasValidSignature, any_eq_true] at hs ⊢
  obtain ⟨line, hline, hv⟩ := hs
  exact ⟨line, hl ▸ mem_append_left _ hline, hv⟩

/-- Whether no two witnesses of a roster share a name or a key. -/
theorem pairwise_of_not_hasDuplicateWitness (h : hasDuplicateWitness witnesses = false) :
    witnesses.Pairwise fun first second => first.name ≠ second.name ∧ first.key ≠ second.key := by
  induction witnesses with
  | nil => exact .nil
  | cons _ _ ih =>
    simp only [hasDuplicateWitness, Bool.or_eq_false_iff, any_eq_false, beq_iff_eq,
      Bool.or_eq_true, not_or] at h
    exact .cons h.1 (ih h.2)

/-- The time of an accepted note is the `threshold`-th largest of the newest valid cosignature
times of its distinct witnesses, and further lines keep it accepted and make it no older. -/
theorem witnessedAt_exact (hthreshold : threshold ≠ 0)
    (h : verifyWithFreshWitnesses sigs text key witnesses threshold now maxAge futureSkew =
      .ok verified) :
    ∃ body signatures time, splitOnceAt [newline, newline] text = some (body, signatures) ∧
      verified.witnessedAt = some time ∧
      witnesses.Pairwise (fun first second =>
        first.name ≠ second.name ∧ first.key ≠ second.key) ∧
      (∃ newest : WitnessKey → Option ℕ, (∀ witness timestamp, newest witness = some timestamp ↔
          IsGreatest (cosignatureTimes sigs body signatures (some ⟨now, maxAge, futureSkew⟩)
            witness) timestamp) ∧ KthLargest (witnesses.filterMap newest) threshold time) ∧
      ∀ extra, text.getLast? = some newline → (text ++ extra).length ≤ maxCheckpointBytes →
        ∃ later : VerifiedCheckpoint H, ∃ time', verifyWithFreshWitnesses sigs (text ++ extra) key
          witnesses threshold now maxAge futureSkew = .ok later ∧
          later.checkpoint = verified.checkpoint ∧ later.witnessedAt = some time' ∧
            time ≤ time' := by
  obtain ⟨hp, hq, hr, hv, body, signatures, hs, times, rfl, hc, ht⟩ :=
    (verifyWithFreshWitnesses_eq_ok hthreshold).mp h
  obtain ⟨k, rfl⟩ := Nat.exists_eq_succ_of_ne_zero hthreshold
  obtain ⟨time, hsome, hl⟩ := exists_kthLargest hc
  refine ⟨body, signatures, time, hs, ht.symm.trans hsome, pairwise_of_not_hasDuplicateWitness hr,
    ⟨_, fun _ _ => newestValidCosignature_eq_some, hl⟩, fun extra he hlen => ?_⟩
  obtain ⟨hlines, hlon⟩ := verify_append hv he hlen hs
  have hm := countP_newestTimes_append sigs body witnesses (some ⟨now, maxAge, futureSkew⟩) hlines
  have hc' := hc.trans (by simpa [countP_true] using hm 0)
  obtain ⟨time', hs', hl'⟩ := exists_kthLargest hc'
  refine ⟨⟨verified.checkpoint, some time'⟩, time', ?_, rfl, rfl, hl.mono hl' hm⟩
  exact (verifyWithFreshWitnesses_eq_ok hthreshold).mpr ⟨hp, hq, hr, hlon, body,
    signatures ++ extra, splitOnceAt_append hs extra, _, rfl, hc', hs'⟩

def sampleNote : Bytes :=
  cosignedNote namedSignatures (⟨ascii "log", 1, ⟨5⟩⟩ : Checkpoint ByteHash) [1] (ascii "witness")
    [2] 90

theorem witnessedAt_exact_sampleNote :
    ∃ later : VerifiedCheckpoint ByteHash, ∃ time, verifyWithFreshWitnesses namedSignatures
      (sampleNote ++ ascii "junk") [1] [⟨ascii "witness", [2]⟩] 1 100 20 5 = .ok later ∧
        later.witnessedAt = some time ∧ 90 ≤ time := by
  have hn : verifyWithFreshWitnesses namedSignatures sampleNote [1] [⟨ascii "witness", [2]⟩] 1
      100 20 5 = .ok ⟨(⟨ascii "log", 1, ⟨5⟩⟩ : Checkpoint ByteHash), some 90⟩ :=
    verifyWithFreshWitnesses_cosigned namedSignatures_lawful ByteHash.hashes32
      ⟨by decide, by decide, by decide⟩ ⟨by decide, by decide, by decide⟩ (by decide) (by decide)
      ⟨by decide, by decide, by decide, by decide, by decide⟩ (by decide +kernel)
  obtain ⟨_, _, time, -, hat, -, -, hm⟩ := witnessedAt_exact (by decide) hn
  obtain rfl : 90 = time := Option.some.inj hat
  obtain ⟨later, time', hl, -, ha', hle⟩ :=
    hm (ascii "junk") (by decide +kernel) (by decide +kernel)
  exact ⟨later, time', hl, ha', hle⟩

end Pigeonpost.Checkpoint
