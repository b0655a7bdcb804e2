import Pigeonpost.Program.Directory.Reservation

/-! # What an accepted mutation writes

Whether a submission is accepted depends on the rows of its own endpoint and, for a new
pending row, on the pending load. Both directions are stated, so that an acceptance can
be carried to another database with the same rows. -/

namespace Pigeonpost.Directory

open KeyedTable

variable {H F : Type} {prim : Primitives}

theorem sqlU64_eq_ok {value sql : ℕ} {field : String} :
    sqlU64 value field = .ok sql ↔ value ≤ i64Max ∧ sql = value := by
  unfold sqlU64
  split
  · next h => simp [h, eq_comm]
  · next h => simp [h]

theorem ensurePendingCapacity_eq_ok {db : Directory H F} :
    db.ensurePendingCapacity = .ok () ↔ db.pendingLoad < maxPendingEntries := by
  unfold ensurePendingCapacity
  split <;> simp <;> omega

/-! ## Submissions -/

section Submission

variable [F64 F] {db db' : Directory H F} {entry : DirectoryEntry F} {now : ℕ}

/-- The row a submission writes. -/
inductive SubmissionEffect (F : Type) where
  | keep
  | loft (row : LoftRow F)
  | claim (row : PendingClaimRow F)

def SameKey (prim : Primitives) (stored entry : DirectoryEntry F) : Prop :=
  ∃ key, stored.verify prim = .ok key ∧ entry.verify prim = .ok key

def OtherKey (prim : Primitives) (stored entry : DirectoryEntry F) : Prop :=
  ∃ key key', stored.verify prim = .ok key ∧ entry.verify prim = .ok key' ∧ key ≠ key'

def SameAddition (prim : Primitives) (stored entry : DirectoryEntry F) : Prop :=
  ∃ addition, stored.registryAddition prim = .ok addition ∧
    entry.registryAddition prim = .ok addition

/-- Another key may still claim the endpoint of this row. -/
def Contested (row : LoftRow F) : Prop :=
  row.ownershipProven = false ∧ (row.entry.state = .pending ∨ row.entry.state = .removed)

/-- The effect of a submission on the rows of its endpoint, and whether it takes a place
among the pending ones. -/
inductive Decides (prim : Primitives) (loft : Option (LoftRow F))
    (claim : Option (PendingClaimRow F)) (entry : DirectoryEntry F) (now : ℕ) :
    SubmissionEffect F → Bool → Prop
  | retry (row : LoftRow F) : loft = some row → SameKey prim row.entry entry →
    entry.sequence.toNat = row.mutationSequence → SameAddition prim row.entry entry →
    Decides prim loft claim entry now .keep false
  | revise (row : LoftRow F) : loft = some row → SameKey prim row.entry entry →
    row.mutationSequence < entry.sequence.toNat → row.entry.state ≠ .removed →
    Decides prim loft claim entry now (.loft (revisedRow entry entry.sequence.toNat row)) false
  | reenroll (row : LoftRow F) : loft = some row → SameKey prim row.entry entry →
    row.mutationSequence < entry.sequence.toNat → row.entry.state = .removed →
    now ≤ i64Max →
    Decides prim loft claim entry now
      (.loft (reenrolledRow entry entry.sequence.toNat now row)) true
  | retryClaim (row : LoftRow F) (old : PendingClaimRow F) : loft = some row →
    OtherKey prim row.entry entry → Contested row → claim = some old →
    entry.sequence.toNat = old.mutationSequence → SameAddition prim old.entry entry →
    Decides prim loft claim entry now .keep false
  | reviseClaim (row : LoftRow F) (old : PendingClaimRow F) : loft = some row →
    OtherKey prim row.entry entry → Contested row → claim = some old →
    old.mutationSequence < entry.sequence.toNat →
    Decides prim loft claim entry now (.claim (revisedClaim entry entry.sequence.toNat old)) false
  | openClaim (row : LoftRow F) : loft = some row →
    OtherKey prim row.entry entry → Contested row → claim = none →
    entry.sequence.toNat ≤ 1 → now ≤ i64Max →
    Decides prim loft claim entry now (.claim (openedClaim entry entry.sequence.toNat now)) true
  | first : loft = none → entry.sequence.toNat ≤ 1 → now ≤ i64Max →
    Decides prim loft claim entry now (.loft (openedRow entry entry.sequence.toNat now)) true

/-- The row is written, and nothing else. -/
structure Performs (effect : SubmissionEffect F) (db db' : Directory H F) : Prop where
  lofts : db'.lofts = match effect with
    | .loft row => db.lofts.put row
    | _ => db.lofts
  pendingClaims : db'.pendingClaims = match effect with
    | .claim row => db.pendingClaims.put row
    | _ => db.pendingClaims
  reservations : db'.reservations = db.reservations
  registryCheckpoint : db'.registryCheckpoint = db.registryCheckpoint

omit [F64 F] in
theorem ensureExactRetry_eq_ok {stored : DirectoryEntry F} :
    ensureExactRetry prim true stored entry = .ok () ↔ SameAddition prim stored entry := by
  unfold ensureExactRetry SameAddition
  cases stored.registryAddition prim with
  | error => simp
  | ok addition =>
    cases entry.registryAddition prim with
    | error => simp
    | ok addition' =>
      by_cases h : addition = addition'
      · simp [h, ok_iff]
      · simp [h, eq_comm]

/-- The checks of a submission that no row takes part in. -/
structure Accepts (prim : Primitives) (entry : DirectoryEntry F) : Prop where
  valid : validateSubmission prim entry = .ok ()
  key : ∃ key, entry.verify prim = .ok key
  sequence : entry.sequence.toNat ≤ i64Max

variable {claim : Option (PendingClaimRow F)} {row : LoftRow F}

theorem decides_of_resubmit (hl : db.lofts.lookup entry.endpoint = some row)
    (hk : SameKey prim row.entry entry)
    (h : resubmit prim db row entry entry.sequence.toNat now true = .ok db') :
    ∃ effect slot, Decides prim (some row) claim entry now effect slot ∧
      (slot = true → db.pendingLoad < maxPendingEntries) ∧ Performs effect db db' := by
  simp only [resubmit, ok_iff, Nat.not_lt] at h
  obtain ⟨hle, h⟩ := h
  by_cases heq : entry.sequence.toNat = row.mutationSequence
  · simp only [if_pos heq, ok_iff] at h
    obtain ⟨_, hretry, rfl⟩ := h
    exact ⟨.keep, false, .retry row rfl hk heq (ensureExactRetry_eq_ok.mp hretry), by simp,
      rfl, rfl, rfl, rfl⟩
  · rw [if_neg heq] at h
    have hlt : row.mutationSequence < entry.sequence.toNat := by omega
    by_cases hr : row.entry.state = .removed
    · simp only [if_pos hr, ok_iff, sqlU64_eq_ok] at h
      obtain ⟨firstSeen, ⟨hn, rfl⟩, _, hload, rfl⟩ := h
      refine ⟨_, true, .reenroll row rfl hk hlt hr hn,
        fun _ => ensurePendingCapacity_eq_ok.mp hload, ?_, rfl, rfl, rfl⟩
      exact modify_eq_put (by exact fun _ => rfl) hl
    · simp only [if_neg hr, ok_iff] at h
      subst h
      refine ⟨_, false, .revise row rfl hk hlt hr, by simp, ?_, rfl, rfl, rfl⟩
      exact modify_eq_put (by exact fun _ => rfl) hl

theorem decides_of_submitCandidate (hk : OtherKey prim row.entry entry)
    (h : submitCandidate prim db row entry entry.sequence.toNat now true = .ok db') :
    ∃ effect slot,
      Decides prim (some row) (db.pendingClaims.lookup (entry.endpoint, entry.pubkey)) entry now
        effect slot ∧
      (slot = true → db.pendingLoad < maxPendingEntries) ∧ Performs effect db db' := by
  simp only [submitCandidate, ok_iff] at h
  obtain ⟨hclo, h⟩ := h
  have ho : Contested row :=
    ⟨by simpa using fun hp => hclo (.inl hp), not_not.mp fun h => hclo (.inr h)⟩
  cases hc : db.pendingClaims.lookup (entry.endpoint, entry.pubkey) with
  | some old =>
    simp only [hc, ok_iff, Nat.not_lt] at h
    obtain ⟨hle, h⟩ := h
    by_cases heq : entry.sequence.toNat = old.mutationSequence
    · simp only [if_pos heq, ok_iff] at h
      obtain ⟨_, hr, rfl⟩ := h
      exact ⟨.keep, false, .retryClaim row old rfl hk ho rfl heq
        (ensureExactRetry_eq_ok.mp hr), by simp, rfl, rfl, rfl, rfl⟩
    · simp only [if_neg heq, ok_iff] at h
      subst h
      refine ⟨_, false, .reviseClaim row old rfl hk ho rfl (by omega), by simp, rfl, ?_, rfl, rfl⟩
      exact modify_eq_put (by exact fun _ => rfl) hc
  | none =>
    simp only [hc, ok_iff, Nat.not_lt, sqlU64_eq_ok] at h
    obtain ⟨hf, _, hl, firstSeen, ⟨hn, rfl⟩, claims, hins, rfl⟩ := h
    refine ⟨_, true, .openClaim row rfl hk ho rfl hf hn,
      fun _ => ensurePendingCapacity_eq_ok.mp hl, rfl, ?_, rfl, rfl⟩
    rw [insert_eq_put (by exact hc)] at hins
    exact (Option.some.inj hins).symm

theorem decides_of_submitFirst (hl : db.lofts.lookup entry.endpoint = none)
    (h : submitFirst db entry entry.sequence.toNat now = .ok db') :
    ∃ effect slot, Decides prim none claim entry now effect slot ∧
      (slot = true → db.pendingLoad < maxPendingEntries) ∧ Performs effect db db' := by
  simp only [submitFirst, ok_iff, Nat.not_lt, sqlU64_eq_ok] at h
  obtain ⟨_, hload, hf, firstSeen, ⟨hn, rfl⟩, lofts, hins, rfl⟩ := h
  refine ⟨_, true, .first rfl hf hn, fun _ => ensurePendingCapacity_eq_ok.mp hload, ?_,
    rfl, rfl, rfl⟩
  rw [insert_eq_put (by exact hl)] at hins
  exact (Option.some.inj hins).symm

theorem decides_of_applySubmission (h : applySubmission prim db entry now true = .ok db') :
    Accepts prim entry ∧ ∃ effect slot, Decides prim (db.lofts.lookup entry.endpoint)
        (db.pendingClaims.lookup (entry.endpoint, entry.pubkey)) entry now effect slot ∧
      (slot = true → db.pendingLoad < maxPendingEntries) ∧ Performs effect db db' := by
  simp only [applySubmission, ok_iff, sqlU64_eq_ok] at h
  obtain ⟨_, hv, key, hk, _, ⟨hseq, rfl⟩, h⟩ := h
  refine ⟨⟨hv, ⟨key, hk⟩, hseq⟩, ?_⟩
  split at h
  swap
  · rename_i hl
    rw [hl]
    exact decides_of_submitFirst hl h
  rename_i hl
  rw [hl]
  simp only [ok_iff] at h
  obtain ⟨previousKey, hp, h⟩ := h
  by_cases hs : previousKey = key
  · rw [if_pos hs] at h
    exact decides_of_resubmit hl ⟨key, hs ▸ hp, hk⟩ h
  · rw [if_neg hs] at h
    exact decides_of_submitCandidate ⟨previousKey, key, hp, hk, hs⟩ h

theorem exists_applySubmission {effect : SubmissionEffect F} {slot : Bool} (ha : Accepts prim entry)
    (hd : Decides prim (db.lofts.lookup entry.endpoint)
      (db.pendingClaims.lookup (entry.endpoint, entry.pubkey)) entry now effect slot)
    (hload : slot = true → db.pendingLoad < maxPendingEntries) :
    ∃ db', applySubmission prim db entry now true = .ok db' := by
  obtain ⟨submittedKey, hs⟩ := ha.key
  have hseq : sqlU64 entry.sequence.toNat "entry sequence" = .ok entry.sequence.toNat :=
    sqlU64_eq_ok.mpr ⟨ha.sequence, rfl⟩
  simp only [applySubmission, ha.valid, hs, hseq, ok_bind]
  cases hd with
  | retry _ hl hk heq hexact =>
    obtain ⟨key, hr, he⟩ := hk
    cases hs.symm.trans he
    rw [hl]
    simp [hr, resubmit, heq, ensureExactRetry_eq_ok.mpr hexact]
  | revise _ hl hk hlt hstate =>
    obtain ⟨key, hr, he⟩ := hk
    cases hs.symm.trans he
    rw [hl]
    simp [hr, resubmit, hlt.not_gt, hlt.ne', hstate, ok_iff]
  | reenroll _ hl hk hlt hstate hn =>
    obtain ⟨key, hr, he⟩ := hk
    cases hs.symm.trans he
    rw [hl]
    simp [hr, resubmit, hlt.not_gt, hlt.ne', hstate, sqlU64, hn,
      ensurePendingCapacity_eq_ok.mpr (hload rfl)]
  | retryClaim _ _ hl hk ho hc heq hexact =>
    obtain ⟨key, key', hr, he, hne⟩ := hk
    cases hs.symm.trans he
    rw [hl]
    simp [hr, hne, submitCandidate, ho.1, ho.2, hc, heq, ensureExactRetry_eq_ok.mpr hexact]
  | reviseClaim _ _ hl hk ho hc hlt =>
    obtain ⟨key, key', hr, he, hne⟩ := hk
    cases hs.symm.trans he
    rw [hl]
    simp [hr, hne, submitCandidate, ho.1, ho.2, hc, hlt.not_gt, hlt.ne', ok_iff]
  | openClaim _ hl hk ho hc hf hn =>
    obtain ⟨key, key', hr, he, hne⟩ := hk
    cases hs.symm.trans he
    have hins : db.pendingClaims.insert (openedClaim entry entry.sequence.toNat now) =
        some (db.pendingClaims.put (openedClaim entry entry.sequence.toNat now)) :=
      insert_eq_put hc
    rw [hl]
    simp [hr, hne, submitCandidate, ho.1, ho.2, hc, hf.not_gt, sqlU64, hn,
      ensurePendingCapacity_eq_ok.mpr (hload rfl), hins]
  | first hl hf hn =>
    have hins : db.lofts.insert (openedRow entry entry.sequence.toNat now) =
        some (db.lofts.put (openedRow entry entry.sequence.toNat now)) :=
      insert_eq_put hl
    rw [hl]
    simp [submitFirst, hf.not_gt, sqlU64, hn, ensurePendingCapacity_eq_ok.mpr (hload rfl), hins]

end Submission

/-! ## Drains -/

section Drain

variable {db db' : Directory H F} {authorization : DrainAuthorization}

/-- The authorization is signed by the key of the row. -/
def Authorized (prim : Primitives) (row : LoftRow F) (authorization : DrainAuthorization) : Prop :=
  ∃ key, row.entry.verify prim = .ok key ∧ authorization.verify prim key = .ok ()

/-- The row a drain writes, if it writes one. -/
inductive DrainDecides (prim : Primitives) (loft : Option (LoftRow F))
    (authorization : DrainAuthorization) : Option (LoftRow F) → Prop
  | retry (row : LoftRow F) : loft = some row → Authorized prim row authorization →
    authorization.sequence.toNat = row.mutationSequence →
    drainProjected row.entry authorization = true →
    DrainDecides prim loft authorization none
  | drain (row : LoftRow F) : loft = some row → Authorized prim row authorization →
    row.mutationSequence < authorization.sequence.toNat → row.ownershipProven = true →
    row.entry.state ≠ .pending → row.entry.state ≠ .removed →
    DrainDecides prim loft authorization
      (some (drainedRow authorization authorization.sequence.toNat authorization.after.toNat row))

theorem drainDecides_of_applyDrain (h : applyDrain prim db authorization true = .ok db') :
    (authorization.sequence.toNat ≤ i64Max ∧ authorization.after.toNat ≤ i64Max) ∧
      ∃ effect, DrainDecides prim (db.lofts.lookup authorization.endpoint) authorization effect ∧
        db' = { db with lofts := effect.elim db.lofts db.lofts.put } := by
  simp only [applyDrain, ok_iff, sqlU64_eq_ok, Nat.not_lt] at h
  obtain ⟨_, ⟨hs, rfl⟩, _, ⟨ha, rfl⟩, row, hl, key, hk, _, hauth, hle, h⟩ := h
  refine ⟨⟨hs, ha⟩, ?_⟩
  by_cases heq : authorization.sequence.toNat = row.mutationSequence
  · rw [if_pos heq] at h
    by_cases hp : drainProjected row.entry authorization = true
    · simp only [hp, Bool.and_self, if_true, ok_iff] at h
      exact ⟨none, .retry row hl ⟨key, hk, hauth⟩ heq hp, h.symm⟩
    · rw [if_neg (by simpa using hp)] at h
      obtain ⟨_, ht, -⟩ := bind_eq_ok.mp h
      exact absurd ht throw_ne_ok
  · simp only [if_neg heq, ok_iff, not_or] at h
    obtain ⟨⟨hpro, hpen, hr⟩, rfl⟩ := h
    refine ⟨_, .drain row hl ⟨key, hk, hauth⟩ (by omega) (by simpa using hpro) hpen hr, ?_⟩
    rw [modify_eq_put (by exact fun _ => rfl) hl]
    rfl

theorem exists_applyDrain {effect : Option (LoftRow F)}
    (hs : authorization.sequence.toNat ≤ i64Max) (ha : authorization.after.toNat ≤ i64Max)
    (h : DrainDecides prim (db.lofts.lookup authorization.endpoint) authorization effect) :
    ∃ db', applyDrain prim db authorization true = .ok db' := by
  cases h with
  | retry _ hl hauth heq hp =>
    obtain ⟨key, hk, hauth⟩ := hauth
    rw [heq] at hs
    simp [applyDrain, sqlU64, hs, ha, hl, hk, hauth, heq, hp, ok_iff]
  | drain _ hl hauth hlt hpro hpen hr =>
    obtain ⟨key, hk, hauth⟩ := hauth
    simp [applyDrain, sqlU64, hs, ha, hl, hk, hauth, hlt.not_gt, hlt.ne', hpro, hpen, hr, ok_iff]

end Drain

end Pigeonpost.Directory
