import Pigeonpost.Verification.Directory.Changes

/-! # Operations of the directory as chains of changes -/

namespace Pigeonpost.Directory

open KeyedTable List

variable {H F : Type} {db db' : Directory H F} {row : ReservationRow H}

theorem reserved_of_mem_dueCandidates {candidate : ProbeCandidate F}
    (h : candidate ∈ db.dueCandidates now) : db.reserved candidate.endpoint = false := by
  simp only [dueCandidates, mem_append, mem_map, mem_filter, Bool.and_eq_true,
    Bool.not_eq_true'] at h
  rcases h with ⟨row, hr, rfl⟩ | ⟨row, hr, rfl⟩
  · exact hr.2.2
  · exact hr.2.2

section

variable [DecidableEq H]

theorem insertReservation_eq_ok (h : db.insertReservation row = .ok db') :
    (∀ old ∈ db.reservations.rows, old.reservationId ≠ row.reservationId) ∧
      db.reservations.lookup row.endpoint = none ∧
      db' = { db with reservations := db.reservations.put row } := by
  simp only [insertReservation, ok_iff] at h
  obtain ⟨hids, reservations, hins, rfl⟩ := h
  have hn := (insert_eq_some.mp hins).1
  rw [insert_eq_put hn] at hins
  cases hins
  exact ⟨by simpa using hids, hn, rfl⟩

theorem consumeReservation_eq_ok {id : H} (h : db.consumeReservation id = .ok db') :
    db' = { db with reservations := db.reservations.delete fun row => row.reservationId = id } := by
  unfold consumeReservation at h
  split at h
  · cases h
  · exact (Except.ok.inj h).symm

theorem reserved_delete {endpoint : Bytes} (hr : db.reservations.lookup endpoint = some row) :
    Directory.reserved { db with
      reservations := db.reservations.delete fun old => old.reservationId = row.reservationId }
      endpoint = false := by
  rw [Directory.reserved, lookup_delete, hr]
  simp [Option.filter_some]

end

variable [Sha256 H] [DecidableEq H] [F64 F] {ctx : DirectoryContext F} {now : ℕ}

/-- A chain of changes of one operation. -/
abbrev Changes (ctx : DirectoryContext F) (op : DirectoryOp H F) :
    Directory H F → Directory H F → Prop :=
  Relation.ReflTransGen (Change ctx op)

variable {op : DirectoryOp H F} {mutation : LoftMutation F}

theorem changes_expire {expired : Directory H F} (h : db.expirePending now = .ok expired)
    (h' : expired.expirePendingClaims now = .ok db') : Changes ctx op db db' :=
  .tail (.single (.sweep (sweeps_expirePending h))) (.sweep (sweeps_expirePendingClaims h'))

theorem changes_reserve (hsta : db.StatesAgree)
    (h : execute ctx db (.reserve mutation now) = .ok db') :
    Changes ctx (.reserve mutation now) db db' := by
  cases mutation
  all_goals obtain ⟨⟨_, reserved⟩, hm, rfl⟩ := map_eq_ok.mp h
  case' drain =>
    simp only [reserveDrain, drainLoftPubkey, ok_iff, sqlU64_eq_ok] at hm
    obtain ⟨request, hr, _, ⟨hn, rfl⟩, _, ⟨hs, rfl⟩, _, ⟨loft, hloft, key, hk, _, ha,
      rfl⟩, canonical, hc, h⟩ := hm
  case' add =>
    simp only [reserveAdd, ok_iff, sqlU64_eq_ok] at hm
    obtain ⟨addition, ha, canonical, hc, request, hr, _, ⟨hseq, rfl⟩, _,
      ⟨hn, rfl⟩, expired, he, swept, hs, h⟩ := hm
    refine (changes_expire he hs).trans ?_
  all_goals
    split at h
    · simp only [ok_iff, Prod.mk.injEq] at h
      obtain ⟨_, -, _, -, rfl, -⟩ := h
      exact .refl
    simp only [ok_iff, Prod.mk.injEq] at h
    obtain ⟨_, -, projected, hp, inserted, hins, _, -, rfl, -⟩ := h
    obtain ⟨hids, hf, rfl⟩ := insertReservation_eq_ok hins
    obtain ⟨-, ⟨⟩⟩ := guard_eq_ok.mp hc
    obtain ⟨-, ⟨⟩⟩ := guard_eq_ok.mp hr
  · obtain ⟨hacc, effect, slot, hd, hload, hper⟩ := decides_of_applySubmission hp
    have hs' := (hsta.of_sweeps (sweeps_expirePending he)).of_sweeps (sweeps_expirePendingClaims hs)
    have hslot : decide (projected.pendingLoad > swept.pendingLoad) = slot := by
      rw [pendingLoad_of_performs hs' hd hper]
      cases slot <;> simp
    refine .single (.reserve _ _ _ rfl hf hids ⟨hacc, ⟨addition, ha, rfl,
      rfl, rfl, rfl, rfl, rfl, rfl, hc, hr⟩, effect, ?_⟩ ?_ rfl)
    · exact hslot.symm ▸ hd
    · intro ht
      exact hload (hslot.symm.trans ht)
  · obtain ⟨hb, effect, hd, -⟩ := drainDecides_of_applyDrain hp
    exact .single (.reserve _ _ _ rfl hf hids ⟨hb, ⟨loft, hloft, rfl,
      rfl, rfl, rfl, rfl, rfl, rfl, hc, hr⟩, ⟨effect, hd⟩, rfl⟩ (by simp) rfl)

theorem ensureExactReservation_eq_ok {id : H} {operation : ReservationOperation}
    {loftPubkey canonical request : Bytes} {sequence : ℕ} :
    ensureExactReservation row id operation loftPubkey sequence canonical request = .ok () ↔
      validateReservationRow row = .ok () ∧ row.reservationId = id ∧
        row.operation = operation ∧ row.loftPubkey = loftPubkey ∧
        row.mutationSequence = sequence ∧ row.canonicalMutation = canonical ∧
        row.localRequest = request := by
  simp only [ensureExactReservation, ok_iff, not_or, not_not, and_true]
  constructor
  · rintro ⟨_, h⟩
    exact h
  · intro h
    exact ⟨(), h⟩

variable {checkpoint : PersistedRegistryCheckpoint H}

omit [F64 F] in
theorem acceptRegistryCheckpointIn_eq_ok (h : db.acceptRegistryCheckpointIn checkpoint = .ok db') :
    validatePersistedCheckpoint checkpoint = .ok () ∧
      db' = { db with registryCheckpoint := some checkpoint } := by
  simp only [acceptRegistryCheckpointIn, ok_iff] at h
  obtain ⟨_, hv, h⟩ := h
  refine ⟨hv, ?_⟩
  split at h <;> simp only [ok_iff] at h
  · exact h.symm
  · obtain ⟨_, -, -, -, h⟩ := h
    exact h.symm

theorem changes_finalize (h : execute ctx db (.finalize mutation checkpoint) = .ok db') :
    Changes ctx (.finalize mutation checkpoint) db db' := by
  cases mutation
  case' drain =>
    simp only [execute, finalizeDrain, ok_iff, sqlU64_eq_ok] at h
    obtain ⟨_, -, request, hr, loftPubkey, -, canonical, -, _, ⟨-, rfl⟩, h⟩ := h
  case' add =>
    simp only [execute, finalizeAdd, ok_iff, sqlU64_eq_ok] at h
    obtain ⟨_, -, addition, -, canonical, -, request, hr, _, ⟨-, rfl⟩, h⟩ := h
  all_goals
    split at h
    swap
    · simp only [ok_iff] at h
      obtain ⟨_, -, -, h⟩ := h
      obtain ⟨hv, rfl⟩ := acceptRegistryCheckpointIn_eq_ok h
      exact .single (.accept checkpoint hv rfl)
    rename_i row hl
    simp only [ok_iff] at h
    obtain ⟨_, he, consumed, hc, projected, hp, h⟩ := h
    obtain ⟨-, hid, ho, -, -, -, hlocal⟩ := ensureExactReservation_eq_ok.mp he
    rw [← hid] at hc
    have hdb := consumeReservation_eq_ok hc
    obtain ⟨hv, rfl⟩ := acceptRegistryCheckpointIn_eq_ok h
    obtain ⟨-, ⟨⟩⟩ := guard_eq_ok.mp hr
    refine .head (.consume _ checkpoint row rfl hl ho hlocal hdb)
      (.tail ?_ (.accept checkpoint hv rfl))
  · obtain ⟨ha, effect, slot, hd, hload, hper⟩ := decides_of_applySubmission hp
    exact .single (.submit _ checkpoint row.reservedAt effect slot rfl (hdb ▸ reserved_delete hl)
      ha hd hload hper)
  · obtain ⟨-, effect, hd, rfl⟩ := drainDecides_of_applyDrain hp
    cases effect with
    | none => exact .refl
    | some drained =>
      exact .single (.drain _ checkpoint drained rfl (hdb ▸ reserved_delete hl) hd rfl)

theorem changes_leases {t : ℕ} (selected : List (ProbeCandidate F)) :
    ∀ db : Directory H F, (∀ candidate ∈ selected, db.reserved candidate.endpoint = false) →
      Changes ctx op db (selected.foldl (lease t) db) := by
  induction selected with
  | nil => exact fun _ _ => .refl
  | cons candidate _ ih =>
    intro db hf
    have hs : Sweeps db (lease t db candidate) := sweeps_lease (hf candidate (by simp))
    refine .head (.sweep hs) (ih _ fun later hl => ?_)
    rw [hs.reserved]
    exact hf later (by simp [hl])

theorem changes_claimProbeCandidates {limit : ℕ} {claimed : List (DirectoryEntry F)}
    (h : db.claimProbeCandidates now limit = .ok (db', claimed)) :
    Changes ctx (.claimProbeCandidates now limit) db db' := by
  simp only [claimProbeCandidates, ok_iff, Prod.mk.injEq] at h
  obtain ⟨_, -, leaseUntil, -, expired, he, swept, hs, rfl, -⟩ := h
  refine (changes_expire he hs).trans (changes_leases _ _ fun candidate hm => ?_)
  exact reserved_of_mem_dueCandidates (mem_mergeSort.mp (mem_of_mem_take hm))

section Probe

variable {result : ProbeResult F} {retentionUpdate : Option RetentionUpdate}
  {expectedPubkey : Bytes} {expectedSequence : UInt64}

/-- What is committed before a result is recorded, and the row it is recorded on. Any
operation could have made the changes so far. -/
inductive Targets (ctx : DirectoryContext F) (op : DirectoryOp H F) (db : Directory H F)
    (endpoint expectedPubkey : Bytes) (expectedSequence : UInt64) : ProbeTarget H F → Prop
  | stale (db' : Directory H F) : Changes ctx op db db' →
    Targets ctx op db endpoint expectedPubkey expectedSequence (.stale db')
  | failedCandidate (db' : Directory H F) : Changes ctx op db db' →
    Targets ctx op db endpoint expectedPubkey expectedSequence (.failedCandidate db')
  | row (db' : Directory H F) (row : LoftRow F) : Changes ctx op db db' →
    db'.lofts.lookup endpoint = some row → db'.reserved endpoint = false →
    row.entry.pubkey = expectedPubkey → row.entry.sequence = expectedSequence →
    Targets ctx op db endpoint expectedPubkey expectedSequence (.row db' row)

theorem targets_of_probeTarget (ctx : DirectoryContext F) (op : DirectoryOp H F)
    {healthy : Bool} {target : ProbeTarget H F}
    (h : db.probeTarget result.endpoint healthy now expectedPubkey expectedSequence = .ok target) :
    Targets ctx op db result.endpoint expectedPubkey expectedSequence target := by
  simp only [probeTarget, ok_iff] at h
  obtain ⟨expired, hexp, swept, hs, h⟩ := h
  have hc : Changes ctx op db swept := changes_expire hexp hs
  by_cases hr : swept.reserved result.endpoint = true
  · simp only [if_pos hr, ok_iff] at h
    exact h ▸ .stale swept hc
  rw [Bool.not_eq_true] at hr
  simp only [hr, Bool.false_eq_true, if_false, ok_iff] at h
  obtain ⟨row, hrow, h⟩ := h
  by_cases he : row.entry.pubkey = expectedPubkey ∧ row.entry.sequence = expectedSequence
  · simp only [if_pos he, ok_iff] at h
    exact h ▸ .row swept row hc hrow hr he.1 he.2
  simp only [if_neg he, ok_iff] at h
  obtain ⟨sequence, -, h⟩ := h
  split at h
  · rw [pure_eq_ok] at h
    exact h ▸ .stale swept hc
  · rename_i claim hclaim
    obtain ⟨hl, -⟩ := Option.filter_eq_some_iff.mp hclaim
    obtain ⟨hm, hk⟩ := lookup_eq_some.mp hl
    have hend : claim.endpoint = result.endpoint := congrArg Prod.fst hk
    by_cases hp : row.ownershipProven = true
    · simp only [if_pos hp, ok_iff] at h
      exact h ▸ .stale _ (hc.tail (.dropClaims result.endpoint hr rfl))
    rw [Bool.not_eq_true] at hp
    simp only [hp, Bool.false_eq_true, if_false] at h
    by_cases hh : healthy = true
    · simp only [hh, Bool.not_true, Bool.false_eq_true, if_false, ok_iff, not_or, not_not] at h
      obtain ⟨hcan, _, -, rfl⟩ := h
      refine .row _ _ (hc.tail (.win result.endpoint now row claim hr hrow hp
        hm hend (modify_eq_put (by exact fun _ => rfl) hrow) rfl rfl rfl)) ?_ hr
        hcan.1 hcan.2
      refine (lookup_modify_self (by exact fun _ => rfl)).trans ?_
      rw [hrow]
      rfl
    · simp only [hh, Bool.not_false, if_true, ok_iff] at h
      exact h ▸ .failedCandidate swept hc

theorem storedResult_endpoint (result : ProbeResult F) (now : ℕ) :
    (storedResult result now).endpoint = result.endpoint := by
  simp only [storedResult]
  split <;> rfl

theorem change_recordOn {row : LoftRow F} {next : LoftState}
    (hr : db.lofts.lookup result.endpoint = some row) (hf : db.reserved result.endpoint = false)
    (hp : row.entry.pubkey = expectedPubkey) (hs : row.entry.sequence = expectedSequence)
    (h : db.recordOn row (storedResult result now) now retentionUpdate = .ok (db', next)) :
    Change ctx (.recordClaimProbe result now retentionUpdate expectedPubkey expectedSequence)
      db db' := by
  simp only [recordOn, ok_iff, Prod.mk.injEq, storedResult_endpoint] at h
  obtain ⟨_, -, canaries, -, rfl, -⟩ := h
  refine .record result now retentionUpdate expectedPubkey expectedSequence row _ _ _ rfl hf
    hr hp hs (modify_eq_put (by exact fun _ => rfl) hr) ?_ ?_ rfl rfl
  · by_cases hh : (storedResult result now).healthy = true
    · have hc := count_delete db.pendingClaims
        (fun claim => claim.endpoint = result.endpoint) fun _ => true
      simp only [if_pos hh]
      omega
    · simp only [if_neg hh, le_refl]
  · intro endpoint pubkey hne
    by_cases hh : (storedResult result now).healthy = true
    · simp only [if_pos hh]
      exact lookup_delete_claims fun row he => by simp [he, hne]
    · simp only [if_neg hh]

theorem changes_recordClaimProbe {reply : Option LoftState}
    (h : db.recordClaimProbeWithRetention result now retentionUpdate expectedPubkey
      expectedSequence = .ok (db', reply)) :
    Changes ctx (.recordClaimProbe result now retentionUpdate expectedPubkey expectedSequence)
      db db' := by
  simp only [recordClaimProbeWithRetention, ok_iff, sqlU64_eq_ok, storedResult_endpoint] at h
  obtain ⟨_, ⟨-, rfl⟩, target, ht, h⟩ := h
  cases targets_of_probeTarget ctx _ ht with
  | stale _ hc | failedCandidate _ hc =>
    simp only [ok_iff, Prod.mk.injEq] at h
    exact h.1 ▸ hc
  | row _ _ hc hrow hf hp hs =>
    simp only [ok_iff, Prod.exists, Prod.mk.injEq] at h
    obtain ⟨recorded, next, hr, rfl, -⟩ := h
    exact hc.tail (change_recordOn hrow hf hp hs hr)

end Probe

/-- Every committed operation is a chain of changes. -/
theorem changes_of_execute (hs : db.StatesAgree) (h : execute ctx db op = .ok db') :
    Changes ctx op db db' := by
  cases op with
  | reserve => exact changes_reserve hs h
  | finalize => exact changes_finalize h
  | claimProbeCandidates =>
    obtain ⟨⟨_, claimed⟩, hc, rfl⟩ := map_eq_ok.mp h
    exact changes_claimProbeCandidates hc
  | recordClaimProbe =>
    obtain ⟨⟨_, reply⟩, hrec, rfl⟩ := map_eq_ok.mp h
    exact changes_recordClaimProbe hrec
  | expire =>
    simp only [execute, ok_iff] at h
    obtain ⟨expired, he, hswept⟩ := h
    exact changes_expire he hswept

theorem changes_of_step (op : DirectoryOp H F) (hs : db.StatesAgree) :
    Changes ctx op db (directoryStep ctx db op).1 := by
  unfold directoryStep
  cases he : execute ctx db op with
  | error => exact .refl
  | ok => exact changes_of_execute hs he

end Pigeonpost.Directory
