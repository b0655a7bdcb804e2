import Pigeonpost.Verification.Directory.Invariant
import Pigeonpost.Verification.Shared.SampleDirectory

/-! # The life of a loft in the directory

The probes that were recorded along a run are compared with the rows: a loft is promoted
only on a clean day of probes, and the endpoint it proved stays with its key. -/

namespace Pigeonpost.Directory

open KeyedTable List

/-! ## Clean probe histories -/

/-- A healthy probe of the key was recorded on the endpoint at `since`, and every probe
of it recorded from then on was healthy. -/
def CleanSince (history : List RecordedProbe) (endpoint : Bytes) (key : Option Bytes)
    (since : ℕ) : Prop :=
  ∃ earlier first recent, history = earlier ++ first :: recent ∧
    (first.endpoint = endpoint ∧ first.key = key ∧ first.probedAt = since) ∧
    ∀ probe ∈ first :: recent, probe.endpoint = endpoint → probe.key = key → probe.healthy = true

variable {key : Option Bytes} {history : List RecordedProbe} {endpoint : Bytes}

theorem CleanSince.append {since : ℕ}
    (h : CleanSince history endpoint key since) {probes : List RecordedProbe}
    (hp : ∀ probe ∈ probes, probe.endpoint = endpoint → probe.key = key → probe.healthy = true) :
    CleanSince (history ++ probes) endpoint key since := by
  obtain ⟨earlier, first, recent, rfl, hf, hc⟩ := h
  refine ⟨earlier, first, recent ++ probes, by simp, hf, ?_⟩
  rw [← cons_append]
  exact forall_mem_append.mpr ⟨hc, hp⟩

/-- A healthy probe continues a clean history or starts one. -/
theorem cleanSince_recorded {started : Option ℕ}
    {now : ℕ} (h : ∀ since, started = some since → CleanSince history endpoint key since) :
    CleanSince (history ++ [⟨endpoint, key, now, true⟩]) endpoint key (started.getD now) := by
  cases started with
  | some since => exact (h since rfl).append (forall_mem_singleton.mpr fun _ _ => rfl)
  | none =>
    refine ⟨history, ⟨endpoint, key, now, true⟩, [], rfl, ⟨rfl, rfl, rfl⟩, ?_⟩
    simp

variable {H F : Type} {op : DirectoryOp H F} {db db' : Directory H F} {endpoint : Bytes}
  {row row' : LoftRow F} {prim : Primitives}

/-! ## The public entries -/

theorem count_public_put_le {new : LoftRow F}
    (h : isPublic new = true → ∃ old, db.lofts.lookup new.endpoint = some old ∧
      isPublic old = true) :
    (db.lofts.put new).count isPublic ≤ db.lofts.count isPublic := by
  cases hl : db.lofts.lookup new.endpoint with
  | none =>
    have hpri : isPublic new = false := by
      by_contra hp
      obtain ⟨old, hold, -⟩ := h (by simpa using hp)
      cases hl.symm.trans hold
    rw [count_put_of_none hl, hpri]
    simp
  | some =>
    refine count_put_le hl fun hp => ?_
    obtain ⟨previous, hpre, hold⟩ := h hp
    exact Option.some.inj (hl.symm.trans hpre) ▸ hold

/-- The public snapshot fits as long as the public rows do. -/
theorem entries_ne_responseTooLarge (h : db.lofts.count isPublic ≤ maxPublicEntries) :
    db.entries ≠ .error .responseTooLarge := by
  unfold entries
  rw [if_neg]
  · simp
  · rw [length_take, length_mergeSort, ← countP_eq_length_filter, Nat.not_lt]
    exact (Nat.min_le_right _ _).trans h

def Unprobed (op : DirectoryOp H F) : Prop :=
  ∀ result now retentionUpdate pubkey sequence,
    op ≠ .recordClaimProbe result now retentionUpdate pubkey sequence

theorem unprobed_expire (now : ℕ) : Unprobed (.expire now : DirectoryOp H F) := by
  intros _ _ _ _ _ h
  cases h

/-- The row's clean time is one of the recorded probes. -/
def CleanRow (history : List RecordedProbe) (endpoint : Bytes) (row : LoftRow F) : Prop :=
  ∀ since, row.cleanSince = some since → CleanSince history endpoint (keyOf row.entry.pubkey) since

/-- What a database says about itself and about the probes recorded so far. -/
structure Lives (db : Directory H F) (history : List RecordedProbe) : Prop where
  states : db.StatesAgree
  clean : ∀ endpoint row, db.lofts.lookup endpoint = some row → CleanRow history endpoint row
  publicRows : db.lofts.count isPublic ≤ maxPublicEntries

theorem lives_empty : Lives (empty : Directory H F) [] where
  states row hr := absurd hr not_mem_nil
  clean endpoint row hr := absurd hr (by simp [empty, KeyedTable.lookup, KeyedTable.empty])
  publicRows := Nat.zero_le _

/-! ## What a row inherits -/

/-- What the row before the change still vouches for. -/
structure Inherits (old row : LoftRow F) : Prop where
  key : keyOf row.entry.pubkey = keyOf old.entry.pubkey
  proven : row.ownershipProven = old.ownershipProven
  cleanSince : ∀ since, row.cleanSince = some since → old.cleanSince = some since
  serving : row.state = .active ∨ row.state = .degraded →
    old.state = .active ∨ old.state = .degraded

/-- A row that starts its probation without proof of ownership. -/
structure Fresh (row : LoftRow F) : Prop where
  state : row.state = .pending
  proven : row.ownershipProven = false
  cleanSince : row.cleanSince = none

/-- A row after a change: the old one with its evidence, a new claim in place of an
unproven one, or the old one with a recorded probe. -/
inductive Fate (op : DirectoryOp H F) (db : Directory H F) (endpoint : Bytes) :
    LoftRow F → Prop
  | inherits (old row : LoftRow F) : db.lofts.lookup endpoint = some old → Inherits old row →
    Fate op db endpoint row
  | fresh (row : LoftRow F) : Fresh row →
    (∀ old, db.lofts.lookup endpoint = some old → old.ownershipProven = false) →
    Fate op db endpoint row
  | probed (old row : LoftRow F) : db.lofts.lookup endpoint = some old →
    (∃ result now retentionUpdate pubkey sequence,
      op = .recordClaimProbe result now retentionUpdate pubkey sequence) →
    keyOf row.entry.pubkey = keyOf old.entry.pubkey →
    (old.ownershipProven = true → row.ownershipProven = true) → Fate op db endpoint row

theorem keyOf_of_verify {entry : DirectoryEntry F} {key : Bytes}
    (h : entry.verify prim = .ok key) : keyOf entry.pubkey = some key := by
  simp only [DirectoryEntry.verify, bind_eq_ok, okOr_eq_ok] at h
  obtain ⟨parsed, hp, hv⟩ := h
  rw [guard_bind_eq_ok] at hv
  obtain ⟨-, hv⟩ := hv
  obtain ⟨_, -, hv⟩ := bind_eq_ok.mp hv
  -- both payloads are checked under the parsed key
  split at hv
  all_goals
    simp only [ok_iff] at hv
    obtain ⟨_, -, -, rfl⟩ := hv
    exact hp

theorem SameKey.keyOf_eq {stored entry : DirectoryEntry F}
    (h : SameKey prim stored entry) : keyOf entry.pubkey = keyOf stored.pubkey := by
  obtain ⟨key, hs, he⟩ := h
  rw [keyOf_of_verify hs, keyOf_of_verify he]

variable [F64 F] {ctx : DirectoryContext F}

theorem RowStep.fate (h : RowStep ctx op db endpoint row') : Fate op db endpoint row' := by
  cases h with
  | swept old _ hold hs =>
    refine .inherits old row' hold ?_
    cases hs with
    | kept | leased => exact ⟨rfl, rfl, fun _ h => h, id⟩
    | expired =>
      exact ⟨rfl, rfl, (fun _ h => by cases h), by rintro (h | h) <;> cases h⟩
  | opened _ _ hn =>
    refine .fresh _ ⟨rfl, rfl, rfl⟩ fun old hold => ?_
    cases hn.symm.trans hold
  | revised old _ _ hold _ hk =>
    exact .inherits old _ hold ⟨hk.keyOf_eq, rfl, fun _ h => h, id⟩
  | reenrolled old _ _ _ hold _ hk =>
    exact .inherits old _ hold
      ⟨hk.keyOf_eq, rfl, (fun _ h => by cases h), by rintro (h | h) <;> cases h⟩
  | drained old _ hold =>
    exact .inherits old _ hold ⟨rfl, rfl, fun _ h => h, by rintro (h | h) <;> cases h⟩
  | won _ _ _ hold hp =>
    refine .fresh _ ⟨rfl, rfl, rfl⟩ fun other ho => ?_
    rw [hold] at ho
    exact Option.some.inj ho ▸ hp
  | probed old result now retentionUpdate _ _ _ _ _ hold hop =>
    refine .probed old _ hold ⟨result, now, retentionUpdate, _, _, hop⟩ rfl fun hp => ?_
    simp [probedRow, hp]

theorem count_public_record {result : ProbeResult F} {failStreak probesOk probesTotal now : ℕ}
    {healthy : Bool} (hrow : db.lofts.lookup row.endpoint = some row)
    (hle : db.lofts.count isPublic ≤ maxPublicEntries) :
    (db.lofts.put (probedRow result failStreak probesOk probesTotal now
      (db.nextState row healthy failStreak now) row)).count isPublic ≤ maxPublicEntries := by
  have ht := transition_nextState db row healthy failStreak now
  have hl : ∀ next, db.lofts.lookup (probedRow result failStreak probesOk probesTotal now
      next row).endpoint = some row := fun _ => hrow
  generalize db.nextState row healthy failStreak now = next at ht ⊢
  obtain ⟨state, degradedAt, since⟩ := next
  cases ht with
  | remove | wait | startOver =>
    exact (count_put_le (hl _) fun h => by simp [isPublic, probedRow] at h).trans hle
  | drain hs => exact (count_put_le (hl _) fun _ => by simp [isPublic, hs]).trans hle
  | serve hs | degrade hs =>
    refine (count_put_le (hl _) fun _ => ?_).trans hle
    rcases hs with h | h <;> simp [isPublic, h]
  | promote _ _ _ hr => exact (count_put_le_succ (hl _)).trans hr

variable [Sha256 H] [DecidableEq H] {P : LoftRow F → Prop}

/-- No endpoint is ever forgotten. -/
theorem exists_lookup_of_change (h : Change ctx op db db')
    (hr : db.lofts.lookup endpoint = some row) : ∃ row', db'.lofts.lookup endpoint = some row' := by
  have hput : ∀ (table : KeyedTable (LoftRow.endpoint (F := F))) (new : LoftRow F),
      table = db.lofts.put new → ∃ row', table.lookup endpoint = some row' := by
    rintro _ new rfl
    by_cases hk : new.endpoint = endpoint
    · exact ⟨new, hk ▸ lookup_put_self⟩
    · exact ⟨row, (lookup_put_of_ne (Ne.symm hk)).trans hr⟩
  cases h with
  | sweep hs =>
    obtain ⟨g, hg, hl, -⟩ := hs.lofts
    exact ⟨g row, by rw [hl, lookup_update, hr]; rfl⟩
  | reserve _ _ _ _ _ _ _ _ hdb | accept _ _ hdb | dropClaims _ _ hdb
  | consume _ _ _ _ _ _ _ hdb => exact ⟨row, hdb ▸ hr⟩
  | submit _ _ _ effect _ _ _ _ _ _ hp =>
    cases effect with
    | keep | claim => exact ⟨row, hp.lofts ▸ hr⟩
    | loft new => exact hput _ new hp.lofts
  | drain _ _ drained _ _ _ hdb => exact hput _ drained (hdb ▸ rfl)
  | win _ _ _ _ _ _ _ _ _ hl | record _ _ _ _ _ _ _ _ _ _ _ _ _ _ hl =>
    exact hput _ _ hl

/-! ## Proven ownership -/

/-- The endpoint is proven to belong to the key. -/
def Owned (db : Directory H F) (endpoint : Bytes) (key : Option Bytes) : Prop :=
  ∃ row, db.lofts.lookup endpoint = some row ∧ row.ownershipProven = true ∧
    keyOf row.entry.pubkey = key

theorem Owned.of_change (hc : Change ctx op db db') (h : Owned db endpoint key) :
    Owned db' endpoint key := by
  obtain ⟨old, hold, hpro, hk⟩ := h
  obtain ⟨row, hr⟩ := exists_lookup_of_change hc hold
  cases (rowStep_of_change hc hr).fate with
  | inherits _ row hp hinh =>
    cases hold.symm.trans hp
    exact ⟨row, hr, hinh.proven.trans hpro, hinh.key.trans hk⟩
  | fresh _ _ hu =>
    rw [hu old hold] at hpro
    cases hpro
  | probed _ row hp _ hsame hs =>
    cases hold.symm.trans hp
    exact ⟨row, hr, hs hpro, hsame.trans hk⟩

theorem Owned.of_changes (hc : Changes ctx op db db') (h : Owned db endpoint key) :
    Owned db' endpoint key := by
  induction hc with
  | refl => exact h
  | tail _ hcha ih => exact ih.of_change hcha

theorem count_public_of_change (hs : db.StatesAgree)
    (hle : db.lofts.count isPublic ≤ maxPublicEntries) (h : Change ctx op db db') :
    db'.lofts.count isPublic ≤ maxPublicEntries := by
  cases h with
  | sweep hswe =>
    obtain ⟨g, hg, hl, hswept⟩ := hswe.lofts
    rw [hl]
    refine (count_update_le fun row _ hp => ?_).trans hle
    have hrow := hswept row
    generalize g row = new at hrow hp
    cases hrow with
    | kept | leased => exact hp
    | expired => simp [isPublic, expireLoft] at hp
  | reserve _ _ _ _ _ _ _ _ hdb | consume _ _ _ _ _ _ _ hdb | accept _ _ hdb
  | dropClaims _ _ hdb => exact hdb ▸ hle
  | submit entry _ _ _ _ _ _ _ hd _ hper =>
    have hl := hper.lofts
    cases hd with
    | retry | retryClaim | reviseClaim | openClaim => exact hl ▸ hle
    | revise old hloft =>
      rw [hl]
      have hc : (db.lofts.put (revisedRow entry entry.sequence.toNat old)).count
          isPublic ≤ _ := count_public_put_le fun hp => ⟨old, lookup_own hloft rfl, hp⟩
      exact hc.trans hle
    | reenroll | first =>
      exact hl ▸ (count_public_put_le fun hp => by cases hp).trans hle
  | drain _ _ _ _ _ hd hdb =>
    subst hdb
    cases hd with
    | drain old hloft _ _ _ hpen hr =>
      refine (count_public_put_le fun _ => ⟨old, ?_, ?_⟩).trans hle
      · exact lookup_own hloft rfl
      · rw [← hs.of_lookup hloft] at hpen hr
        cases ho : old.state <;> simp_all [isPublic]
  | win _ _ _ _ _ _ _ _ _ hl =>
    exact hl ▸ (count_public_put_le fun hp => by cases hp).trans hle
  | record _ _ _ _ _ _ _ _ _ _ _ hold _ _ hl =>
    rw [hl]
    exact count_public_record (lookup_own hold rfl) hle

/-! ## Recorded probes -/

/-- A committed operation with the probes it recorded. Changes under an operation without
a probe record none. -/
inductive Logs (ctx : DirectoryContext F) (op : DirectoryOp H F) (db : Directory H F) :
    Directory H F → List RecordedProbe → Prop
  | quiet (silent : DirectoryOp H F) (db' : Directory H F) : Unprobed silent →
    Changes ctx silent db db' → Logs ctx op db db' []
  | probed (silent : DirectoryOp H F) (swept db' : Directory H F) (result : ProbeResult F)
    (now : ℕ) (retentionUpdate : Option RetentionUpdate) (row : LoftRow F)
    (failStreak probesOk probesTotal : ℕ) : Unprobed silent →
    Changes ctx silent db swept →
    op = .recordClaimProbe result now retentionUpdate row.entry.pubkey row.entry.sequence →
    swept.lofts.lookup result.endpoint = some row →
    db'.lofts = swept.lofts.put (probedRow (storedResult result now) failStreak probesOk
      probesTotal now (swept.nextState row (storedResult result now).healthy failStreak now)
      row) →
    Logs ctx op db db'
      [⟨result.endpoint, keyOf row.entry.pubkey, now, (storedResult result now).healthy⟩]

theorem logs_of_execute (hs : db.StatesAgree) (h : execute ctx db op = .ok db') :
    Logs ctx op db db' (recorded db op) := by
  cases op with
  | reserve | finalize | claimProbeCandidates | expire =>
    exact .quiet _ db' (by intros _ _ _ _ _ h; cases h) (changes_of_execute hs h)
  | recordClaimProbe result now retentionUpdate =>
    obtain ⟨⟨_, reply⟩, hr, rfl⟩ := map_eq_ok.mp h
    simp only [recordClaimProbeWithRetention, ok_iff, sqlU64_eq_ok, storedResult_endpoint] at hr
    obtain ⟨now, ⟨-, rfl⟩, target, ht, hr⟩ := hr
    simp only [recorded, storedResult_endpoint, ht]
    cases targets_of_probeTarget ctx (.expire now) ht with
    | stale _ hc | failedCandidate _ hc =>
      simp only [ok_iff, Prod.mk.injEq] at hr
      exact .quiet _ _ (unprobed_expire now) (hr.1 ▸ hc)
    | row swept row hc hrow _ hp hseq =>
      simp only [ok_iff, Prod.exists, Prod.mk.injEq] at hr
      obtain ⟨committed, next, hcom, rfl, -⟩ := hr
      simp only [recordOn, ok_iff, Prod.mk.injEq, storedResult_endpoint] at hcom
      obtain ⟨_, -, canaries, -, rfl, -⟩ := hcom
      exact .probed _ swept _ result now retentionUpdate row _ _ _ (unprobed_expire now)
        hc (by rw [hp, hseq]) hrow (modify_eq_put (by exact fun _ => rfl) hrow)

theorem logs_of_step (op : DirectoryOp H F) (hs : db.StatesAgree) :
    Logs ctx op db (directoryStep ctx db op).1 (directoryStep ctx db op).2 := by
  unfold directoryStep
  cases he : execute ctx db op with
  | error => exact .quiet (.expire 0) db (unprobed_expire 0) .refl
  | ok => exact logs_of_execute hs he

/-- What fresh rows have and later rows inherit survives operations without a probe. -/
theorem forall_row_of_quiet (hinh : ∀ old row, Inherits old row → P old → P row)
    (hf : ∀ row, Fresh row → P row) (hop : Unprobed op) (h : Changes ctx op db db')
    (hold : ∀ row, db.lofts.lookup endpoint = some row → P row) :
    ∀ row, db'.lofts.lookup endpoint = some row → P row := by
  induction h with
  | refl => exact hold
  | tail _ hc ih =>
    intro row hrow
    cases (rowStep_of_change hc hrow).fate with
    | inherits old row hp hr => exact hinh old row hr (ih old hp)
    | fresh row hs => exact hf row hs
    | probed _ _ _ hprobe =>
      obtain ⟨result, now, retentionUpdate, pubkey, sequence, rfl⟩ := hprobe
      exact absurd rfl (hop result now retentionUpdate pubkey sequence)

variable {probes history : List RecordedProbe}

omit [F64 F] in
theorem Inherits.cleanRow (h : Inherits row row') (hc : CleanRow history endpoint row) :
    CleanRow history endpoint row' := by
  intro since hs
  rw [h.key]
  exact hc since (h.cleanSince since hs)

omit [F64 F] in
theorem Fresh.cleanRow (h : Fresh row) : CleanRow history endpoint row := by
  intro since hs
  rw [h.cleanSince] at hs
  cases hs

section

variable (h : Logs ctx op db db' probes)

include h

/-- The row of an endpoint after a committed operation: it was not probed, or it is the old
one with the recorded probe. -/
theorem row_of_logs (hinh : ∀ old row, Inherits old row → P old → P row)
    (hf : ∀ row, Fresh row → P row) (hold : ∀ row, db.lofts.lookup endpoint = some row → P row)
    (hr : db'.lofts.lookup endpoint = some row) :
    (P row ∧ ∀ probe ∈ probes, probe.endpoint ≠ endpoint) ∨
      ∃ swept result now retentionUpdate old failStreak probesOk probesTotal, P old ∧
        op = .recordClaimProbe result now retentionUpdate row.entry.pubkey row.entry.sequence ∧
        probes = [⟨endpoint, keyOf row.entry.pubkey, now, (storedResult result now).healthy⟩] ∧
        row = probedRow (storedResult result now) failStreak probesOk probesTotal now
          (nextState (H := H) swept old (storedResult result now).healthy failStreak now) old := by
  cases h with
  | quiet _ _ hs hc =>
    exact .inl ⟨forall_row_of_quiet hinh hf hs hc hold row hr, by simp⟩
  | probed _ swept _ result now retentionUpdate old failStreak _ _ hs hc hop hl hlofts =>
    have hq := forall_row_of_quiet hinh hf hs hc hold
    have he : old.endpoint = result.endpoint := key_of_lookup hl
    rw [hlofts, lookup_put_eq_some] at hr
    rcases hr with ⟨heq, rfl⟩ | ⟨hne, hr⟩
    · obtain rfl : result.endpoint = endpoint := he.symm.trans heq
      exact .inr ⟨swept, result, now, retentionUpdate, old, failStreak, _, _, hq old hl, hop,
        rfl, rfl⟩
    · exact .inl ⟨hq row hr, forall_mem_singleton.mpr fun h => hne (he.trans h)⟩

theorem cleanRow_of_logs
    (hold : ∀ endpoint row, db.lofts.lookup endpoint = some row → CleanRow history endpoint row) :
    ∀ endpoint row, db'.lofts.lookup endpoint = some row →
      CleanRow (history ++ probes) endpoint row := by
  intro endpoint row hr since hsince
  rcases row_of_logs h (fun _ _ hinh => hinh.cleanRow) (fun _ hf => hf.cleanRow) (hold endpoint) hr
    with ⟨hc, hp⟩ | ⟨swept, result, now, _, old, failStreak, _, _, hc, -, rfl, rfl⟩
  · exact (hc since hsince).append fun probe hm h => absurd h (hp probe hm)
  · have ht := transition_nextState swept old (storedResult result now).healthy failStreak now
    rw [show (swept.nextState old _ failStreak now).2.2 = some since from hsince] at ht
    generalize (swept.nextState old _ failStreak now).1 = state at ht
    cases ht with
    | wait _ hh =>
      rw [hh]
      exact cleanSince_recorded hc

theorem proven_of_logs (hr : db'.lofts.lookup endpoint = some row)
    (hp : row.ownershipProven = true) :
    (∃ old, db.lofts.lookup endpoint = some old ∧ old.ownershipProven = true) ∨
      ∃ result now retentionUpdate,
        op = .recordClaimProbe result now retentionUpdate row.entry.pubkey row.entry.sequence ∧
        probes = [⟨endpoint, keyOf row.entry.pubkey, now, true⟩] := by
  refine or_iff_not_imp_left.mpr fun hn => ?_
  have hu : ∀ row, db.lofts.lookup endpoint = some row → row.ownershipProven = false :=
    fun old hold => by simpa using fun ho' => hn ⟨old, hold, ho'⟩
  rcases row_of_logs h (fun _ _ hinh => hinh.proven.trans) (fun _ hf => hf.proven) hu hr
    with ⟨hold, -⟩ | ⟨_, result, now, retentionUpdate, _, _, _, _, hold, hop, rfl, rfl⟩
  · rw [hold] at hp
    cases hp
  · have hh : (storedResult result now).healthy = true := by
      simpa [probedRow, hold] using hp
    exact ⟨result, now, retentionUpdate, hop, by rw [hh]⟩

theorem promoted_of_logs
    (hclean : ∀ endpoint row, db.lofts.lookup endpoint = some row → CleanRow history endpoint row)
    (hp : ∀ row, db.lofts.lookup endpoint = some row →
      ¬(row.state = .active ∨ row.state = .degraded))
    (hr : db'.lofts.lookup endpoint = some row) (ha : row.state = .active) :
    ∃ result now retentionUpdate since,
      op = .recordClaimProbe result now retentionUpdate row.entry.pubkey row.entry.sequence ∧
      CleanSince (history ++ probes) endpoint (keyOf row.entry.pubkey) since ∧
      since + promoteAfterSecs ≤ now := by
  have hold : ∀ row, db.lofts.lookup endpoint = some row →
      CleanRow history endpoint row ∧ ¬(row.state = .active ∨ row.state = .degraded) :=
    fun row hr => ⟨hclean endpoint row hr, hp row hr⟩
  rcases row_of_logs h (fun _ _ hinh hc => ⟨hinh.cleanRow hc.1, fun hs => hc.2 (hinh.serving hs)⟩)
    (fun _ hf => ⟨hf.cleanRow, by simp [hf.state]⟩) hold hr
    with ⟨hc, -⟩ | ⟨swept, result, now, retentionUpdate, old, failStreak, _, _, hc, hop, rfl, rfl⟩
  · exact absurd (.inl ha) hc.2
  · have ht := transition_nextState swept old (storedResult result now).healthy failStreak now
    rw [show (swept.nextState old _ failStreak now).1 = .active from ha] at ht
    generalize (swept.nextState old _ failStreak now).2.2 = since at ht
    cases ht with
    | serve hstate => exact absurd hstate hc.2
    | promote _ hh hlong =>
      refine ⟨result, now, retentionUpdate, _, hop, ?_, hlong⟩
      rw [hh]
      exact cleanSince_recorded hc.1

end

/-! ## Runs -/

theorem states_public_of_changes (hs : db.StatesAgree)
    (hp : db.lofts.count isPublic ≤ maxPublicEntries) (h : Changes ctx op db db') :
    db'.StatesAgree ∧ db'.lofts.count isPublic ≤ maxPublicEntries := by
  induction h with
  | refl => exact ⟨hs, hp⟩
  | tail _ hc ih =>
    exact ⟨ih.1.of_change hc, count_public_of_change ih.1 ih.2 hc⟩

theorem Lives.of_step (h : Lives db history) (op : DirectoryOp H F) :
    Lives (directoryStep ctx db op).1 (history ++ (directoryStep ctx db op).2) := by
  obtain ⟨hs, hp⟩ := states_public_of_changes h.states h.publicRows (changes_of_step op h.states)
  exact ⟨hs, cleanRow_of_logs (logs_of_step op h.states) h.clean, hp⟩

theorem Owned.of_run (h : Owned db endpoint key) (hl : Lives db history)
    (ops : List (DirectoryOp H F)) : Owned (run ctx db ops).1 endpoint key := by
  have hb : (∃ history, Lives (run ctx db ops).1 history) ∧ Owned (run ctx db ops).1 endpoint key :=
    Machine.run_invariant (fun db _ => (∃ history, Lives db history) ∧ Owned db endpoint key)
      ⟨⟨history, hl⟩, h⟩ ops fun op _ _ _ h => by
        obtain ⟨⟨history, hl⟩, ho⟩ := h
        exact ⟨⟨_, hl.of_step op⟩, ho.of_changes (changes_of_step op hl.states)⟩
  exact hb.2

/-- **The life of a loft.** In every reachable database the state column agrees with the
stored entries and the public snapshot fits; an owned endpoint keeps its key; ownership
is proven only by a healthy probe of the stored key; and a pending loft becomes active
only after a whole clean day of recorded probes of its key. -/
theorem lifecycle (ctx : DirectoryContext F) (ops : List (DirectoryOp H F)) :
    let db := (run ctx (empty : Directory H F) ops).1
    let history := (run ctx (empty : Directory H F) ops).2
    db.StatesAgree ∧
    (∀ endpoint key later, Owned db endpoint key → Owned (run ctx db later).1 endpoint key) ∧
    (∀ op endpoint row, (directoryStep ctx db op).1.lofts.lookup endpoint = some row →
      row.ownershipProven = true →
      (∃ old, db.lofts.lookup endpoint = some old ∧ old.ownershipProven = true) ∨
        ∃ result now retentionUpdate,
          op = .recordClaimProbe result now retentionUpdate row.entry.pubkey row.entry.sequence ∧
          (directoryStep ctx db op).2 = [⟨endpoint, keyOf row.entry.pubkey, now, true⟩]) ∧
    (∀ op endpoint old row, db.lofts.lookup endpoint = some old → old.state = .pending →
      (directoryStep ctx db op).1.lofts.lookup endpoint = some row → row.state = .active →
      ∃ result now retentionUpdate since,
        op = .recordClaimProbe result now retentionUpdate row.entry.pubkey row.entry.sequence ∧
        CleanSince (history ++ (directoryStep ctx db op).2) endpoint (keyOf row.entry.pubkey)
          since ∧
        since + promoteAfterSecs ≤ now) ∧
    db.lofts.count isPublic ≤ maxPublicEntries ∧ db.entries ≠ .error .responseTooLarge := by
  intro db history
  have hl : Lives db history :=
    Machine.run_invariant Lives lives_empty ops fun op _ _ _ h => h.of_step op
  refine ⟨hl.states, fun endpoint key later h => h.of_run hl later, ?_, ?_,
    hl.publicRows, entries_ne_responseTooLarge hl.publicRows⟩
  · intro op endpoint row hr hpro
    exact proven_of_logs (logs_of_step op hl.states) hr hpro
  · intro op endpoint old row hold hp hr ha
    refine promoted_of_logs (logs_of_step op hl.states) hl.clean ?_ hr ha
    intro other ho
    cases hold.symm.trans ho
    simp [hp]

section Sample

open SampleDirectory

def healthyProbe (now : ℕ) : DirectoryOp ByteHash ℕ :=
  .recordClaimProbe ⟨(loftEntry 0x31 1).endpoint, now, true, true, 0, none, none, none⟩ now none
    (loftEntry 0x31 1).pubkey 1

def probedOps : List (DirectoryOp ByteHash ℕ) :=
  [.reserve (.add (loftEntry 0x31 1)) 10, .finalize (.add (loftEntry 0x31 1)) firstCheckpoint,
    healthyProbe 100]

theorem lifecycle_promotion : ∃ row since,
      (directoryStep sampleCtx (run sampleCtx empty probedOps).1
        (healthyProbe 86500)).1.lofts.lookup (loftEntry 0x31 1).endpoint = some row ∧
      row.state = .active ∧
      CleanSince ((run sampleCtx empty probedOps).2 ++ (directoryStep sampleCtx
          (run sampleCtx empty probedOps).1 (healthyProbe 86500)).2)
        (loftEntry 0x31 1).endpoint (keyOf row.entry.pubkey) since := by
  have hpen : ((run sampleCtx empty probedOps).1.lofts.lookup
      (loftEntry 0x31 1).endpoint).any (fun row => row.state = .pending) = true := by
    decide +kernel
  have ha : ((directoryStep sampleCtx (run sampleCtx empty probedOps).1
      (healthyProbe 86500)).1.lofts.lookup (loftEntry 0x31 1).endpoint).any
      (fun row => row.state = .active) = true := by
    decide +kernel
  obtain ⟨old, hold, hw⟩ := (Option.any_eq_true _ _).mp hpen
  obtain ⟨row, hr, hs⟩ := (Option.any_eq_true _ _).mp ha
  rw [decide_eq_true_iff] at hw hs
  obtain ⟨-, -, -, hp, -⟩ := lifecycle sampleCtx probedOps
  obtain ⟨_, _, _, since, _, hc, _⟩ := hp (healthyProbe 86500) _ old row hold hw hr hs
  exact ⟨row, since, hr, hs, hc⟩

end Sample

end Pigeonpost.Directory
