import Pigeonpost.Verification.Directory.Rows

/-! # What every reachable directory keeps

The pending load stays within its bound, the state column agrees with the entries, and
every reservation can still be projected: the rows of a reserved endpoint are left alone,
and the place the projection needs among the pending ones is kept. -/

namespace Pigeonpost.Directory

open KeyedTable List

variable {H F : Type} {db db' : Directory H F}

/-! ## The next state -/

/-- The transitions a recorded probe can make, with the start of the clean time after it. -/
inductive Transition (db : Directory H F) (row : LoftRow F) (healthy : Bool) (now : ℕ) :
    LoftState → Option ℕ → Prop
  | remove : Transition db row healthy now .removed none
  | drain : row.state = .draining → Transition db row healthy now .draining none
  | serve : row.state = .active ∨ row.state = .degraded →
    Transition db row healthy now .active none
  | degrade : row.state = .active ∨ row.state = .degraded →
    Transition db row healthy now .degraded none
  | wait : row.state = .pending → healthy = true →
    Transition db row healthy now .pending (some (row.cleanSince.getD now))
  | startOver : row.state = .pending → Transition db row healthy now .pending none
  | promote : row.state = .pending → healthy = true →
    row.cleanSince.getD now + promoteAfterSecs ≤ now →
    db.lofts.count isPublic < maxPublicEntries → Transition db row healthy now .active none

theorem transition_nextState (db : Directory H F) (row : LoftRow F) (healthy : Bool)
    (failStreak now : ℕ) :
    Transition db row healthy now (db.nextState row healthy failStreak now).1
      (db.nextState row healthy failStreak now).2.2 := by
  unfold nextState
  cases hs : row.state with
  | pending =>
    simp only
    split
    · exact .remove
    cases healthy with
    | false => exact .startOver hs
    | true =>
      simp only [if_true]
      split
      · rename_i hc
        split
        · rename_i hr
          have hp : 0 < promoteAfterSecs := by decide
          exact .promote hs rfl (by omega) hr
        · exact .wait hs rfl
      · exact .wait hs rfl
  | active =>
    simp only
    split
    · exact .degrade (.inl hs)
    · exact .serve (.inl hs)
  | degraded =>
    simp only
    split
    · exact .serve (.inr hs)
    · split
      · exact .remove
      · exact .degrade (.inr hs)
  | draining =>
    simp only
    split
    · exact .remove
    · exact .drain hs
  | removed => exact .remove

/-! ## The pending load -/

theorem Transition.pending {row : LoftRow F} {healthy : Bool} {now : ℕ} {since : Option ℕ}
    (h : Transition db row healthy now .pending since) : row.state = .pending := by
  cases h with
  | wait hs | startOver hs => exact hs

theorem pendingLoad_le_of_sweeps (h : Sweeps db db') : db'.pendingLoad ≤ db.pendingLoad := by
  obtain ⟨g, hg, hl, hs⟩ := h.lofts
  have hc : db'.lofts.count (fun row => row.state == .pending) ≤
      db.lofts.count fun row => row.state == .pending := by
    rw [hl]
    refine count_update_le fun row _ hp => ?_
    have hr := hs row
    generalize g row = new at hr hp
    cases hr with
    | kept | leased => exact hp
    | expired _ _ hold => simp [hold]
  simp only [pendingLoad]
  rw [h.reservations]
  exact Nat.add_le_add_right (Nat.add_le_add hc h.pendingClaims_le) _

variable {row : ReservationRow H}

/-- A consumed reservation gives its place back. -/
theorem pendingLoad_consume [DecidableEq H] (hr : row ∈ db.reservations.rows) :
    Directory.pendingLoad { db with
        reservations := db.reservations.delete fun old => old.reservationId = row.reservationId }
      + (if row.capacitySlot then 1 else 0) ≤ db.pendingLoad := by
  have hd := count_delete db.reservations
    (fun old => old.reservationId = row.reservationId) fun old => old.capacitySlot
  have hs : (if row.capacitySlot then 1 else 0) ≤ db.reservations.count fun old =>
      old.capacitySlot && decide (old.reservationId = row.reservationId) := by
    split
    · next hs => exact countP_pos_iff.mpr ⟨row, hr, by simp [hs]⟩
    · exact Nat.zero_le _
  simp only [pendingLoad]
  omega

theorem reserved_of_mem (h : row ∈ db.reservations.rows) : db.reserved row.endpoint = true := by
  rw [Directory.reserved, lookup_eq_some.mpr ⟨h, rfl⟩]
  rfl

variable [F64 F]

theorem pendingLoad_le_of_win {row : LoftRow F} {claim : PendingClaimRow F} {endpoint : Bytes}
    {now : ℕ} (hrow : db.lofts.lookup endpoint = some row)
    (hclaim : claim ∈ db.pendingClaims.rows) (he : claim.endpoint = endpoint)
    (hlofts : db'.lofts = db.lofts.put (winningRow row claim.entry now))
    (hc : db'.pendingClaims = db.pendingClaims.delete fun row => row.endpoint = endpoint)
    (hr : db'.reservations = db.reservations) : db'.pendingLoad ≤ db.pendingLoad := by
  have hl : db.lofts.lookup (winningRow row claim.entry now).endpoint = some row :=
    lookup_own hrow rfl
  have hloft := count_put_le_succ (p := fun row : LoftRow F => row.state == .pending) hl
  -- the winner's own claim is one of those that go
  have hg : 0 < db.pendingClaims.count fun row => true && decide (row.endpoint = endpoint) :=
    countP_pos_iff.mpr ⟨claim, hclaim, by simp [he]⟩
  have hd := count_delete db.pendingClaims (fun row => row.endpoint = endpoint) fun _ => true
  simp only [pendingLoad]
  rw [hlofts, hc, hr]
  omega

variable {ctx : DirectoryContext F} {op : DirectoryOp H F}

/-- Endpoints a submission is accepted for. -/
def AdmissibleEndpoint (endpoint : Bytes) : Prop := endpoint ≠ [] ∧ endpoint.length ≤ 2048

theorem Accepts.admissibleEndpoint {prim : Primitives} {entry : DirectoryEntry F}
    (hurl : prim.parseUrl [] = none) (h : Accepts prim entry) :
    AdmissibleEndpoint entry.endpoint := by
  have hv := h.valid
  simp only [validateSubmission, ok_iff, Nat.not_lt] at hv
  obtain ⟨hl, url, hp, -⟩ := hv
  refine ⟨fun he => ?_, hl⟩
  rw [he, hurl] at hp
  cases hp

variable [Sha256 H] {mutation : LoftMutation F}

/-- A promise rests on the rows of its endpoint alone. -/
theorem Reserves.of_frozen (h : Reserves ctx db row mutation)
    (hf : Frozen mutation.endpoint db db') : Reserves ctx db' row mutation := by
  cases mutation with
  | add entry =>
    obtain ⟨ha, he, effect, hd⟩ := h
    refine ⟨ha, he, effect, ?_⟩
    have hl : db'.lofts.lookup entry.endpoint = _ := hf.loft
    have hc : db'.pendingClaims.lookup (entry.endpoint, entry.pubkey) = _ := hf.claim entry.pubkey
    rw [hl, hc]
    exact hd
  | drain authorization =>
    obtain ⟨hb, ⟨loft, hloo, he⟩, ⟨effect, hd⟩, hs⟩ := h
    have hl : db'.lofts.lookup authorization.endpoint = _ := hf.loft
    exact ⟨hb, ⟨loft, hl.trans hloo, he⟩, ⟨effect, hl ▸ hd⟩, hs⟩

theorem Reserves.endpoint (h : Reserves ctx db row mutation) :
    row.endpoint = mutation.endpoint := by
  cases mutation with
  | add | drain => obtain ⟨-, ⟨_, -, he⟩, -⟩ := h; exact he.endpoint

variable [DecidableEq H]

theorem pendingLoad_le_of_change (hsta : db.StatesAgree) (hl : db.pendingLoad ≤ maxPendingEntries)
    (h : Change ctx op db db') : db'.pendingLoad ≤ maxPendingEntries := by
  cases h with
  | sweep hswe => exact (pendingLoad_le_of_sweeps hswe).trans hl
  | reserve _ _ row _ hn _ _ hc hdb =>
    subst hdb
    have hcount := count_put_of_none (p := fun row : ReservationRow H => row.capacitySlot) hn
    simp only [pendingLoad] at hl hc ⊢
    rw [hcount]
    split
    · next hs => have := hc hs; omega
    · omega
  | consume _ _ _ _ hloo _ _ hdb =>
    subst hdb
    have hcon := pendingLoad_consume (lookup_eq_some.mp hloo).1
    omega
  | submit _ _ _ _ _ _ _ _ hd hc hper =>
    rw [pendingLoad_of_performs hsta hd hper]
    split
    · next hs => exact hc hs
    · exact hl
  | drain authorization _ row _ _ hd hdb =>
    subst hdb
    cases hd with
    | drain old hloft =>
      have hcount : (db.lofts.put (drainedRow authorization authorization.sequence.toNat
          authorization.after.toNat old)).count (fun row => row.state == .pending) ≤
          db.lofts.count fun row => row.state == .pending :=
        count_put_le (lookup_own hloft rfl) (by simp [drainedRow])
      simp only [pendingLoad] at hl ⊢
      omega
  | accept _ _ hdb => exact hdb ▸ hl
  | dropClaims dropped _ hdb =>
    subst hdb
    have hdel := count_delete db.pendingClaims (fun row => row.endpoint = dropped) fun _ => true
    simp only [pendingLoad] at hl ⊢
    omega
  | win _ _ _ _ _ hold _ hm hclaim hlofts hcla hr =>
    exact (pendingLoad_le_of_win hold hm hclaim hlofts hcla hr).trans hl
  | record result now _ _ _ old failStreak _ _ _ _ hold _ _ hlofts _ _ hr =>
    have hcount : db'.lofts.count (fun row => row.state == .pending) ≤
        db.lofts.count fun row => row.state == .pending := by
      rw [hlofts]
      refine count_put_le (lookup_own hold rfl) fun hp => ?_
      rw [beq_iff_eq] at hp ⊢
      have ht := transition_nextState db old (storedResult result now).healthy failStreak now
      rw [show (db.nextState old _ failStreak now).1 = .pending from hp] at ht
      exact ht.pending
    simp only [pendingLoad] at hl ⊢
    rw [hr]
    omega

/-! ## What every reachable database keeps -/

/-- Among them: every reservation can still be finalized. -/
structure Keeps (ctx : DirectoryContext F) (db : Directory H F) : Prop where
  states : db.StatesAgree
  load : db.pendingLoad ≤ maxPendingEntries
  ids : (db.reservations.rows.map ReservationRow.reservationId).Nodup
  checkpoint : ∀ checkpoint, db.registryCheckpoint = some checkpoint →
    validatePersistedCheckpoint checkpoint = .ok ()
  endpoints : ∀ row ∈ db.lofts.rows, AdmissibleEndpoint row.endpoint
  honoured : ∀ row ∈ db.reservations.rows, ∃ mutation, Reserves ctx db row mutation

theorem keeps_empty (ctx : DirectoryContext F) : Keeps ctx (empty : Directory H F) where
  states row hr := absurd hr not_mem_nil
  load := Nat.zero_le _
  ids := nodup_nil
  checkpoint checkpoint h := absurd h (by simp [empty])
  endpoints row hr := absurd hr not_mem_nil
  honoured row hr := absurd hr not_mem_nil

theorem admissibleEndpoint_of_change (hurl : ctx.prim.parseUrl [] = none)
    (he : ∀ row ∈ db.lofts.rows, AdmissibleEndpoint row.endpoint)
    (h : Change ctx op db db') : ∀ row ∈ db'.lofts.rows, AdmissibleEndpoint row.endpoint := by
  intro row hr
  have hl : db'.lofts.lookup row.endpoint = some row := lookup_eq_some.mpr ⟨hr, rfl⟩
  have hold : ∀ old, db.lofts.lookup row.endpoint = some old → AdmissibleEndpoint row.endpoint := by
    intro old hold
    obtain ⟨hm, hk⟩ := lookup_eq_some.mp hold
    exact hk ▸ he old hm
  cases rowStep_of_change h hl with
  | swept old _ hp | revised old _ _ hp | reenrolled old _ _ _ hp
  | drained old _ hp | won old _ _ hp | probed old _ _ _ _ _ _ _ _ hp =>
    exact hold old hp
  | opened _ _ _ hentry ha => exact hentry ▸ ha.admissibleEndpoint hurl

/-- A change adds one reservation with a new identifier, or none. -/
theorem reservations_of_change (h : Change ctx op db db') :
    db'.reservations.rows <+ db.reservations.rows ∨ ∃ mutation now new,
      op = .reserve mutation now ∧ db'.reservations.rows = db.reservations.rows ++ [new] ∧
        (∀ old ∈ db.reservations.rows, old.reservationId ≠ new.reservationId) ∧
        Reserves ctx db' new mutation := by
  cases h with
  | sweep hs => exact .inl (hs.reservations ▸ .refl _)
  | reserve mutation now new hop hn hf hres _ hdb =>
    subst hdb
    refine .inr ⟨mutation, now, new, hop, ?_, hf, hres.of_frozen ⟨rfl, fun _ => rfl⟩⟩
    exact Table.upsert_of_forall_ne (lookup_eq_none.mp hn)
  | consume _ _ _ _ _ _ _ hdb =>
    subst hdb
    exact .inl filter_sublist
  | submit _ _ _ _ _ _ _ _ _ _ hp => exact .inl (hp.reservations ▸ .refl _)
  | drain _ _ _ _ _ _ hdb | accept _ _ hdb | dropClaims _ _ hdb => exact .inl (hdb ▸ .refl _)
  | win _ _ _ _ _ _ _ _ _ _ _ hr | record _ _ _ _ _ _ _ _ _ _ _ _ _ _ _ _ _ hr =>
    exact .inl (hr ▸ .refl _)

theorem mem_reservations_of_change (h : Change ctx op db db') (hrow : row ∈ db'.reservations.rows) :
    row ∈ db.reservations.rows ∨ ∃ mutation now, op = .reserve mutation now ∧
      Reserves ctx db' row mutation := by
  rcases reservations_of_change h with hsub | ⟨mutation, now, new, hop, hrows, -, hres⟩
  · exact .inl (hsub.mem hrow)
  rw [hrows, mem_append, mem_singleton] at hrow
  rcases hrow with hm | rfl
  · exact .inl hm
  · exact .inr ⟨mutation, now, hop, hres⟩

theorem nodup_ids_of_change (h : Change ctx op db db')
    (hids : (db.reservations.rows.map ReservationRow.reservationId).Nodup) :
    (db'.reservations.rows.map ReservationRow.reservationId).Nodup := by
  rcases reservations_of_change h with hsub | ⟨_, _, new, -, hrows, hf, -⟩
  · exact hids.sublist (hsub.map _)
  · rw [hrows]
    exact Table.nodup_append_singleton hids hf

theorem checkpoint_of_change (h : Change ctx op db db')
    (hold : ∀ checkpoint, db.registryCheckpoint = some checkpoint →
      validatePersistedCheckpoint checkpoint = .ok ()) :
    ∀ checkpoint, db'.registryCheckpoint = some checkpoint →
      validatePersistedCheckpoint checkpoint = .ok () := by
  cases h with
  | sweep hs => exact hs.registryCheckpoint ▸ hold
  | reserve _ _ _ _ _ _ _ _ hdb | consume _ _ _ _ _ _ _ hdb | drain _ _ _ _ _ _ hdb
  | dropClaims _ _ hdb => rwa [hdb]
  | submit _ _ _ _ _ _ _ _ _ _ hp =>
    exact hp.registryCheckpoint ▸ hold
  | accept _ hv hdb =>
    intro checkpoint hc
    rw [hdb] at hc
    exact Option.some.inj hc ▸ hv
  | win _ _ _ _ _ _ _ _ _ _ _ _ hc
  | record _ _ _ _ _ _ _ _ _ _ _ _ _ _ _ _ _ _ hc => exact hc ▸ hold

section

variable (hu : ctx.prim.parseUrl [] = none)

include hu

section

variable (hk : Keeps ctx db)

include hk

theorem Keeps.of_change (h : Change ctx op db db') : Keeps ctx db' where
  states := hk.states.of_change h
  load := pendingLoad_le_of_change hk.states hk.load h
  ids := nodup_ids_of_change h hk.ids
  checkpoint := checkpoint_of_change h hk.checkpoint
  endpoints := admissibleEndpoint_of_change hu hk.endpoints h
  honoured row hrow := by
    rcases mem_reservations_of_change h hrow with hold | ⟨mutation, now, -, hr⟩
    · obtain ⟨mutation, hr⟩ := hk.honoured row hold
      refine ⟨mutation, hr.of_frozen (frozen_of_change h ?_)⟩
      exact hr.endpoint ▸ reserved_of_mem hold
    · exact ⟨mutation, hr⟩

theorem Keeps.of_changes (h : Changes ctx op db db') : Keeps ctx db' := by
  induction h with
  | refl => exact hk
  | tail _ hc ih => exact ih.of_change hu hc

theorem Keeps.of_step : Keeps ctx (directoryStep ctx db op).1 :=
  hk.of_changes hu (changes_of_step op hk.states)

theorem Keeps.of_run (ops : List (DirectoryOp H F)) : Keeps ctx (run ctx db ops).1 :=
  Machine.run_invariant (fun db _ => Keeps ctx db) hk ops fun _ _ _ _ hk => hk.of_step hu

end

end

end Pigeonpost.Directory
