import Pigeonpost.Verification.Directory.Invariant
import Pigeonpost.Verification.Shared.SampleDirectory

/-! # A reservation is a promise

Whatever runs between the reservation of a mutation and its finalization, the
finalization succeeds. -/

namespace Pigeonpost

open KeyedTable

/-- Distinct requests have distinct texts. -/
structure DirectoryJson.Faithful {F : Type} (json : DirectoryJson F) : Prop where
  entry : Function.Injective json.entry
  authorization : Function.Injective json.authorization

namespace Directory

variable {H F : Type} [Sha256 H] [DecidableEq H] {ctx : DirectoryContext F} {db db' : Directory H F}
  {row : ReservationRow H} {mutation : LoftMutation F} {checkpoint : PersistedRegistryCheckpoint H}

/-- A well-formed checkpoint of the same log that is not behind the persisted one. -/
structure NotOlder (previous : Option (PersistedRegistryCheckpoint H))
    (checkpoint : PersistedRegistryCheckpoint H) : Prop where
  wellFormed : validatePersistedCheckpoint checkpoint = .ok ()
  sameLog : ∀ old, previous = some old → old.origin = checkpoint.origin
  notBehind : ∀ old, previous = some old → old.size < checkpoint.size ∨
    old.size = checkpoint.size ∧ old.root = checkpoint.root ∧
      old.witnessedAt ≤ checkpoint.witnessedAt

/-! ## Finalizing what is reserved -/

theorem acceptRegistryCheckpointIn_of_notOlder
    (hv : ∀ old, db.registryCheckpoint = some old → validatePersistedCheckpoint old = .ok ())
    (h : NotOlder db.registryCheckpoint checkpoint) :
    db.acceptRegistryCheckpointIn checkpoint =
      .ok { db with registryCheckpoint := some checkpoint } := by
  unfold acceptRegistryCheckpointIn
  rw [h.wellFormed, ok_bind]
  cases hp : db.registryCheckpoint with
  | none => rfl
  | some old =>
    have hnb := h.notBehind old hp
    have hb : ¬(old.origin ≠ checkpoint.origin ∨ checkpoint.size < old.size ∨
        checkpoint.size = old.size ∧ checkpoint.root ≠ old.root) := by
      rintro (ho | hs | ⟨hs, hr⟩)
      · exact ho (h.sameLog old hp)
      · omega
      · rcases hnb with hlt | ⟨-, hsame, -⟩
        · omega
        · exact hr hsame.symm
    have hw : ¬(checkpoint.size = old.size ∧ checkpoint.witnessedAt < old.witnessedAt) := by
      omega
    simp only [hv old hp, ok_bind, if_neg hb, if_neg hw]
    rfl

variable {entry : DirectoryEntry F}

theorem verify_pubkey_length {prim : Primitives} {key : Bytes} (h : entry.verify prim = .ok key) :
    entry.pubkey.length = 64 := by
  simp only [DirectoryEntry.verify, ok_iff, parseHex] at h
  obtain ⟨_, hp, -⟩ := h
  by_contra hl
  rw [if_pos hl] at hp
  cases hp

theorem validateReservationRow_of_exact {canonical pubkey : Bytes} {sequence : ℕ}
    (he : Exact ctx.json mutation canonical pubkey sequence row)
    (hend : AdmissibleEndpoint mutation.endpoint) (hp : pubkey.length = 64) :
    validateReservationRow row = .ok () := by
  have hm := (guard_eq_ok.mp he.boundedMutation).1
  have hr := (guard_eq_ok.mp he.boundedRequest).1
  have hn : mutation.endpoint.isEmpty = false := by simpa using hend.1
  rw [Bool.not_eq_true, Bool.or_eq_false_iff] at hm hr
  have hid : row.reservationId =
      reservationId row.operation row.canonicalMutation row.localRequest := by
    rw [he.id, he.operation, he.canonicalMutation, he.localRequest]
  have hb : (row.endpoint.isEmpty
      || decide (row.endpoint.length > 2048)
      || row.loftPubkey.length != 64
      || row.canonicalMutation.isEmpty
      || decide (row.canonicalMutation.length > maxLocalMutationBytes)
      || row.localRequest.isEmpty
      || decide (row.localRequest.length > maxLocalMutationBytes)) = false := by
    rw [he.endpoint, he.loftPubkey, he.canonicalMutation, he.localRequest,
      hn, hp, hm.1, hm.2, hr.1, hr.2]
    simpa using hend.2
  simp only [validateReservationRow, hb, Bool.false_eq_true, if_false, hid, ne_eq,
    not_true_eq_false]
  rfl

variable [F64 F] {op : DirectoryOp H F}

/-- The reservation of an id is the only one, and its place is free once it is consumed. -/
theorem exists_consumeReservation (hk : Keeps ctx db) (hr : row ∈ db.reservations.rows) :
    ∃ consumed, db.consumeReservation row.reservationId = .ok consumed ∧
      consumed.lofts = db.lofts ∧ consumed.pendingClaims = db.pendingClaims ∧
      consumed.registryCheckpoint = db.registryCheckpoint ∧
      (row.capacitySlot = true → consumed.pendingLoad < maxPendingEntries) := by
  have hc : db.reservations.count (fun old => old.reservationId = row.reservationId) = 1 := by
    have ho := List.count_eq_one_of_mem hk.ids (List.mem_map_of_mem hr)
    rw [List.count, List.countP_map] at ho
    refine Eq.trans (List.countP_congr fun old _ => ?_) ho
    simp
  refine ⟨_, if_neg (by simp [hc]), rfl, rfl, rfl, fun hs => ?_⟩
  have hp := pendingLoad_consume hr
  have hl := hk.load
  rw [if_pos hs] at hp
  omega

theorem exists_finalize (hurl : ctx.prim.parseUrl [] = none) (hk : Keeps ctx db)
    (hrow : db.reservations.lookup mutation.endpoint = some row)
    (hr : Reserves ctx db row mutation) (hc : NotOlder db.registryCheckpoint checkpoint) :
    ∃ db', execute ctx db (.finalize mutation checkpoint) = .ok db' := by
  have hacc : ∀ projected : Directory H F, projected.registryCheckpoint = db.registryCheckpoint →
      ∃ db', projected.acceptRegistryCheckpointIn checkpoint = .ok db' :=
    fun _ hu => ⟨_, acceptRegistryCheckpointIn_of_notOlder (hu ▸ hk.checkpoint) (hu ▸ hc)⟩
  rcases mutation with entry | authorization
  case' drain =>
    obtain ⟨⟨hseq, hafter⟩, ⟨loft, hloft, he⟩, ⟨effect, hd⟩, -⟩ := hr
    have ha : Authorized ctx.prim loft authorization := by
      cases hd with
      | retry _ hl ha | drain _ hl ha => exact Option.some.inj (hloft.symm.trans hl) ▸ ha
    obtain ⟨key, hkey, hauth⟩ := ha
    obtain ⟨hm, hend⟩ := lookup_eq_some.mp hloft
    have hadm : AdmissibleEndpoint authorization.endpoint := hend ▸ hk.endpoints loft hm
  case' add =>
    obtain ⟨ha, ⟨addition, hadd, he⟩, effect, hd⟩ := hr
    obtain ⟨key, hkey⟩ := ha.key
    have hadm := ha.admissibleEndpoint hurl
    have hseq := ha.sequence
  all_goals
    have hv := validateReservationRow_of_exact he hadm (verify_pubkey_length hkey)
    have hens := ensureExactReservation_eq_ok.mpr ⟨hv, he.id, he.operation,
      he.loftPubkey, he.mutationSequence, he.canonicalMutation, he.localRequest⟩
    obtain ⟨consumed, hcon, hlofts, hcla, hper, hload⟩ :=
      exists_consumeReservation hk (lookup_eq_some.mp hrow).1
    have hs := fun field => (@sqlU64_eq_ok _ _ field).mpr ⟨hseq, rfl⟩
    have hreq := he.boundedRequest
    rw [he.id] at hcon
    simp only [LoftMutation.request, LoftMutation.operation] at hens hcon hreq
    rw [LoftMutation.endpoint] at hrow
  · obtain ⟨projected, hp⟩ := exists_applySubmission ha (hlofts.symm ▸ hcla.symm ▸ hd) hload
    simp only [execute, finalizeAdd, hc.wellFormed, hadd, he.boundedMutation, hreq,
      hs, hrow, hens, hcon, hp, ok_bind]
    obtain ⟨-, _, _, -, -, hperf⟩ := decides_of_applySubmission hp
    exact hacc projected (hperf.registryCheckpoint.trans hper)
  · obtain ⟨projected, hp⟩ := exists_applyDrain hseq hafter (hlofts.symm ▸ hd)
    have hpub : drainLoftPubkey ctx.prim db authorization = .ok loft.entry.pubkey := by
      simp only [drainLoftPubkey, hloft, okOr_some, ok_bind, hkey, hauth]
      rfl
    simp only [execute, finalizeDrain, hc.wellFormed, hreq, hpub, he.boundedMutation,
      hs, hrow, hens, hcon, hp, ok_bind]
    obtain ⟨-, _, -, rfl⟩ := drainDecides_of_applyDrain hp
    exact hacc _ hper

/-- What a finalization without a reservation asks for: the mutation, as `reserved` had it,
is still the last one of its endpoint. -/
def Applied (ctx : DirectoryContext F) (reserved db : Directory H F) : LoftMutation F → Prop
  | .add entry => addIsExactlyApplied ctx.prim db entry = .ok true
  | .drain authorization => ∃ loft, reserved.lofts.lookup authorization.endpoint = some loft ∧
    drainIsExactlyApplied ctx.prim db authorization
      (authorization.registryRemoval loft.entry.pubkey) = .ok true

omit [Sha256 H] [DecidableEq H] [F64 F] in
theorem drainLoftPubkey_of_applied {authorization : DrainAuthorization} {mutation : DirectoryRemove}
    (h : drainIsExactlyApplied ctx.prim db authorization mutation = .ok true) :
    ∃ pubkey, drainLoftPubkey ctx.prim db authorization = .ok pubkey ∧
      authorization.registryRemoval pubkey = mutation := by
  unfold drainIsExactlyApplied at h
  split at h
  · cases h
  · rename_i loft hl
    simp only [ok_iff, Bool.and_eq_true, beq_iff_eq] at h
    obtain ⟨key, hkey, _, hauth, _, -, -, rfl⟩ := h
    refine ⟨loft.entry.pubkey, ?_, rfl⟩
    simp only [drainLoftPubkey, hl, okOr_some, ok_bind, hkey, hauth]
    rfl

/-- The repeat of a finalization changes nothing but the checkpoint. -/
theorem finalize_of_applied {reserved : Directory H F} (hk : Keeps ctx db)
    (hr : Reserves ctx reserved row mutation) (ha : Applied ctx reserved db mutation)
    (hnone : db.reservations.lookup mutation.endpoint = none)
    (hc : NotOlder db.registryCheckpoint checkpoint) :
    execute ctx db (.finalize mutation checkpoint) =
      .ok { db with registryCheckpoint := some checkpoint } := by
  have hacc := acceptRegistryCheckpointIn_of_notOlder hk.checkpoint hc
  cases mutation with
  | add entry =>
    obtain ⟨haccepts, ⟨addition, hadd, he⟩, -⟩ := hr
    have hs := fun field => (@sqlU64_eq_ok _ _ field).mpr ⟨haccepts.sequence, rfl⟩
    have hreq := he.boundedRequest
    simp only [LoftMutation.request, LoftMutation.endpoint, Applied] at hreq hnone ha
    simp only [execute, finalizeAdd, hc.wellFormed, hadd, he.boundedMutation, hreq, hs, hnone, ha,
      ok_bind]
    exact hacc
  | drain authorization =>
    obtain ⟨⟨hseq, -⟩, ⟨loft, hloft, he⟩, -⟩ := hr
    obtain ⟨old, hold, hdone⟩ := ha
    cases hloft.symm.trans hold
    obtain ⟨pubkey, hpub, hrem⟩ := drainLoftPubkey_of_applied hdone
    have hs := fun field => (@sqlU64_eq_ok _ _ field).mpr ⟨hseq, rfl⟩
    have hreq := he.boundedRequest
    simp only [LoftMutation.request, LoftMutation.endpoint] at hreq hnone
    simp only [execute, finalizeDrain, hc.wellFormed, hreq, hpub, hrem, he.boundedMutation, hs,
      hnone, hdone, ok_bind]
    exact hacc

/-! ## From the reservation on -/

omit [DecidableEq H] in
theorem Reserves.eq_mutation {other : LoftMutation F} (hj : ctx.json.Faithful)
    (h : Reserves ctx db row mutation) (ho : row.operation = other.operation)
    (hr : row.localRequest = other.request ctx.json) : mutation = other := by
  have he : row.operation = mutation.operation ∧ row.localRequest = mutation.request ctx.json := by
    cases mutation with
    | add => obtain ⟨-, ⟨_, -, he⟩, -⟩ := h; exact ⟨he.operation, he.localRequest⟩
    | drain =>
      obtain ⟨-, ⟨_, -, he⟩, -⟩ := h
      exact ⟨he.operation, he.localRequest⟩
  rw [he.1] at ho
  rw [he.2] at hr
  cases mutation with
  | add entry =>
    cases other with
    | add => exact congrArg LoftMutation.add (hj.entry hr)
    | drain => cases ho
  | drain authorization =>
    cases other with
    | add => cases ho
    | drain =>
      exact congrArg LoftMutation.drain (hj.authorization hr)

/-- The reservation of a mutation, still to be finalized. -/
structure Outstanding (ctx : DirectoryContext F) (mutation : LoftMutation F)
    (db : Directory H F) (row : ReservationRow H) : Prop where
  found : db.reservations.lookup mutation.endpoint = some row
  reserves : Reserves ctx db row mutation

theorem lookup_reservation_of_change {endpoint : Bytes}
    (hids : (db.reservations.rows.map ReservationRow.reservationId).Nodup)
    (hrow : db.reservations.lookup endpoint = some row) (h : Change ctx op db db')
    (hother : ∀ other checkpoint, op = .finalize other checkpoint →
      row.operation = other.operation → row.localRequest ≠ other.request ctx.json) :
    db'.reservations.lookup endpoint = some row := by
  cases h with
  | sweep hs => rw [hs.reservations, hrow]
  | reserve _ _ _ _ hn _ _ _ hdb =>
    subst hdb
    refine (lookup_put_of_ne ?_).trans hrow
    rintro rfl
    exact absurd (hn.symm.trans hrow) (by simp)
  | consume other checkpoint consumed hop hl ho hreq hdb =>
    subst hdb
    have hne : row.reservationId ≠ consumed.reservationId := by
      intro hid
      obtain rfl : row = consumed := List.inj_on_of_nodup_map hids
        (lookup_eq_some.mp hrow).1 (lookup_eq_some.mp hl).1 hid
      exact hother other checkpoint hop ho hreq
    refine lookup_delete.trans ?_
    rw [hrow]
    simp [Option.filter_some, hne]
  | submit _ _ _ _ _ _ _ _ _ _ hp =>
    rw [hp.reservations, hrow]
  | drain _ _ _ _ _ _ hdb | accept _ _ hdb | dropClaims _ _ hdb => rwa [hdb]
  | win _ _ _ _ _ _ _ _ _ _ _ hr => rw [hr, hrow]
  | record _ _ _ _ _ _ _ _ _ _ _ _ _ _ _ _ _ hr =>
    rw [hr, hrow]

theorem Outstanding.of_changes (hj : ctx.json.Faithful)
    (hu : ctx.prim.parseUrl [] = none) (hk : Keeps ctx db)
    (hop : ∀ checkpoint, op ≠ .finalize mutation checkpoint) (h : Outstanding ctx mutation db row)
    (hcha : Changes ctx op db db') : Outstanding ctx mutation db' row := by
  induction hcha with
  | refl => exact h
  | tail he hc ih =>
    have hk' := hk.of_changes hu he
    have hr := reserved_of_mem (lookup_eq_some.mp ih.found).1
    rw [ih.reserves.endpoint] at hr
    refine ⟨lookup_reservation_of_change hk'.ids ih.found hc ?_,
      ih.reserves.of_frozen (frozen_of_change hc hr)⟩
    intro other checkpoint hf ho hreq
    exact hop checkpoint (ih.reserves.eq_mutation hj ho hreq ▸ hf)

def Finalizes (ctx : DirectoryContext F) (mutation : LoftMutation F) :
    Directory H F → List (DirectoryOp H F) → Prop
  | _, [] => False
  | db, op :: ops =>
    ((∃ checkpoint, op = .finalize mutation checkpoint) ∧ ∃ db', execute ctx db op = .ok db') ∨
      Finalizes ctx mutation (directoryStep ctx db op).1 ops

theorem Outstanding.of_run (hj : ctx.json.Faithful) (hu : ctx.prim.parseUrl [] = none)
    (ops : List (DirectoryOp H F)) : ∀ db : Directory H F, Keeps ctx db →
      Outstanding ctx mutation db row → ¬Finalizes ctx mutation db ops →
      Outstanding ctx mutation (run ctx db ops).1 row := by
  induction ops with
  | nil => exact fun _ _ h _ => h
  | cons op _ ih =>
    intro db hk h hn
    rw [Finalizes, not_or] at hn
    rw [run, Machine.run_fst, List.foldl_cons, ← Machine.run_fst]
    refine ih _ (hk.of_step hu) ?_ hn.2
    unfold directoryStep
    cases he : execute ctx db op with
    | error => exact h
    | ok db' =>
      refine h.of_changes hj hu hk ?_ (changes_of_execute hk.states he)
      rintro checkpoint rfl
      exact hn.1 ⟨⟨checkpoint, rfl⟩, db', he⟩

theorem reserved_row_of_execute {now : ℕ} (h : execute ctx db (.reserve mutation now) = .ok db') :
    ∃ row, db'.reservations.lookup mutation.endpoint = some row ∧
      row.operation = mutation.operation ∧ row.localRequest = mutation.request ctx.json := by
  cases mutation
  case' add =>
    obtain ⟨⟨_, reply⟩, hr, rfl⟩ := map_eq_ok.mp h
    simp only [reserveAdd, ok_iff] at hr
    obtain ⟨_, -, _, -, request, hreq, _, -, _, -, _, -, swept, -, hr⟩ := hr
  case' drain =>
    obtain ⟨⟨_, reply⟩, hr, rfl⟩ := map_eq_ok.mp h
    simp only [reserveDrain, ok_iff] at hr
    obtain ⟨request, hreq, _, -, _, -, _, -, _, -, hr⟩ := hr
  all_goals
    obtain ⟨-, ⟨⟩⟩ := guard_eq_ok.mp hreq
    split at hr
    · rename_i row hl
      simp only [ok_iff, Prod.mk.injEq] at hr
      obtain ⟨_, he, _, -, rfl, -⟩ := hr
      obtain ⟨-, -, ho, -, -, -, hlocal⟩ := ensureExactReservation_eq_ok.mp he
      exact ⟨row, hl, ho, hlocal⟩
    · simp only [ok_iff, Prod.mk.injEq] at hr
      obtain ⟨_, -, _, -, _, hins, _, -, rfl, -⟩ := hr
      obtain ⟨-, -, rfl⟩ := insertReservation_eq_ok hins
      exact ⟨_, lookup_put_self, rfl, rfl⟩

theorem exists_outstanding {now : ℕ} (hj : ctx.json.Faithful) (hu : ctx.prim.parseUrl [] = none)
    (hk : Keeps ctx db) (h : execute ctx db (.reserve mutation now) = .ok db') :
    Keeps ctx db' ∧ ∃ row, Outstanding ctx mutation db' row := by
  have hk' := hk.of_changes hu (changes_of_execute hk.states h)
  obtain ⟨row, hl, ho, hreq⟩ := reserved_row_of_execute h
  obtain ⟨reserved, hr⟩ := hk'.honoured row (lookup_eq_some.mp hl).1
  obtain rfl := hr.eq_mutation hj ho hreq
  exact ⟨hk', row, hl, hr⟩

/-- **A reservation is a promise.** In every run the pending load stays within its bound,
and a reserved mutation that was not finalized yet is finalized by any checkpoint that is
not older than the persisted one, whatever ran since. Once it was finalized and its endpoint
is free, the repeat takes the checkpoint as long as the mutation is still applied. -/
theorem finalize_of_reserve (ctx : DirectoryContext F) (hjson : ctx.json.Faithful)
    (hurl : ctx.prim.parseUrl [] = none) :
    (∀ ops, (run ctx (empty : Directory H F) ops).1.pendingLoad ≤ maxPendingEntries) ∧
      ∀ (before between : List (DirectoryOp H F)) (mutation : LoftMutation F) (now : ℕ)
        (reserved : Directory H F) (checkpoint : PersistedRegistryCheckpoint H),
        execute ctx (run ctx empty before).1 (.reserve mutation now) = .ok reserved →
        NotOlder (run ctx reserved between).1.registryCheckpoint checkpoint →
        (¬Finalizes ctx mutation reserved between →
          ∃ finalized, execute ctx (run ctx reserved between).1 (.finalize mutation checkpoint) =
            .ok finalized) ∧
        ((run ctx reserved between).1.reservations.lookup mutation.endpoint = none →
          Applied ctx reserved (run ctx reserved between).1 mutation →
          execute ctx (run ctx reserved between).1 (.finalize mutation checkpoint) =
            .ok { (run ctx reserved between).1 with registryCheckpoint := some checkpoint }) := by
  have hr : ∀ ops, Keeps ctx (run ctx (empty : Directory H F) ops).1 :=
    (keeps_empty ctx).of_run hurl
  refine ⟨fun ops => (hr ops).load, ?_⟩
  intro before between mutation now reserved checkpoint hres hc
  obtain ⟨hk, row, ho⟩ := exists_outstanding hjson hurl (hr before) hres
  have hk' := hk.of_run hurl between
  refine ⟨fun hn => ?_, fun hfree ha => finalize_of_applied hk' ho.reserves ha hfree hc⟩
  have hs := ho.of_run hjson hurl between reserved hk hn
  exact exists_finalize hurl hk' hs.found hs.reserves hc

section Sample

open SampleDirectory

theorem NotOlder.of_persisted {previous : Option (PersistedRegistryCheckpoint H)}
    (hv : validatePersistedCheckpoint checkpoint = .ok ())
    (hs : ∀ old ∈ previous, old = checkpoint) : NotOlder previous checkpoint where
  wellFormed := hv
  sameLog old hold := by rw [hs old hold]
  notBehind old hold := by
    rw [hs old hold]
    exact .inr ⟨rfl, rfl, le_rfl⟩

/-- A reservation survives a sweep and a refused request for the same endpoint, and once
finalized it is finalized again. -/
theorem finalize_of_reserve_after_refusal :
    let reserved := (directoryStep sampleCtx (empty : Directory ByteHash ℕ)
      (.reserve (.add (loftEntry 0x31 1)) 10)).1
    let after := (run sampleCtx reserved [.finalize (.add (loftEntry 0x31 1)) firstCheckpoint,
      .expire 20]).1
    (∃ finalized, execute sampleCtx
      (run sampleCtx reserved [.expire 20, .reserve (.add (loftEntry 0x32 1)) 30]).1
      (.finalize (.add (loftEntry 0x31 1)) firstCheckpoint) = .ok finalized) ∧
    execute sampleCtx after (.finalize (.add (loftEntry 0x31 1)) firstCheckpoint) =
      .ok { after with registryCheckpoint := some firstCheckpoint } := by
  have hj : sampleCtx.json.Faithful :=
    ⟨fun _ _ h => entryFields_injective (packFields_injective h),
      fun _ _ h => authorizationFields_injective (packFields_injective h)⟩
  constructor
  · refine ((finalize_of_reserve sampleCtx hj rfl).2 [] _ _ 10 _ firstCheckpoint ?_ ?_).1 ?_
    · decide +kernel
    · exact .of_persisted (by decide +kernel) (by decide +kernel)
    · simp [Finalizes]
  · refine ((finalize_of_reserve sampleCtx hj rfl).2 [] _ _ 10 _ firstCheckpoint ?_ ?_).2 ?_ ?_
    · decide +kernel
    · exact .of_persisted (by decide +kernel) (by decide +kernel)
    · decide +kernel
    · change addIsExactlyApplied _ _ _ = _
      decide +kernel

/-- Finalized and superseded, a mutation is not finalized again. -/
theorem finalize_replay_of_superseded :
    let reserved := directoryStep sampleCtx (empty : Directory ByteHash ℕ)
      (.reserve (.add (loftEntry 0x31 1)) 10)
    let between : List (DirectoryOp ByteHash ℕ) :=
      [.finalize (.add (loftEntry 0x31 1)) firstCheckpoint, .reserve (.add (loftEntry 0x31 2)) 20,
        .finalize (.add (loftEntry 0x31 2)) firstCheckpoint]
    execute sampleCtx empty (.reserve (.add (loftEntry 0x31 1)) 10) = .ok reserved.1 ∧
      NotOlder (run sampleCtx reserved.1 between).1.registryCheckpoint firstCheckpoint ∧
      execute sampleCtx (run sampleCtx reserved.1 between).1
        (.finalize (.add (loftEntry 0x31 1)) firstCheckpoint) = .error .replay := by
  refine ⟨by decide +kernel, ?_, by decide +kernel⟩
  exact .of_persisted (by decide +kernel) (by decide +kernel)

end Sample

end Directory

end Pigeonpost
