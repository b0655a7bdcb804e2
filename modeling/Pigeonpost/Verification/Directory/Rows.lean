import Pigeonpost.Verification.Directory.Chains

/-! # What a change does to one row -/

namespace Pigeonpost.Directory

open KeyedTable

variable {H F : Type} [F64 F] {ctx : DirectoryContext F}
  {op : DirectoryOp H F} {db db' : Directory H F} {endpoint : Bytes} {row' : LoftRow F}

/-! ## Where a row comes from -/

/-- The loft rows an operation can leave at an endpoint. -/
inductive RowStep (ctx : DirectoryContext F) (op : DirectoryOp H F) (db : Directory H F)
    (endpoint : Bytes) : LoftRow F → Prop
  | swept (old row : LoftRow F) : db.lofts.lookup endpoint = some old → SweptRow db old row →
    RowStep ctx op db endpoint row
  | opened (entry : DirectoryEntry F) (now : ℕ) : db.lofts.lookup endpoint = none →
    entry.endpoint = endpoint → Accepts ctx.prim entry →
    RowStep ctx op db endpoint (openedRow entry entry.sequence.toNat now)
  | revised (old : LoftRow F) (entry : DirectoryEntry F)
    (checkpoint : PersistedRegistryCheckpoint H) : db.lofts.lookup endpoint = some old →
    op = .finalize (.add entry) checkpoint → SameKey ctx.prim old.entry entry →
    RowStep ctx op db endpoint (revisedRow entry entry.sequence.toNat old)
  | reenrolled (old : LoftRow F) (entry : DirectoryEntry F) (now : ℕ)
    (checkpoint : PersistedRegistryCheckpoint H) : db.lofts.lookup endpoint = some old →
    op = .finalize (.add entry) checkpoint → SameKey ctx.prim old.entry entry →
    old.entry.state = .removed →
    RowStep ctx op db endpoint (reenrolledRow entry entry.sequence.toNat now old)
  | drained (old : LoftRow F) (authorization : DrainAuthorization) :
    db.lofts.lookup endpoint = some old → old.ownershipProven = true →
    old.entry.state ≠ .pending → old.entry.state ≠ .removed →
    RowStep ctx op db endpoint (drainedRow authorization authorization.sequence.toNat
      authorization.after.toNat old)
  | won (old : LoftRow F) (candidate : DirectoryEntry F) (now : ℕ) :
    db.lofts.lookup endpoint = some old → old.ownershipProven = false →
    RowStep ctx op db endpoint (winningRow old candidate now)
  | probed (old : LoftRow F) (result : ProbeResult F) (now : ℕ)
    (retentionUpdate : Option RetentionUpdate) (expectedPubkey : Bytes)
    (expectedSequence : UInt64) (failStreak probesOk probesTotal : ℕ) :
    db.lofts.lookup endpoint = some old →
    op = .recordClaimProbe result now retentionUpdate expectedPubkey expectedSequence →
    result.endpoint = endpoint → old.entry.pubkey = expectedPubkey →
    old.entry.sequence = expectedSequence →
    RowStep ctx op db endpoint (probedRow (storedResult result now) failStreak probesOk
      probesTotal now
      (db.nextState old (storedResult result now).healthy failStreak now) old)

theorem rowStep_same (hl : db'.lofts = db.lofts)
    (hr : db'.lofts.lookup endpoint = some row') : RowStep ctx op db endpoint row' :=
  .swept row' row' (hl ▸ hr) .kept

/-- A written row is found under its own endpoint, and the other rows stay. -/
theorem rowStep_put {row : LoftRow F} (hp : db'.lofts = db.lofts.put row)
    (hr : db'.lofts.lookup endpoint = some row')
    (hs : row.endpoint = endpoint → RowStep ctx op db endpoint row) :
    RowStep ctx op db endpoint row' := by
  rw [hp, lookup_put_eq_some] at hr
  rcases hr with ⟨hk, rfl⟩ | ⟨-, hr⟩
  · exact hs hk
  · exact rowStep_same rfl hr

theorem rowStep_of_submit {entry : DirectoryEntry F}
    {checkpoint : PersistedRegistryCheckpoint H} {now : ℕ} {effect : SubmissionEffect F}
    {slot : Bool} (hop : op = .finalize (.add entry) checkpoint)
    (ha : Accepts ctx.prim entry)
    (hd : Decides ctx.prim (db.lofts.lookup entry.endpoint)
      (db.pendingClaims.lookup (entry.endpoint, entry.pubkey)) entry now effect slot)
    (hp : Performs effect db db') (hr : db'.lofts.lookup endpoint = some row') :
    RowStep ctx op db endpoint row' := by
  have hl := hp.lofts
  cases hd with
  | retry | retryClaim | reviseClaim | openClaim => exact rowStep_same hl hr
  | revise old hloft hk =>
    exact rowStep_put hl hr fun he => .revised old entry checkpoint (lookup_own hloft he) hop hk
  | reenroll old hloft hk _ hs =>
    refine rowStep_put hl hr fun he => ?_
    exact .reenrolled old entry now checkpoint (lookup_own hloft he) hop hk hs
  | first hloft =>
    refine rowStep_put hl hr fun he => ?_
    have hentry : entry.endpoint = endpoint := he
    exact .opened entry now (hentry ▸ hloft) hentry ha

/-- The rows of an endpoint are the same in both databases. -/
structure Frozen (endpoint : Bytes) (db db' : Directory H F) : Prop where
  loft : db'.lofts.lookup endpoint = db.lofts.lookup endpoint
  claim : ∀ pubkey,
    db'.pendingClaims.lookup (endpoint, pubkey) = db.pendingClaims.lookup (endpoint, pubkey)

omit [F64 F] in
theorem ne_of_reserved {other : Bytes} (h : db.reserved endpoint = true)
    (hf : db.reserved other = false) : endpoint ≠ other := by
  rintro rfl
  cases hf.symm.trans h

variable [Sha256 H] [DecidableEq H]

theorem rowStep_of_change (h : Change ctx op db db')
    (hrow : db'.lofts.lookup endpoint = some row') : RowStep ctx op db endpoint row' := by
  cases h with
  | sweep hswe =>
    obtain ⟨g, hg, hl, hswept⟩ := hswe.lofts
    rw [hl, lookup_update] at hrow
    obtain ⟨old, hold, rfl⟩ := Option.map_eq_some_iff.mp hrow
    exact .swept old (g old) hold (hswept old)
  | reserve _ _ _ _ _ _ _ _ hdb | consume _ _ _ _ _ _ _ hdb | accept _ _ hdb
  | dropClaims _ _ hdb => exact rowStep_same (by rw [hdb]) hrow
  | submit _ _ _ _ _ hop _ ha hd _ hper =>
    exact rowStep_of_submit hop ha hd hper hrow
  | drain authorization _ _ _ _ hd hdb =>
    refine rowStep_put (by rw [hdb]) hrow fun he => ?_
    cases hd with
    | drain old hloft _ _ hp hpen hrem =>
      exact .drained old authorization (lookup_own hloft he) hp hpen hrem
  | win _ now old claim _ hold hp _ _ hl =>
    refine rowStep_put hl hrow fun he => ?_
    exact .won old claim.entry now (lookup_own hold he) hp
  | record result now retentionUpdate expectedPubkey expectedSequence old failStreak probesOk
    probesTotal hop hf hold hpub hs hl =>
    refine rowStep_put hl hrow fun he => ?_
    have hr := key_of_lookup hold
    have he' : result.endpoint = endpoint := hr.symm.trans he
    exact .probed old result now retentionUpdate expectedPubkey expectedSequence failStreak
      probesOk probesTotal (he' ▸ hold) hop he' hpub hs

/-! ## The state column -/

theorem StatesAgree.of_change (h : db.StatesAgree) (hc : Change ctx op db db') :
    db'.StatesAgree := by
  intro row hr
  have hl : db'.lofts.lookup row.endpoint = some row := lookup_eq_some.mpr ⟨hr, rfl⟩
  cases rowStep_of_change hc hl with
  | swept old _ hold hs =>
    cases hs with
    | kept => exact h.of_lookup hold
    | leased =>
      have ha : old.state = old.entry.state := h.of_lookup hold
      exact ha
    | expired => rfl
  | opened => rfl
  | revised old entry _ hold =>
    have ha : old.state = old.entry.state := h.of_lookup hold
    exact ha
  | reenrolled | drained | won | probed => rfl

/-! ## Reserved endpoints -/

/-- Only the endpoint a change is about can change, and a reserved one is left alone. -/
theorem frozen_of_change (h : Change ctx op db db') (hr : db.reserved endpoint = true) :
    Frozen endpoint db db' := by
  cases h with
  | sweep hs =>
    refine ⟨?_, fun pubkey => hs.pendingClaims_lookup endpoint pubkey hr⟩
    obtain ⟨g, hg, hl, hswept⟩ := hs.lofts
    rw [hl, lookup_update]
    cases hold : db.lofts.lookup endpoint with
    | none => rfl
    | some old =>
      have hk : old.endpoint = endpoint := key_of_lookup hold
      have hrow := hswept old
      generalize hn : g old = new at hrow
      rw [Option.map_some, hn]
      cases hrow with
      | kept => rfl
      | leased t hf | expired _ hf => exact absurd hk.symm (ne_of_reserved hr hf)
  | reserve _ _ _ _ _ _ _ _ hdb | consume _ _ _ _ _ _ _ hdb | accept _ _ hdb =>
    exact hdb ▸ ⟨rfl, fun _ => rfl⟩
  | submit entry _ _ _ _ _ hf _ hd _ hp =>
    have hne := ne_of_reserved hr hf
    have hl := hp.lofts
    have hc := hp.pendingClaims
    cases hd with
    | retry | retryClaim => exact ⟨by rw [hl], fun pubkey => by rw [hc]⟩
    | reviseClaim _ _ _ _ _ hclaim =>
      refine ⟨by rw [hl], fun pubkey => ?_⟩
      rw [hc]
      exact lookup_put_of_lookup hclaim rfl fun heq => hne (congrArg Prod.fst heq)
    | openClaim =>
      refine ⟨by rw [hl], fun pubkey => ?_⟩
      rw [hc]
      exact lookup_put_of_ne fun heq => hne (congrArg Prod.fst heq)
    | revise _ hloft | reenroll _ hloft =>
      refine ⟨?_, fun pubkey => by rw [hc]⟩
      rw [hl]
      exact lookup_put_of_lookup hloft rfl hne
    | first =>
      refine ⟨?_, fun pubkey => by rw [hc]⟩
      rw [hl]
      exact lookup_put_of_ne hne
  | drain authorization _ _ _ hf hd hdb =>
    have hne := ne_of_reserved hr hf
    subst hdb
    refine ⟨?_, fun _ => rfl⟩
    cases hd with
    | drain _ hloft => exact lookup_put_of_lookup hloft rfl hne
  | dropClaims _ hf hdb =>
    have hne := ne_of_reserved hr hf
    subst hdb
    exact ⟨rfl, fun pubkey => lookup_delete_claims fun row he => by simp [he, hne]⟩
  | win _ _ _ _ hf hold _ _ _ hl hc =>
    have hne := ne_of_reserved hr hf
    refine ⟨?_, fun pubkey => ?_⟩
    · rw [hl]
      exact lookup_put_of_lookup hold rfl hne
    · rw [hc]
      exact lookup_delete_claims fun row he => by simp [he, hne]
  | record _ _ _ _ _ _ _ _ _ _ hf hold _ _ hl _ hc =>
    have hne := ne_of_reserved hr hf
    refine ⟨?_, fun pubkey => hc endpoint pubkey hne⟩
    rw [hl]
    exact lookup_put_of_lookup hold rfl hne

end Pigeonpost.Directory
