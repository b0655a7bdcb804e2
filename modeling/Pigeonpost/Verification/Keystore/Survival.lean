import Pigeonpost.Verification.Keystore.Rotation

/-! # Keys survive crashes

Wherever an operation stops, the keys in custody are those it found, or those it was
asked for. The exceptions are the moments in which the directory of the retired keys holds
a temporary file or metadata without its key: a process that stops there leaves a home
that no later load accepts. -/

namespace Pigeonpost.Keystore

open Script Function Files

open Script (wp)

variable {stems : List Bytes32} {request : RotationRequest} {start : Custody} {path : Path}
  {seed : Bytes32} {before after : Files}

section Operations

variable {H : Type} [Sha256 H] [HashBytes H] {env : Env} {through : Machine → Prop}
variable {files : Files} {seeds : Seeds} {fail : KeystoreError → Machine → Prop} {m : Machine}

/-! ## Recovery -/

variable {post : Unit → Machine → Prop} {outgoing incoming next : Bytes32}

theorem wp_discardStaged (hc : m.Unclaimed) (ht : through m)
    (hp : ∀ m', m'.Unclaimed → m'.file = update m.file .stagedSuccessor none → post () m') :
    wp discardStaged through post fail m := by
  unfold discardStaged
  rw [wp_bind, wp_pathIsPresent]
  by_cases hs : m.file .stagedSuccessor = none
  · rw [hs, if_neg (by simp), wp_pure]
    refine hp m hc ?_
    rw [← hs, update_eq_self]
  · rw [if_pos (Option.isSome_iff_ne_none.mpr hs), wp_bind, wp_validateKeyFile hs,
      wp_removePrivateFile hs]
    exact ⟨ht, hp _ (hc.remove trivial) (Machine.file_remove m _)⟩

theorem wp_recoverPending (hc : m.Unclaimed) (h : Kept H env m.file)
    (hs : ∀ m', Files.Stray m'.file → through m')
    (ho : ∀ m', Files.Orphaned m'.file → through m')
    (ht : ∀ m', Kept H env m'.file → custody env m'.file = custody env m.file → through m')
    (hpost : ∀ m', m'.Unclaimed → Resting H env (custody env m.file) m'.file →
      m'.file .stagedSuccessor = none → post () m') :
    wp (recoverPendingLocked H env) through post fail m := by
  unfold recoverPendingLocked
  simp only [wp_bind, wp_pathIsPresent]
  rcases h with hidle | ⟨journal, hp⟩
  · rw [hidle.unwritten, if_pos (by simp)]
    refine wp_discardStaged hc (ht m (.inl hidle) rfl) fun m' hm' hf => ?_
    refine hpost m' hm' ?_ (by simp [hf])
    rw [hf]
    exact Resting.beside ⟨hidle, rfl⟩ trivial
  · rw [hp.written, if_neg (by simp), wp_bind, wp_readJournal hp.written,
      hp.sound.valid, wp_bind, wp_core_ok]
    exact wp_completeRotation hc hp hs ho (fun m' hm' => ht m' (.inr ⟨journal, hm'⟩)) hpost

/-! ## Rotation -/

/-- The journal turns a prepared home into a pending rotation. -/
theorem Idle.write {journal : RotationJournal} (h : Idle H env files) (hsound : Sound H env journal)
    (ho : files .operating = some (.secret outgoing))
    (hinc : files .successor = some (.secret incoming))
    (hs : files .stagedSuccessor = some (.secret next))
    (hf : journal.record.fromPubkey = env.publicKey outgoing)
    (hto : journal.record.toPubkey = env.publicKey incoming)
    (hn : journal.record.nextSuccessorHash = commitment H (env.publicKey next))
    (hu : ∀ stem other, files (.retiredMetadata stem) = some (.journal other) →
      journal.record.activatedAt < other.record.graceUntil)
    (hl : stems.length < maxLiveRetiredIdentities)
    (hstems : ∀ stem, files (.retiredMetadata stem) ≠ none → stem ∈ stems) :
    Pending H env (update files .rotationJournal (some (.journal journal))) journal := by
  have hcom := (h.complete (by simp [ho])).2
  obtain ⟨token, ht⟩ := h.token.exists_seed hcom
  refine
    { written := by simp
      sound := hsound
      legacy := by simpa using h.legacy
      default := by simpa using h.default
      token := ⟨token, by simpa using ht⟩
      operating := ⟨outgoing, by simpa using ho, .inl hf.symm,
        .inr ⟨incoming, by simpa using hinc, hto.symm⟩⟩
      successor := ⟨incoming, by simpa using hinc,
        .inr ⟨next, by simpa using hs, hn.symm⟩⟩
      retired := ?_
      unexpired := by simpa using hu }
  have hupd : RetiredOk H env (update files .rotationJournal (some (.journal journal))) none :=
    h.retired.update rfl
  obtain ⟨tidy, paired, key, metadata, -⟩ := hupd
  refine ⟨tidy, paired, fun stem content hc => ?_, metadata,
    journal.record.fromPubkey :: stems, hl, fun stem hstem => ?_, by simp⟩
  · obtain ⟨hseed, hm⟩ := key stem content hc
    exact ⟨hseed, .inl (hm.resolve_right (by simp))⟩
  · obtain ⟨content, hc⟩ := Option.ne_none_iff_exists'.mp hstem
    have hm := (key stem content hc).2.resolve_right (by simp)
    exact List.mem_cons_of_mem _ (hstems stem (by simpa using hm))

theorem newRotationRecord_eq_ok {seq activatedAt : UInt64} {record : RotationRecord}
    (h : newRotationRecord env outgoing incoming next seq activatedAt = .ok record) :
    record.fromPubkey = env.publicKey outgoing ∧ record.toPubkey = env.publicKey incoming ∧
      record.nextSuccessorHash = next ∧ record.activatedAt = activatedAt := by
  simp only [newRotationRecord, ok_iff] at h
  obtain ⟨-, -, rfl⟩ := h
  exact ⟨rfl, rfl, rfl, rfl⟩

theorem wp_stageRotation {post : RotationJournal → Machine → Prop} (hc : m.Unclaimed)
    (h : Resting H env start m.file) (huns : m.file .stagedSuccessor = none)
    (hu : ∀ stem journal, m.file (.retiredMetadata stem) = some (.journal journal) →
      request.activatedAt < journal.record.graceUntil)
    (hl : stems.length < maxLiveRetiredIdentities)
    (hs : ∀ stem, m.file (.retiredMetadata stem) ≠ none → stem ∈ stems)
    (ht : ∀ m', Resting H env start m'.file → through m')
    (hfail : ∀ m' e, m'.Unclaimed → Resting H env start m'.file → fail e m')
    (hpost : ∀ m' journal, m'.Unclaimed → Pending H env m'.file journal →
      journal.record.activatedAt = request.activatedAt →
      start.current = some journal.record.fromPubkey →
      custody env m'.file = start.rotate journal → post journal m') :
    wp (stageRotation H env request) through post fail m := by
  have hr : ∀ e, fail e m := fun e => hfail m e hc h
  unfold stageRotation
  rw [wp_bind]
  refine wp_readSecret_of_fail (fun outgoing ho => ?_) hr
  rw [wp_bind]
  refine wp_readSecret_of_fail (fun incoming hinc => ?_) hr
  rw [wp_bind]
  refine wp_core _ (fun _ _ => ?_) hr
  refine wp_guard (fun _ => hr _) fun _ => ?_
  rw [wp_bind]
  refine wp_createSecretOnce hc trivial (fun m' content hf => ht m' ?_)
    (fun hpre => absurd huns hpre) fun _ staged hc hf => ?_
  · rw [hf]
    exact h.beside rfl
  have hrest : Resting H env start staged.file := by
    rw [hf]
    exact h.beside trivial
  have hr : ∀ e, fail e staged := fun e => hfail staged e hc hrest
  have hn : staged.file .stagedSuccessor = some (.secret request.nextSeed) := by
    rw [hf, update_self]
  rw [wp_bind, wp_readSecret hn]
  refine wp_guard (fun _ => hr _) fun _ => ?_
  rw [wp_bind]
  refine wp_core _ (fun record hrec => ?_) hr
  obtain ⟨hfrom, hto, hcom, ha⟩ := newRotationRecord_eq_ok hrec
  rw [wp_bind]
  refine wp_core _ (fun _ hv => ?_) hr
  generalize hj : RotationJournal.mk record _ _ _ = journal at hv ⊢
  obtain rfl : journal.record = record := by rw [← hj]
  rw [wp_bind]
  refine wp_guard (fun _ => hr _) fun hbou => ?_
  refine wp_replaceFile hc trivial (fun m' content hf' => ht m' ?_) fun m' hm' hf' => ?_
  · rw [hf']
    exact hrest.beside rfl
  have hp : Pending H env m'.file journal := by
    rw [hf']
    exact hrest.idle.write ⟨hv, Nat.not_lt.mp hbou⟩ (by simpa [hf] using ho)
      (by simpa [hf] using hinc) hn hfrom hto hcom
      (by simpa [hf, ha] using hu) hl (by simpa [hf] using hs)
  have hcus := h.custody_eq
  simp only [custody, h.idle.unwritten] at hcus
  subst hcus
  refine (wp_pure _).mpr (hpost m' _ hm' hp ha ?_ ?_)
  · simp [operatingKey, ho, hfrom]
  · have hm : metadata m'.file = metadata m.file := by
      funext stem
      simp [metadata, hf', hf]
    rw [hp.custody_eq, hm]
    rfl

theorem wp_prepareRotation {post : RotationJournal → Machine → Prop} (hc : m.Unclaimed)
    (h : Resting H env start m.file)
    (ho : ∀ m', Files.Orphaned m'.file → through m')
    (ht : ∀ m' kept, Custody.Expires request.activatedAt start kept →
      Resting H env kept m'.file → through m')
    (hfail : ∀ m' kept e, m'.Unclaimed → Custody.Expires request.activatedAt start kept →
      Resting H env kept m'.file → fail e m')
    (hpost : ∀ m' journal kept, m'.Unclaimed → Pending H env m'.file journal →
      Custody.Expires request.activatedAt start kept →
      journal.record.activatedAt = request.activatedAt →
      kept.current = some journal.record.fromPubkey →
      custody env m'.file = kept.rotate journal → post journal m') :
    wp (prepareRotationLocked H env request) through post fail m := by
  unfold prepareRotationLocked
  simp only [wp_bind, wp_pathIsPresent, h.idle.unwritten, Option.isSome_none,
    Bool.false_eq_true, if_false]
  refine wp_retiredIdentitiesAndLiveCount _ _ hc h.idle.retired ho
    (fun m' hcle => ht m' _ (hcle.expires h) ⟨hcle.idle h.idle, rfl⟩)
    fun scanned result hc _ hs => ?_
  have he := hs.cleaned.expires h
  have hrest : Resting H env _ scanned.file := ⟨hs.cleaned.idle h.idle, rfl⟩
  obtain ⟨stems, hl, hstems⟩ := hs.counted
  by_cases hlive : result.2 ≥ maxLiveRetiredIdentities
  · simp only [hlive, if_true, wp_bind, wp_throw]
    exact hfail scanned _ _ hc he hrest
  simp only [hlive, if_false, wp_bind]
  refine wp_discardStaged hc (ht scanned _ he hrest) fun ready hc hf => ?_
  refine wp_stageRotation hc (hf ▸ hrest.beside trivial) (by simp [hf])
    (by simpa [hf] using hs.unexpired) (hl ▸ Nat.not_le.mp hlive)
    (by simpa [hf] using hstems) (fun m' => ht m' _ he)
    (fun m' e hm' => hfail m' _ e hm' he) fun m' journal hm' hp => hpost m' journal _ hm' hp he

/-! ## Whole operations -/

section Outcomes

variable (H env)

/-- Nothing is lost, and the custody is one that is allowed. -/
structure Fine (allowed : Custody → Prop) (m : Machine) : Prop where
  kept : Kept H env m.file
  allowed : allowed (Files.custody env m.file)

/-- Where an operation may be stopped. -/
def Passable (allowed : Custody → Prop) (m : Machine) : Prop :=
  Files.Stray m.file ∨ Files.Orphaned m.file ∨ Fine H env allowed m

/-- Where an operation may end. -/
structure Done (allowed : Custody → Prop) (m : Machine) : Prop where
  unclaimed : m.Unclaimed
  fine : Fine H env allowed m

/-- Wherever the program stops, the keys are as they may be. -/
def Survives {α : Type} (x : Program α) (allowed : Custody → Prop) (m : Machine) : Prop :=
  wp x (Passable H env allowed) (fun _ => Done H env allowed) (fun _ => Done H env allowed) m

end Outcomes

theorem Rotates.refl (now : UInt64) (custody : Custody) : Rotates now custody custody :=
  ⟨custody, .refl now custody, .inl rfl⟩

theorem survives_rotateLocked (hc : m.Unclaimed) (h : Resting H env start m.file) :
    Survives H env (rotateLocked H env request) (Rotates request.activatedAt start) m := by
  unfold rotateLocked
  refine (wp_bind _ _).mpr ?_
  refine wp_prepareRotation hc h (fun m' ho => .inr (.inl ho))
    (fun m' kept he hrest => .inr (.inr ⟨.inl hrest.idle, kept, he, .inl hrest.custody_eq⟩))
    (fun m' kept e hm' he hrest => ⟨hm', .inl hrest.idle, kept, he, .inl hrest.custody_eq⟩)
    fun prepared journal kept hc hp he hact hcur hr => ?_
  have ha : Rotates request.activatedAt start (custody env prepared.file) :=
    ⟨kept, he, .inr ⟨journal, hact, hcur, hr⟩⟩
  rw [wp_bind]
  refine wp_completeRotation hc hp (fun m' hstray => .inl hstray)
    (fun m' ho => .inr (.inl ho))
    (fun m' hm' heq => .inr (.inr ⟨.inr ⟨journal, hm'⟩, heq ▸ ha⟩))
    fun m' hm' hrest _ => ?_
  have hd : Done H env (Rotates request.activatedAt start) m' :=
    ⟨hm', .inl hrest.idle, hrest.custody_eq ▸ ha⟩
  rw [wp_bind]
  refine wp_readSecret_of_fail (fun identity _ => ?_) fun _ => hd
  rw [wp_bind]
  exact wp_readSecret_of_fail (fun successor _ => (wp_pure _).mpr hd) fun _ => hd

variable {now : UInt64} {allowed : Custody → Prop}

theorem survives_retiredIdentitiesLocked (hcla : m.Unclaimed) (h : Resting H env start m.file) :
    Survives H env (retiredIdentitiesLocked H env now) (Custody.Expires now start) m := by
  unfold retiredIdentitiesLocked
  refine (wp_bind _ _).mpr ?_
  have ha : ∀ m' : Machine, Cleaned now m.file m'.file →
      Fine H env (Custody.Expires now start) m' := fun m' hc =>
    ⟨.inl (hc.idle h.idle), hc.expires h⟩
  exact wp_retiredIdentitiesAndLiveCount _ _ hcla h.idle.retired (fun m' ho => .inr (.inl ho))
    (fun m' hc => .inr (.inr (ha m' hc)))
    fun m' result hm' _ hs => (wp_pure _).mpr ⟨hm', ha m' hs.cleaned⟩

/-- Recovery comes first, and changes nothing that counts. -/
theorem wp_recover (hc : m.Unclaimed) (h : Kept H env m.file) (ha : allowed (custody env m.file))
    (hp : ∀ m', m'.Unclaimed → Resting H env (custody env m.file) m'.file → post () m') :
    wp (recoverPendingLocked H env) (Passable H env allowed) post fail m :=
  wp_recoverPending hc h (fun _ hs => .inl hs) (fun _ ho => .inr (.inl ho))
    (fun _ hk heq => .inr (.inr ⟨hk, heq ▸ ha⟩)) fun m' hm' hrest _ => hp m' hm' hrest

/-! ## Loading -/

theorem Files.Secret.write {other : Path} (h : files.Secret other) :
    Files.Secret (Function.update files path (some (.secret seed))) other := by
  by_cases heq : other = path
  · subst heq
    intro content hc
    rw [update_self] at hc
    exact ⟨seed, (Option.some.inj hc).symm⟩
  · exact h.update heq

/-- A key of a first run, before or as the operating one. -/
theorem Idle.create (h : Idle H env files)
    (hp : path = .successor ∨ path = .tokenSecret ∨ path = .operating)
    (hc : path = .operating → files .successor ≠ none ∧ files .tokenSecret ≠ none) :
    Idle H env (update files path (some (.secret seed))) where
  unwritten := by rcases hp with rfl | rfl | rfl <;> exact h.unwritten
  legacy := by rcases hp with rfl | rfl | rfl <;> exact h.legacy
  default := by rcases hp with rfl | rfl | rfl <;> exact h.default
  operating := h.operating.write
  successor := h.successor.write
  token := h.token.write
  complete ho := by
    rcases hp with rfl | rfl | rfl
    · exact ⟨by simp, by simpa using (h.complete (by simpa using ho)).2⟩
    · exact ⟨by simpa using (h.complete (by simpa using ho)).1, by simp⟩
    · simpa using hc rfl
  retired := h.retired.update (by rcases hp with rfl | rfl | rfl <;> rfl)

/-- What loading came to: the keys that were there, or new ones where there were none. -/
structure Opened (H : Type) [Sha256 H] [HashBytes H] (env : Env) (before after : Files)
    (identity : Bytes32) (created : Bool) : Prop where
  idle : Idle H env after
  found : before .operating ≠ none → created = false ∧ after = before
  made : before .operating = none → created = true ∧
    after.custody env = { before.custody env with current := some (env.publicKey identity) }
  operating : after .operating = some (.secret identity)

theorem wp_validateCustomRecoveryLayout (h : Idle H env m.file) (hs : m.file .successor ≠ none)
    (hp : post () m) : wp (validateCustomRecoveryLayout env) through post fail m := by
  have hsome := Option.isSome_iff_ne_none.mpr hs
  unfold validateCustomRecoveryLayout
  rw [wp_ite]
  refine ⟨fun _ => ?_, fun _ => (wp_pure _).mpr hp⟩
  simp [h.default, h.legacy, hsome, hp]

theorem wp_migrateLegacySuccessor (hs : m.file .successor ≠ none) (hp : post () m) :
    wp migrateLegacySuccessor through post fail m := by
  have hsome := Option.isSome_iff_ne_none.mpr hs
  simp [migrateLegacySuccessor, hsome, hp]

section

variable (hc : m.Unclaimed) (h : Resting H env start m.file)
  (ht : ∀ m', Resting H env start m'.file → through m')
  {post : Bytes32 × Bytes32 × Bytes32 × Bool → Machine → Prop}

include hc h ht

/-- A prerequisite of the operating key, from this run or from an earlier one. -/
theorem wp_createPrerequisite {post : Bool → Machine → Prop}
    (hpath : path = .successor ∨ path = .tokenSecret)
    (hpost : ∀ m' created, m'.Unclaimed → Resting H env start m'.file → m'.file path ≠ none →
    (∀ other, other ≠ path → m'.file other = m.file other) → post created m') :
    wp (createSecretOnce path seed) through post fail m := by
  have hplain : path.Plain := by rcases hpath with rfl | rfl <;> trivial
  have hb : Path.Beside (.temporary path m.pid m.tempSequence) := by
    rcases hpath with rfl | rfl <;> rfl
  refine wp_createSecretOnce hc hplain (fun m' content hf => ht m' ?_)
    (fun hp m' hm' hf => ?_) fun _ m' hm' hf => ?_
  · rw [hf]
    exact h.beside hb
  · exact hpost m' false hm' (hf ▸ h) (hf ▸ hp) fun other _ => by rw [hf]
  · refine hpost m' true hm' ⟨?_, ?_⟩ (by simp [hf]) fun other hne => ?_
    · rw [hf]
      exact h.idle.create (hpath.imp_right .inl) (by rcases hpath with rfl | rfl <;> simp)
    · rw [hf, custody_update, h.custody_eq]
      all_goals rcases hpath with rfl | rfl <;> simp
    · rw [hf, update_of_ne hne]

theorem wp_createKeys (ha : m.file .operating = none)
    (hpost : ∀ m' result, m'.Unclaimed → Opened H env m.file m'.file result.1 result.2.2.2 →
      post result m') :
    wp (createKeys H env seeds) through post fail m := by
  unfold createKeys
  rw [wp_bind]
  refine wp_createPrerequisite hc h ht (.inl rfl) fun first _ hc hfirst hs ho => ?_
  have hn : first.file .operating = none := (ho _ (by simp)).trans ha
  rw [wp_bind]
  refine wp_createPrerequisite hc hfirst ht (.inr rfl) fun second _ hc hsecond htoken ho => ?_
  have hn : second.file .operating = none := (ho _ (by simp)).trans hn
  have hs : second.file .successor ≠ none := ho .successor (by simp) ▸ hs
  rw [wp_bind]
  refine wp_createSecretOnce hc trivial (fun m' content hf => ht m' ?_)
    (fun hp => absurd hn hp) fun _ m' hm' hf => ?_
  · rw [hf]
    exact hsecond.beside rfl
  have hidle := hsecond.idle
  have hope : m'.file .operating = some (.secret seeds.operating) := by
    rw [hf, update_self]
  obtain ⟨successor, hsf⟩ := hidle.successor.exists_seed hs
  obtain ⟨token, htf⟩ := hidle.token.exists_seed htoken
  rw [wp_bind, wp_readSecret hope, wp_bind, wp_readSecret (by simpa [hf] using
    hsf), wp_bind, wp_readSecret (by simpa [hf] using htf), wp_pure]
  refine hpost m' _ hm' ⟨?_, fun hp => ?_, fun _ => ⟨rfl, ?_⟩, hope⟩
  · rw [hf]
    exact hidle.create (.inr (.inr rfl)) fun _ => ⟨hs, htoken⟩
  · exact absurd ha hp
  · rw [h.custody_eq, ← hsecond.custody_eq, hf]
    simp [custody, hidle.unwritten, operatingKey, metadata_update]

theorem wp_loadOrCreateLocked
    (hp : ∀ m' result, m'.Unclaimed → Opened H env m.file m'.file result.1 result.2.2.2 →
      post result m') :
    wp (loadOrCreateLocked H env seeds) through post fail m := by
  unfold loadOrCreateLocked
  simp only [wp_bind, wp_pathIsPresent]
  by_cases hn : m.file .operating = none
  · have hcre : wp (createKeys H env seeds) through post fail m := wp_createKeys hc h ht hn hp
    rw [hn, if_neg (by simp), wp_bind]
    simp only [wp_pathIsPresent, h.idle.legacy, Option.isSome_none, Bool.false_eq_true, if_false]
    rw [wp_ite]
    refine ⟨fun _ => ?_, fun _ => hcre⟩
    simpa only [wp_bind, wp_pathIsPresent, h.idle.default, Option.isSome_none,
      Bool.false_eq_true, if_false] using hcre
  · obtain ⟨identity, ho⟩ := h.idle.operating.exists_seed hn
    obtain ⟨hs, htoken⟩ := h.idle.complete hn
    obtain ⟨successor, hsf⟩ := h.idle.successor.exists_seed hs
    obtain ⟨token, htf⟩ := h.idle.token.exists_seed htoken
    rw [if_pos (Option.isSome_iff_ne_none.mpr hn), wp_bind]
    refine wp_validateCustomRecoveryLayout h.idle hs ?_
    rw [wp_bind]
    refine wp_migrateLegacySuccessor hs ?_
    rw [wp_bind, wp_readSecret ho, wp_bind, wp_readSecret hsf, wp_bind,
      wp_pathIsPresent, if_neg (by simp [htf]), wp_bind, wp_readSecret htf, wp_pure]
    exact hp m _ hc ⟨h.idle, fun _ => ⟨rfl, rfl⟩, fun ha => absurd ha hn, ho⟩

end

/-- What a load yields of the keys in custody. -/
structure Loads (env : Env) (now : UInt64) (start : Custody) (keys : LoadedKeys) : Prop where
  current : ∀ key, start.current = some key →
    env.publicKey keys.identity = key ∧ keys.freshlyCreated = false
  created : start.current = none → keys.freshlyCreated = true
  retired : ∀ key journal, start.retired key = some journal →
    journal.record.activatedAt ≤ now → now < journal.record.graceUntil →
      ∃ one ∈ keys.retired, one.journal = journal ∧ env.publicKey one.identity = key

variable {identity : Bytes32} {created : Bool}

theorem Opened.current (h : Opened H env before after identity created)
    (hidle : Idle H env before) :
    (∀ key, (before.custody env).current = some key →
      env.publicKey identity = key ∧ created = false) ∧
    ((before.custody env).current = none → created = true) := by
  rw [hidle.custody_eq]
  by_cases hn : before .operating = none
  · have hk : before.operatingKey env = none := by simp [operatingKey, hn]
    refine ⟨fun key h => ?_, fun _ => (h.made hn).1⟩
    cases hk.symm.trans h
  · obtain ⟨hc, hs⟩ := h.found hn
    have hk : before.operatingKey env = some (env.publicKey identity) := by
      simp [operatingKey, ← hs, h.operating]
    rw [hk]
    exact ⟨fun key h => ⟨Option.some.inj h, hc⟩, fun h => by cases h⟩

theorem Opened.retired (h : Opened H env before after identity created) :
    (after.custody env).retired = (before.custody env).retired := by
  by_cases hn : before .operating = none
  · rw [(h.made hn).2]
  · rw [(h.found hn).2]

theorem Opened.allows {last : Custody} (h : Opened H env before after identity created)
    (hidle : Idle H env before) (hl : Custody.Expires now (after.custody env) last) :
    (Operation.load now seeds).Allows (before.custody env) last := by
  by_cases hn : before .operating = none
  · refine .inr ⟨?_, env.publicKey identity, (h.made hn).2 ▸ hl⟩
    simp [hidle.custody_eq, operatingKey, hn]
  · exact .inl ((h.found hn).2 ▸ hl)

/-- A load of a home in which nothing is lost succeeds and yields the keys in custody. -/
theorem wp_loadOrCreate (hc : m.Unclaimed) (h : Kept H env m.file) :
    wp (loadOrCreate H env now seeds)
      (Passable H env ((Operation.load now seeds).Allows (custody env m.file)))
      (fun keys m' =>
        Done H env ((Operation.load now seeds).Allows (custody env m.file)) m' ∧
          Loads env now (custody env m.file) keys) fail m := by
  have hrefl : (Operation.load now seeds).Allows (custody env m.file)
      (custody env m.file) := .inl (.refl now _)
  unfold loadOrCreate
  rw [wp_bind]
  refine wp_recover hc h hrefl fun recovered hc ⟨hidle, hcus⟩ => ?_
  rw [← hcus] at hrefl ⊢
  rw [wp_bind]
  refine wp_loadOrCreateLocked hc ⟨hidle, rfl⟩
    (fun m' hm' => .inr (.inr ⟨.inl hm'.idle, hm'.custody_eq ▸ hrefl⟩))
    fun opened result hc ho => ?_
  have ha : ∀ m' : Machine, Cleaned now opened.file m'.file → Fine H env
      ((Operation.load now seeds).Allows (custody env recovered.file)) m' :=
    fun m' hcle => ⟨.inl (hcle.idle ho.idle), ho.allows hidle (hcle.expires ⟨ho.idle, rfl⟩)⟩
  unfold retiredIdentitiesLocked
  rw [wp_bind, wp_bind]
  refine wp_retiredIdentitiesAndLiveCount _ _ hc ho.idle.retired
    (fun m' horp => .inr (.inl horp))
    (fun m' hcle => .inr (.inr (ha m' hcle)))
    fun m' listing hm' _ hs => ?_
  rw [wp_pure, wp_pure]
  obtain ⟨hcur, hcre⟩ := ho.current hidle
  refine ⟨⟨hm', ha m' hs.cleaned⟩, hcur, hcre, fun key journal hr hact hg => ?_⟩
  rw [← ho.retired, ho.idle.custody_eq] at hr
  exact hs.listed key journal trivial (hs.cleaned.keeps (metadata_eq_some.mp hr) hg) hact

theorem survives_acquireLease_bind {α : Type} {expected : Bytes32}
    {next : Program α} (hc : m.Unclaimed) (h : Kept H env m.file)
    (ha : allowed (custody env m.file))
    (hn : ∀ m', m'.Unclaimed → Resting H env (custody env m.file) m'.file →
      Survives H env next allowed m') :
    Survives H env (do acquireActiveIdentityLease H env expected; next) allowed m := by
  unfold acquireActiveIdentityLease
  refine (wp_bind _ _).mpr ((wp_bind _ _).mpr ?_)
  refine wp_recover hc h ha fun m' hm' hrest => ?_
  have hd : Done H env allowed m' := ⟨hm', .inl hrest.idle, hrest.custody_eq ▸ ha⟩
  rw [wp_bind]
  refine wp_readSecret_of_fail (fun identity _ => ?_) fun _ => hd
  rw [wp_ite]
  refine ⟨fun _ => ?_, fun _ => ?_⟩
  · rw [wp_throw]
    exact hd
  · rw [wp_pure]
    exact hn m' hm' hrest

/-- What every operation does, wherever it stops. -/
theorem survives_operation (operation : Operation) (hc : m.Unclaimed) (h : Kept H env m.file) :
    Survives H env (operation.program H env) (operation.Allows (custody env m.file)) m := by
  have he : ∀ {α : Type} {x : Program α} {allowed : Custody → Prop},
      Survives H env x allowed m → Survives H env (do let _ ← x) allowed m := by
    intro α x allowed hx
    refine (wp_bind _ _).mpr ?_
    exact wp_mono hx (fun _ _ hd => (wp_pure _).mpr hd) fun _ _ hd => hd
  cases operation with
  | load =>
    exact he (wp_mono (wp_loadOrCreate hc h) (fun _ _ hd => hd.1) fun _ _ hd => hd)
  | rotate =>
    refine he ((wp_bind _ _).mpr (wp_recover hc h (Rotates.refl _ _) fun m' hm' hrest => ?_))
    exact survives_rotateLocked hm' hrest
  | retired =>
    refine he ((wp_bind _ _).mpr (wp_recover hc h (.refl _ _) fun m' hm' hrest => ?_))
    exact survives_retiredIdentitiesLocked hm' hrest
  | rotateWithLease =>
    refine he (survives_acquireLease_bind hc h (Rotates.refl _ _) fun m' hm' hrest => ?_)
    exact survives_rotateLocked hm' hrest
  | retiredWithLease =>
    refine he (survives_acquireLease_bind hc h (.refl _ _) fun m' hm' hrest => ?_)
    exact survives_retiredIdentitiesLocked hm' hrest

end Operations

end Pigeonpost.Keystore
