import Pigeonpost.Verification.Keystore.Files

/-! # Whose keys a disk holds

What the key files are for: a current key and the retired ones with the journals of their
rotations. A pending journal already counts, since recovery completes it. -/

namespace Pigeonpost.Keystore

open Function

/-! ## Custody -/

/-- The keys an agent holds, whatever files hold them. -/
structure Custody where
  current : Option Bytes32
  retired : Bytes32 → Option RotationJournal

variable {key : Bytes32} {journal : RotationJournal} {now : UInt64} {before after : Custody}
  {files : Files}

namespace Custody

/-- The journal's outgoing key is retired for its incoming one. -/
def rotate (custody : Custody) (journal : RotationJournal) : Custody where
  current := some journal.record.toPubkey
  retired := Function.update custody.retired journal.record.fromPubkey (some journal)

/-- Nothing changes but that keys whose grace has ended may be gone. -/
structure Expires (now : UInt64) (before after : Custody) : Prop where
  current : after.current = before.current
  retired : ∀ key, after.retired key = before.retired key ∨ (after.retired key = none ∧
      ∃ journal, before.retired key = some journal ∧ journal.record.graceUntil ≤ now)

theorem Expires.refl (now : UInt64) (custody : Custody) : Expires now custody custody :=
  ⟨rfl, fun _ => .inl rfl⟩

def Has (custody : Custody) (key : Bytes32) : Prop :=
  custody.current = some key ∨ custody.retired key ≠ none

theorem Expires.has (h : Expires now before after) (hk : before.Has key) :
    after.Has key ∨ ∃ journal, before.retired key = some journal ∧
      journal.record.graceUntil ≤ now := by
  rcases h.retired key with hs | ⟨-, he⟩
  · refine .inl ?_
    unfold Has
    rw [h.current, hs]
    exact hk
  · exact .inr he

theorem Has.rotate {custody : Custody} (h : custody.Has key)
    (hc : custody.current = some journal.record.fromPubkey) : (custody.rotate journal).Has key := by
  refine .inr ?_
  by_cases heq : key = journal.record.fromPubkey
  · simp [Custody.rotate, heq]
  · rcases h with h | h
    · rw [hc] at h
      exact absurd (Option.some.inj h).symm heq
    · simpa [Custody.rotate, heq] using h

end Custody

def Operation.time : Operation → UInt64
  | .load now _ => now
  | .rotate request => request.activatedAt
  | .retired now => now
  | .rotateWithLease _ request => request.activatedAt
  | .retiredWithLease _ now => now

/-- What a rotation may do, whether it ends or not. -/
def Rotates (now : UInt64) (before after : Custody) : Prop :=
  ∃ kept, Custody.Expires now before kept ∧ (after = kept ∨ ∃ journal,
    journal.record.activatedAt = now ∧ kept.current = some journal.record.fromPubkey ∧
      after = kept.rotate journal)

/-- What an operation may do, whether it ends or not. -/
def Operation.Allows (operation : Operation) (before after : Custody) : Prop :=
  match operation with
  | .load now _ => Custody.Expires now before after ∨ (before.current = none ∧
    ∃ key, Custody.Expires now { before with current := some key } after)
  | .rotate request => Rotates request.activatedAt before after
  | .retired now => Custody.Expires now before after
  | .rotateWithLease _ request => Rotates request.activatedAt before after
  | .retiredWithLease _ now => Custody.Expires now before after

theorem Rotates.has (h : Rotates now before after) (hkey : before.Has key) :
    after.Has key ∨ ∃ journal, before.retired key = some journal ∧
      journal.record.graceUntil ≤ now := by
  obtain ⟨kept, he, ha⟩ := h
  rcases he.has hkey with hk | hexp
  · rcases ha with rfl | ⟨journal, -, hc, rfl⟩
    · exact .inl hk
    · exact .inl (hk.rotate hc)
  · exact .inr hexp

/-- No operation loses a key whose grace has not ended. -/
theorem Operation.Allows.has {operation : Operation}
    (h : operation.Allows before after) (hk : before.Has key) :
    after.Has key ∨ ∃ journal, before.retired key = some journal ∧
      journal.record.graceUntil ≤ operation.time := by
  cases operation with
  | load =>
    rcases h with h | ⟨hn, created, h⟩
    · exact h.has hk
    · refine h.has ?_
      rcases hk with hk | hk
      · rw [hn] at hk
        cases hk
      · exact .inr hk
  | rotate | rotateWithLease => exact Rotates.has h hk
  | retired | retiredWithLease => exact Custody.Expires.has h hk

/-! ## The custody of a disk -/

abbrev Files := Path → Option Content

def Files.metadata (files : Files) (key : Bytes32) : Option RotationJournal :=
  match files (.retiredMetadata key) with
  | some (.journal journal) => some journal
  | _ => none

theorem Files.metadata_eq_some : files.metadata key = some journal ↔
      files (.retiredMetadata key) = some (.journal journal) := by
  unfold Files.metadata
  split
  · rename_i found hf
    rw [hf, Option.some.injEq, Option.some.injEq, Content.journal.injEq]
  · rename_i ho
    exact ⟨fun h => (Option.some_ne_none _ h.symm).elim, fun h => absurd h (ho journal)⟩

section Invariants

variable (H : Type) [Sha256 H] [HashBytes H] (env : Env)

def Files.operatingKey (files : Files) : Option Bytes32 :=
  match files .operating with
  | some (.secret seed) => some (env.publicKey seed)
  | _ => none

def Files.custody (files : Files) : Custody :=
  let settled : Custody := ⟨files.operatingKey env, files.metadata⟩
  match files .rotationJournal with
  | some (.journal journal) => settled.rotate journal
  | _ => settled

/-! ## What the code keeps -/

/-- The file is a whole key, if it is there. -/
def Files.Secret (files : Files) (path : Path) : Prop :=
  ∀ content, files path = some content → ∃ seed, content = .secret seed

theorem Files.Secret.exists_seed {path : Path} (h : files.Secret path)
    (hp : files path ≠ none) : ∃ seed, files path = some (.secret seed) := by
  obtain ⟨content, hc⟩ := Option.ne_none_iff_exists'.mp hp
  obtain ⟨seed, rfl⟩ := h content hc
  exact ⟨seed, hc⟩

/-- A journal that recovery accepts. -/
structure Sound (journal : RotationJournal) : Prop where
  valid : validateJournal H env journal = .ok ()
  bounded : env.journalBytes journal ≤ maxJournalBytes

/-- A name in the directory of the retired keys that is neither a key nor its metadata. -/
def Files.Stray (files : Files) : Prop :=
  ∃ path, files path ≠ none ∧ path.inRetired = true ∧ path.stem = none

/-- Metadata whose key is gone. -/
def Files.Orphaned (files : Files) : Prop :=
  ∃ key, files (.retiredMetadata key) ≠ none ∧ files (.retiredKey key) = none

/-- The retired keys and their metadata, where the key being retired may still lack its
metadata, and has a place among them. -/
structure RetiredOk (files : Files) (pending : Option Bytes32) : Prop where
  tidy : ¬ files.Stray
  paired : ¬ files.Orphaned
  key : ∀ stem content, files (.retiredKey stem) = some content →
    (∃ seed, content = .secret seed ∧ env.publicKey seed = stem) ∧
      (files (.retiredMetadata stem) ≠ none ∨ pending = some stem)
  metadata : ∀ stem content, files (.retiredMetadata stem) = some content →
    ∃ journal, content = .journal journal ∧ Sound H env journal ∧ journal.record.fromPubkey = stem
  bounded : ∃ stems : List Bytes32, stems.length ≤ maxLiveRetiredIdentities ∧
    (∀ stem, files (.retiredKey stem) ≠ none → stem ∈ stems) ∧ ∀ stem ∈ pending, stem ∈ stems

/-- No rotation is pending. Before the operating key there are its successor and the
token secret. -/
structure Idle (files : Files) : Prop where
  unwritten : files .rotationJournal = none
  legacy : files .legacySuccessor = none
  default : files .defaultSuccessor = none
  operating : files.Secret .operating
  successor : files.Secret .successor
  token : files.Secret .tokenSecret
  complete : files .operating ≠ none → files .successor ≠ none ∧ files .tokenSecret ≠ none
  retired : RetiredOk H env files none

/-- A rotation whose journal is written. Whatever of it is not done yet can still be done. -/
structure Pending (files : Files) (journal : RotationJournal) : Prop where
  written : files .rotationJournal = some (.journal journal)
  sound : Sound H env journal
  legacy : files .legacySuccessor = none
  default : files .defaultSuccessor = none
  token : ∃ seed, files .tokenSecret = some (.secret seed)
  operating : ∃ seed, files .operating = some (.secret seed) ∧
    (env.publicKey seed = journal.record.fromPubkey ∨
      files (.retiredKey journal.record.fromPubkey) ≠ none) ∧
    (env.publicKey seed = journal.record.toPubkey ∨ ∃ incoming,
      files .successor = some (.secret incoming) ∧ env.publicKey incoming = journal.record.toPubkey)
  successor : ∃ seed, files .successor = some (.secret seed) ∧
    (commitment H (env.publicKey seed) = journal.record.nextSuccessorHash ∨ ∃ next,
      files .stagedSuccessor = some (.secret next) ∧
        commitment H (env.publicKey next) = journal.record.nextSuccessorHash)
  retired : RetiredOk H env files (some journal.record.fromPubkey)
  unexpired : ∀ stem other, files (.retiredMetadata stem) = some (.journal other) →
    journal.record.activatedAt < other.record.graceUntil

/-- The states in which no key is lost. -/
def Kept (files : Files) : Prop := Idle H env files ∨ ∃ journal, Pending H env files journal

/-- No rotation is pending, and these are the keys. -/
structure Resting (custody : Custody) (files : Files) : Prop where
  idle : Idle H env files
  custody_eq : files.custody env = custody

end Invariants

/-! ## Files beside -/

/-- Files that nothing is read from: temporary ones outside of the directory of the retired
keys, and a staged successor. -/
def Path.Beside : Path → Prop
  | .temporary target _ _ => target.inRetired = false
  | .replacement target _ _ => target.inRetired = false
  | .retiredStaging => True
  | .stagedSuccessor => True
  | _ => False

section Frames

variable {H : Type} [Sha256 H] [HashBytes H] {env : Env} {files : Files} {path other : Path}
  {content : Option Content}

theorem Path.Beside.inRetired (h : path.Beside) : path.inRetired = false := by
  cases path <;> first | exact h | rfl | cases h

theorem Path.Beside.ne (h : path.Beside) (ho : ¬ other.Beside) : other ≠ path := by
  rintro rfl
  exact ho h

theorem RetiredOk.update {pending : Option Bytes32} (h : RetiredOk H env files pending)
    (hpath : path.inRetired = false) : RetiredOk H env (update files path content) pending := by
  have hs : ∀ other : Path, other.inRetired = true →
      Function.update files path content other = files other := by
    intro other ho
    refine update_of_ne ?_ _ _
    rintro rfl
    cases hpath.symm.trans ho
  have hk : ∀ stem, Function.update files path content (.retiredKey stem) =
      files (.retiredKey stem) := fun stem => hs _ rfl
  have hm : ∀ stem, Function.update files path content (.retiredMetadata stem) =
      files (.retiredMetadata stem) := fun stem => hs _ rfl
  constructor
  · rintro ⟨other, ho, hr, hstem⟩
    rw [hs other hr] at ho
    exact h.tidy ⟨other, ho, hr, hstem⟩
  · rintro ⟨key, hp, ha⟩
    rw [hm] at hp
    rw [hk] at ha
    exact h.paired ⟨key, hp, ha⟩
  · intro stem
    rw [hk, hm]
    exact h.key stem
  · intro stem
    rw [hm]
    exact h.metadata stem
  · simp only [hk]
    exact h.bounded

theorem Files.Secret.update (h : files.Secret other) (hne : other ≠ path) :
    Files.Secret (update files path content) other := by
  unfold Files.Secret
  rw [update_of_ne hne]
  exact h

theorem Files.metadata_update (hm : ∀ key, Path.retiredMetadata key ≠ path) :
    Files.metadata (update files path content) = files.metadata := by
  funext key
  rw [Files.metadata, update_of_ne (hm key)]
  rfl

theorem Files.custody_update (ho : Path.operating ≠ path)
    (hj : Path.rotationJournal ≠ path) (hm : ∀ key, Path.retiredMetadata key ≠ path) :
    Files.custody env (update files path content) = files.custody env := by
  have hr : Files.metadata (update files path content) = files.metadata := Files.metadata_update hm
  have hk : Files.operatingKey env (update files path content) = files.operatingKey env := by
    rw [Files.operatingKey, update_of_ne ho]
    rfl
  rw [Files.custody, update_of_ne hj, hr, hk]
  rfl

theorem Path.Beside.custody_update (h : path.Beside) :
    Files.custody env (update files path content) = files.custody env :=
  Files.custody_update (h.ne id) (h.ne id) fun _ => h.ne id

theorem Idle.beside (h : Idle H env files) (hp : path.Beside) :
    Idle H env (update files path content) where
  unwritten := by rw [update_of_ne (hp.ne id)]; exact h.unwritten
  legacy := by rw [update_of_ne (hp.ne id)]; exact h.legacy
  default := by rw [update_of_ne (hp.ne id)]; exact h.default
  operating := h.operating.update (hp.ne id)
  successor := h.successor.update (hp.ne id)
  token := h.token.update (hp.ne id)
  complete := by
    rw [update_of_ne (hp.ne id), update_of_ne (hp.ne id), update_of_ne (hp.ne id)]
    exact h.complete
  retired := h.retired.update hp.inRetired

theorem Idle.custody_eq (h : Idle H env files) :
    files.custody env = ⟨files.operatingKey env, files.metadata⟩ := by
  simp only [Files.custody, h.unwritten]

theorem Resting.beside {custody : Custody} (h : Resting H env custody files) (hp : path.Beside) :
    Resting H env custody (update files path content) :=
  ⟨h.idle.beside hp, hp.custody_update.trans h.custody_eq⟩

theorem Pending.beside (h : Pending H env files journal) (hp : path.Beside)
    (hs : Path.stagedSuccessor ≠ path) :
    Pending H env (update files path content) journal where
  written := by rw [update_of_ne (hp.ne id)]; exact h.written
  sound := h.sound
  legacy := by rw [update_of_ne (hp.ne id)]; exact h.legacy
  default := by rw [update_of_ne (hp.ne id)]; exact h.default
  token := by rw [update_of_ne (hp.ne id)]; exact h.token
  operating := by
    rw [update_of_ne (hp.ne id), update_of_ne (hp.ne id), update_of_ne (hp.ne id)]
    exact h.operating
  successor := by
    rw [update_of_ne (hp.ne id), update_of_ne hs]
    exact h.successor
  retired := h.retired.update hp.inRetired
  unexpired := by
    intro stem other
    rw [update_of_ne (hp.ne id)]
    exact h.unexpired stem other

end Frames

end Pigeonpost.Keystore
