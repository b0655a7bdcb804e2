import Pigeonpost.Library.Script
import Pigeonpost.Program.Client.Keystore
import Mathlib.Data.List.Dedup

/-! # What the file operations of the keystore do

Files are looked up by name only, so that every operation is described by the names whose
content it changes. -/

namespace Pigeonpost.Keystore

open Script Function List AList

open Script (wp)

variable {path : Path}

/-! ## Looking up -/

namespace Disk

variable (disk : Disk) (path other : Path) (content : Content)

@[simp] theorem file_write :
    (disk.write path content).file other =
      if other = path then some content else disk.file other := by
  split
  · rename_i h
    rw [h]
    exact lookup_insert _
  · rename_i h
    exact lookup_insert_ne h

@[simp] theorem file_remove :
    (disk.remove path).file other = if other = path then none else disk.file other := by
  split
  · rename_i h
    rw [h]
    exact lookup_erase _ _
  · rename_i h
    exact lookup_erase_ne h

theorem file_rename {disk : Disk} {source destination : Path} {content : Content}
    (h : disk.file source = some content) :
    (disk.rename source destination).file other =
      if other = destination then some content else if other = source then none
      else disk.file other := by
  simp only [rename, h, file_write, file_remove]

theorem mem_retiredEntries :
    path ∈ disk.retiredEntries ↔ disk.file path ≠ none ∧ path.inRetired = true := by
  rw [retiredEntries, mem_filter, ← AList.mem_keys, ← AList.lookup_isSome,
    Option.isSome_iff_ne_none]
  rfl

theorem nodup_stems : disk.stems.Nodup :=
  (perm_insertionSort _ _).nodup_iff.mpr (nodup_dedup _)

theorem mem_stems (stem : Bytes32) : stem ∈ disk.stems ↔
      disk.file (.retiredKey stem) ≠ none ∨ disk.file (.retiredMetadata stem) ≠ none := by
  rw [stems, (perm_insertionSort _ _).mem_iff, mem_dedup, mem_filterMap]
  constructor
  · rintro ⟨path, hp, hs⟩
    rw [mem_retiredEntries] at hp
    cases path <;> cases hs
    · exact .inl hp.1
    · exact .inr hp.1
  · rintro (h | h)
    · exact ⟨_, (mem_retiredEntries _ _).mpr ⟨h, rfl⟩, rfl⟩
    · exact ⟨_, (mem_retiredEntries _ _).mpr ⟨h, rfl⟩, rfl⟩

end Disk

theorem map_stem_pairs (disk : Disk) : (pairs disk).map Pair.stem = disk.stems := by
  rw [pairs, map_map]
  exact map_id _

theorem temporary_ne (path : Path) (pid sequence : ℕ) :
    Path.temporary path pid sequence ≠ path := by
  intro h
  have hs := congrArg sizeOf h
  simp at hs
  omega

namespace Machine

variable (m : Machine) (path : Path) (content : Content)

@[simp] theorem file_write : (m.onDisk fun disk => disk.write path content).file =
      update m.file path (some content) := by
  funext other
  simp [file, onDisk, update_apply]

@[simp] theorem file_remove :
    (m.onDisk fun disk => disk.remove path).file = update m.file path none := by
  funext other
  simp [file, onDisk, update_apply]

theorem file_rename {m : Machine} {source : Path} {content : Content}
    (h : m.file source = some content) (destination : Path) :
    (m.onDisk fun disk => disk.rename source destination).file =
      update (update m.file source none) destination (some content) := by
  funext other
  simp [file, onDisk, Disk.file_rename other h, update_apply]

@[simp] theorem file_nextTemp : m.nextTemp.file = m.file := rfl

end Machine

/-! ## Single operations -/

variable {post : Unit → Machine → Prop} {seed : Bytes32} {m m' : Machine}

section Operations

variable {α : Type} {through : Machine → Prop} {fail : KeystoreError → Machine → Prop} {m : Machine}

@[simp] theorem wp_readMachine {post : Machine → Machine → Prop} :
    wp readMachine through post fail m ↔ post m m := wp_get

@[simp] theorem wp_onDisk (f : Disk → Disk) :
    wp (onDisk f) through post fail m ↔ through m ∧ post () (m.onDisk f) := wp_act _

@[simp] theorem wp_pathIsPresent {post : Bool → Machine → Prop} (path : Path) :
    wp (pathIsPresent path) through post fail m ↔ post (m.file path).isSome m := by
  simp [pathIsPresent]

theorem wp_validateKeyFile (h : m.file path ≠ none) :
    wp (validateKeyFile path) through post fail m ↔ post () m := by
  simp [validateKeyFile, h]

theorem wp_readSecret {post : Bytes32 → Machine → Prop} (h : m.file path = some (.secret seed)) :
    wp (readSecret path) through post fail m ↔ post seed m := by
  simp [readSecret, h]

/-- Reading a key where it is no failure that there is none. -/
theorem wp_readSecret_of_fail {post : Bytes32 → Machine → Prop}
    (hp : ∀ seed, m.file path = some (.secret seed) → post seed m)
    (hf : ∀ e, fail e m) : wp (readSecret path) through post fail m := by
  rcases h : m.file path with _ | content
  · simpa [readSecret, h] using hf _
  · cases content with
    | secret seed => exact (wp_readSecret h).mpr (hp seed h)
    | journal | incomplete => simpa [readSecret, h] using hf _

theorem wp_readIfPresent {post : Option Bytes32 → Machine → Prop}
    (h : m.file path = some (.secret seed)) :
    wp (readIfPresent path) through post fail m ↔ post (some seed) m := by
  simp [readIfPresent, h, wp_readSecret h]

theorem wp_readJournal_of_fail {post : RotationJournal → Machine → Prop}
    (hp : ∀ journal, m.file path = some (.journal journal) → post journal m)
    (hf : ∀ e, fail e m) : wp (readJournal path) through post fail m := by
  rcases h : m.file path with _ | content
  · simpa [readJournal, h] using hf _
  · cases content with
    | secret | incomplete => simpa [readJournal, h] using hf _
    | journal journal => simpa [readJournal, h] using hp journal h

theorem wp_validateKeyFile_of_fail (hp : post () m) (hf : ∀ e, fail e m) :
    wp (validateKeyFile path) through post fail m := by
  by_cases h : m.file path = none
  · simpa [validateKeyFile, h] using hf _
  · exact (wp_validateKeyFile h).mpr hp

theorem wp_removePrivateFile_of_fail (ht : through m)
    (hp : post () (m.onDisk fun disk => disk.remove path)) (hf : ∀ e, fail e m) :
    wp (removePrivateFile path) through post fail m := by
  unfold removePrivateFile
  rw [wp_bind]
  exact wp_validateKeyFile_of_fail ((wp_onDisk _).mpr ⟨ht, hp⟩) hf

theorem wp_readJournal {post : RotationJournal → Machine → Prop}
    {journal : RotationJournal} (h : m.file path = some (.journal journal)) :
    wp (readJournal path) through post fail m ↔ post journal m := by
  simp [readJournal, h]

theorem wp_removePrivateFile (h : m.file path ≠ none) :
    wp (removePrivateFile path) through post fail m ↔
      through m ∧ post () (m.onDisk fun disk => disk.remove path) := by
  simp [removePrivateFile, wp_validateKeyFile h]

theorem wp_core {post : α → Machine → Prop} (result : Except CoreError α)
    (hp : ∀ value, result = .ok value → post value m) (hf : ∀ e, fail e m) :
    wp (core result) through post fail m := by
  cases result with
  | ok value => exact (wp_ok value).mpr (hp value rfl)
  | error => exact (wp_error _).mpr (hf _)

@[simp] theorem wp_core_ok {post : α → Machine → Prop} (value : α) :
    wp (core (.ok value)) through post fail m ↔ post value m := wp_ok value

end Operations

/-! ## Files that are written under another name first -/

/-- The name of a file that is no temporary one. -/
def Path.Plain : Path → Prop
  | .temporary _ _ _ => False
  | .replacement _ _ _ => False
  | _ => True

/-- The names that the process will give to its next temporary files are free. -/
structure Machine.Unclaimed (m : Machine) : Prop where
  temp : ∀ target sequence, m.tempSequence ≤ sequence →
    m.file (.temporary target m.pid sequence) = none
  replace : ∀ target sequence, m.replaceSequence ≤ sequence →
    m.file (.replacement target m.pid sequence) = none

/-- Files under plain names do not take the names of temporary ones. -/
theorem Machine.Unclaimed.of_plain (hm : m.Unclaimed) (hpid : m'.pid = m.pid)
    (ht : m.tempSequence ≤ m'.tempSequence) (hr : m.replaceSequence ≤ m'.replaceSequence)
    (hf : ∀ path, ¬ path.Plain → m'.file path = m.file path) : m'.Unclaimed where
  temp target sequence h := by
    rw [hf (.temporary target m'.pid sequence) fun hp => hp, hpid]
    exact hm.temp target sequence (ht.trans h)
  replace target sequence h := by
    rw [hf (.replacement target m'.pid sequence) fun hp => hp, hpid]
    exact hm.replace target sequence (hr.trans h)

theorem Machine.Unclaimed.update {content : Option Content}
    (hm : m.Unclaimed) (hf : m'.file = update m.file path content) (hp : path.Plain)
    (hpid : m'.pid = m.pid) (ht : m.tempSequence ≤ m'.tempSequence)
    (hr : m.replaceSequence ≤ m'.replaceSequence) : m'.Unclaimed := by
  refine hm.of_plain hpid ht hr fun other ho => ?_
  rw [hf, update_of_ne]
  rintro rfl
  exact ho hp

theorem Machine.Unclaimed.remove {m : Machine} (hm : m.Unclaimed)
    (hp : path.Plain) : (m.onDisk fun disk => disk.remove path).Unclaimed :=
  hm.update (file_remove m path) hp rfl (Nat.le_refl _) (Nat.le_refl _)

section Publishing

variable {through : Machine → Prop} {fail : KeystoreError → Machine → Prop} {m : Machine}
  {path : Path}

/-- A new file is incomplete before it is written. -/
theorem wp_writeNewFile_bind {β : Type} {post : β → Machine → Prop} {next : Program β}
    {content : Content} (h : m.file path = none)
    (ht : ∀ m' content, m'.file = update m.file path content → through m')
    (hn : ∀ f, (m.onDisk f).file = update m.file path (some content) →
      wp next through post fail (m.onDisk f)) :
    wp (do writeNewFile path content; next) through post fail m := by
  have hself : m.file = update m.file path none := by rw [← h, update_eq_self]
  simp only [writeNewFile, wp_bind, wp_pathIsPresent, h, Option.isSome_none, Bool.false_eq_true,
    if_false, wp_onDisk]
  have hw := Machine.file_write (m.onDisk fun disk => disk.write path .incomplete) path content
  rw [Machine.file_write m path, update_idem] at hw
  exact ⟨ht m none hself, ht _ (some .incomplete) (by simp),
    hn (fun disk => (disk.write path .incomplete).write path content) hw⟩

variable {temporary : Path}

section

variable (h : m.file temporary ≠ none)

include h

theorem wp_publishNoReplace_of_none {post : Bool → Machine → Prop} (hp : m.file path = none) :
    wp (publishNoReplace temporary path) through post fail m ↔
      through m ∧ post true (m.onDisk fun disk => disk.rename temporary path) := by
  simp [publishNoReplace, wp_validateKeyFile h, hp]

theorem wp_publishNoReplace_of_some {post : Bool → Machine → Prop} (hp : m.file path ≠ none) :
    wp (publishNoReplace temporary path) through post fail m ↔
      through m ∧ post false (m.onDisk fun disk => disk.remove temporary) := by
  have hs : (m.file path).isSome = true := Option.isSome_iff_ne_none.mpr hp
  simp [publishNoReplace, wp_validateKeyFile h, wp_removePrivateFile h, hs]

theorem wp_publishReplacement :
    wp (publishReplacement temporary path) through post fail m ↔
      through m ∧ post () (m.onDisk fun disk => disk.rename temporary path) := by
  simp [publishReplacement, wp_validateKeyFile h]

end

theorem wp_createSecretOnce {post : Bool → Machine → Prop} {secret : Bytes32} (hm : m.Unclaimed)
    (hplain : path.Plain)
    (ht : ∀ m' content, m'.file =
      update m.file (.temporary path m.pid m.tempSequence) content → through m')
    (hold : m.file path ≠ none → ∀ m', m'.Unclaimed → m'.file = m.file → post false m')
    (hn : m.file path = none → ∀ m', m'.Unclaimed →
      m'.file = update m.file path (some (.secret secret)) → post true m') :
    wp (createSecretOnce path secret) through post fail m := by
  have hfree := hm.temp path m.tempSequence (Nat.le_refl _)
  have hself : m.file = update m.file (.temporary path m.pid m.tempSequence) none := by
    rw [← hfree, update_eq_self]
  have hne := temporary_ne path m.pid m.tempSequence
  unfold createSecretOnce
  rw [wp_bind, wp_readMachine, wp_bind, wp_act]
  refine ⟨ht m none hself, wp_writeNewFile_bind (m := m.nextTemp) hfree ht fun f hfile => ?_⟩
  -- the complete file is published under its name, or given up for the one that is there
  have hs : (m.nextTemp.onDisk f).file (.temporary path m.pid m.tempSequence) =
      some (.secret secret) := by
    rw [hfile, update_self]
  have hpath : (m.nextTemp.onDisk f).file path = m.file path := by
    rw [hfile, update_of_ne hne.symm, Machine.file_nextTemp]
  by_cases hp : m.file path = none
  · rw [wp_bind, wp_publishNoReplace_of_none (by rw [hs]; simp) (hpath.trans hp)]
    refine ⟨ht _ _ hfile, ?_⟩
    have hr := Machine.file_rename hs path
    rw [hfile, update_idem, Machine.file_nextTemp, ← hself] at hr
    rw [wp_bind, wp_validateKeyFile (by rw [hr]; simp), wp_pure]
    exact hn hp _ (hm.update hr hplain rfl (Nat.le_succ _) (Nat.le_refl _)) hr
  · rw [wp_bind, wp_publishNoReplace_of_some (by rw [hs]; simp) (hpath ▸ hp)]
    refine ⟨ht _ _ hfile, ?_⟩
    have hrem := Machine.file_remove (m.nextTemp.onDisk f) (.temporary path m.pid m.tempSequence)
    rw [hfile, update_idem, Machine.file_nextTemp, ← hself] at hrem
    rw [wp_bind, wp_validateKeyFile (by rw [hrem]; exact hp), wp_pure]
    refine hold hp _ ?_ hrem
    exact hm.of_plain rfl (Nat.le_succ _) (Nat.le_refl _) fun other _ => congrFun hrem other

theorem wp_writeAndPublish {content : Content} (h : m.file temporary = none)
    (ht : ∀ m' content, m'.file = update m.file temporary content → through m')
    (hpost : ∀ f, (m.onDisk f).file = update m.file path (some content) → post () (m.onDisk f)) :
    wp (do writeNewFile temporary content; publishReplacement temporary path)
      through post fail m := by
  refine wp_writeNewFile_bind h ht fun f hf => ?_
  have hs : (m.onDisk f).file temporary = some content := by
    rw [hf, update_self]
  rw [wp_publishReplacement (by rw [hs]; simp)]
  have hr := Machine.file_rename hs path
  rw [hf, update_idem, ← h, update_eq_self] at hr
  exact ⟨ht _ _ hf, hpost (fun disk => (f disk).rename temporary path) hr⟩

theorem wp_replaceFile {content : Content} (hm : m.Unclaimed) (hp : path.Plain)
    (ht : ∀ m' content, m'.file =
      update m.file (.replacement path m.pid m.replaceSequence) content → through m')
    (hpost : ∀ m', m'.Unclaimed → m'.file = update m.file path (some content) → post () m') :
    wp (do
      let temporary ← temporaryPath path
      writeNewFile temporary content
      publishReplacement temporary path) through post fail m := by
  have hfree := hm.replace path m.replaceSequence (Nat.le_refl _)
  unfold temporaryPath
  simp only [wp_bind, wp_readMachine, wp_act, wp_pure]
  refine ⟨ht m none (by rw [← hfree, update_eq_self]), ?_⟩
  rw [← wp_bind]
  exact wp_writeAndPublish (m := m.nextReplace) hfree ht fun f hf =>
    hpost _ (hm.update hf hp rfl (Nat.le_refl _) (Nat.le_succ _)) hf

theorem wp_removeIfPresent {β : Type} {post : β → Machine → Prop} {next : Program β}
    (hm : m.Unclaimed) (hplain : path.Plain) (ht : through m)
    (hn : ∀ m', m'.Unclaimed → m'.file = update m.file path none → wp next through post fail m') :
    wp (if (m.file path).isSome = true then (do removePrivateFile path; next) else next)
      through post fail m := by
  by_cases hp : m.file path = none
  · rw [hp]
    refine hn m hm ?_
    rw [← hp, update_eq_self]
  · rw [if_pos (Option.isSome_iff_ne_none.mpr hp), wp_bind, wp_removePrivateFile hp]
    exact ⟨ht, hn _ (hm.remove hplain) (Machine.file_remove m path)⟩

end Publishing

end Pigeonpost.Keystore
