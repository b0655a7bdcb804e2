import Pigeonpost.Verification.Keystore.Custody

/-! # Homes that no load accepts

A temporary file among the retired keys, or metadata without its key, stops every load,
and no load removes it. -/

namespace Pigeonpost.Keystore

open Script List Function

open Script (wp)

def Files.OrphanAt (files : Files) (key : Bytes32) : Prop :=
  files (.retiredMetadata key) ≠ none ∧ files (.retiredKey key) = none

def Files.Disordered (files : Files) : Prop := files.Stray ∨ ∃ key, files.OrphanAt key

/-- Changes elsewhere do not put the directory in order. -/
theorem Files.Disordered.congr {files files' : Files} (h : files.Disordered)
    (hs : ∀ path : Path, path.inRetired = true → files' path = files path) : files'.Disordered := by
  rcases h with ⟨path, hpath, hr, hstem⟩ | ⟨key, hp, ha⟩
  · exact .inl ⟨path, hs path hr ▸ hpath, hr, hstem⟩
  · exact .inr ⟨key, hs (.retiredMetadata key) rfl ▸ hp, (hs (.retiredKey key) rfl).trans ha⟩

variable {m : Machine}

section Visits

variable {H : Type} [Sha256 H] [HashBytes H] {env : Env} {pending : Option Bytes32} {now : UInt64}

/-- The loop stops at metadata without its key, if not before. -/
theorem wp_visitPairs_orphan {key : Bytes32} {visited : List Pair}
    (hn : (visited.map Pair.stem).Nodup) (hv : ⟨key, false, true⟩ ∈ visited)
    (h : Files.OrphanAt m.file key) :
    wp (visitPairs H env now pending visited) (fun _ => True) (fun _ _ => False)
      (fun _ m' => Files.OrphanAt m'.file key) m := by
  induction visited generalizing m with
  | nil => cases hv
  | cons pair rest ih =>
    rw [map_cons, nodup_cons] at hn
    unfold visitPairs
    rcases mem_cons.mp hv with rfl | hr
    · simpa using h
    · have hne : key ≠ pair.stem := by
        rintro rfl
        exact hn.1 (mem_map.mpr ⟨_, hr, rfl⟩)
      have hnext : ∀ m' : Machine, Files.OrphanAt m'.file key →
          wp (visitPairs H env now pending rest) (fun _ => True) (fun _ _ => False)
            (fun _ m' => Files.OrphanAt m'.file key) m' := fun m' hm' => ih hn.2 hr hm'
      have hg : ∀ m' : Machine, Files.OrphanAt m'.file key → ∀ path,
          path = .retiredKey pair.stem ∨ path = .retiredMetadata pair.stem →
          Files.OrphanAt (m'.onDisk fun disk => disk.remove path).file key := by
        intro m' hm' path hp
        rcases hp with rfl | rfl <;> simpa [Files.OrphanAt, hne] using hm'
      rw [wp_ite]
      refine ⟨fun _ => ?_, fun _ => ?_⟩
      · rw [wp_bind]
        exact wp_validateKeyFile_of_fail (hnext m h) fun _ => h
      refine wp_guard (fun _ => h) fun _ => ?_
      rw [wp_bind]
      refine wp_readJournal_of_fail (fun journal _ => ?_) fun _ => h
      rw [wp_bind]
      refine wp_core _ (fun _ _ => ?_) fun _ => h
      refine wp_guard (fun _ => h) fun _ => ?_
      rw [wp_bind]
      refine wp_validateKeyFile_of_fail ?_ fun _ => h
      rw [wp_ite]
      refine ⟨fun _ => ?_, fun _ => ?_⟩
      · have hk := hg m h _ (.inl rfl)
        rw [wp_bind]
        refine wp_removePrivateFile_of_fail trivial ?_ fun _ => h
        rw [wp_bind]
        exact wp_removePrivateFile_of_fail trivial (hnext _ (hg _ hk _ (.inr rfl))) fun _ => hk
      rw [wp_ite]
      refine ⟨fun _ => ?_, fun _ => ?_⟩
      · rw [wp_bind]
        exact wp_mono (hnext m h) (fun _ _ hf => hf.elim) fun _ _ h => h
      rw [wp_bind]
      refine wp_readSecret_of_fail (fun identity _ => ?_) fun _ => h
      refine wp_guard (fun _ => h) fun _ => ?_
      rw [wp_bind]
      exact wp_mono (hnext m h) (fun _ _ hf => hf.elim) fun _ _ h => h

theorem wp_retiredIdentities_disordered (h : Files.Disordered m.file) :
    wp (retiredIdentitiesAndLiveCountLocked H env now pending) (fun _ => True)
      (fun _ _ => False) (fun _ m' => Files.Disordered m'.file) m := by
  unfold retiredIdentitiesAndLiveCountLocked
  rw [wp_bind, wp_readMachine]
  refine wp_guard (fun _ => h) fun _ => ?_
  refine wp_guard (fun _ => h) fun hs => ?_
  rw [wp_bind]
  rcases h with ⟨path, hpath, hr, hstem⟩ | ⟨key, hk⟩
  · -- the loop over the names has found the stray one
    refine absurd ?_ hs
    simp only [Bool.not_eq_true', all_eq_false]
    exact ⟨path, (Disk.mem_retiredEntries _ _).mpr ⟨hpath, hr⟩, by simp [hstem]⟩
  · have hm : (⟨key, false, true⟩ : Pair) ∈ pairs m.disk := by
      have ha : (m.disk.file (.retiredKey key)).isSome = false := by
        rw [show m.disk.file (.retiredKey key) = none from hk.2]
        rfl
      have hp : (m.disk.file (.retiredMetadata key)).isSome = true :=
        Option.isSome_iff_ne_none.mpr hk.1
      refine mem_map.mpr ⟨key, (Disk.mem_stems _ _).mpr (.inr hk.1), ?_⟩
      rw [ha, hp]
    exact wp_mono (wp_visitPairs_orphan (map_stem_pairs _ ▸ m.disk.nodup_stems) hm hk)
      (fun _ _ hf => hf.elim) fun _ _ ho => .inr ⟨key, ho⟩

end Visits

/-! ## What is done before the directory is visited -/

/-- A program that leaves a disordered directory disordered. -/
def Keeps {α : Type} (x : Program α) : Prop :=
  ∀ m : Machine, Files.Disordered m.file →
    wp x (fun _ => True) (fun _ m' => Files.Disordered m'.file)
      (fun _ m' => Files.Disordered m'.file) m

section Keeping

variable {α β : Type}

theorem Keeps.bind {x : Program α} {f : α → Program β} (hx : Keeps x) (hf : ∀ a, Keeps (f a)) :
    Keeps (x >>= f) := by
  intro m hm
  rw [wp_bind]
  exact wp_mono (hx m hm) (fun a m' hm' => hf a m' hm') fun _ _ hm' => hm'

theorem keeps_pure (a : α) : Keeps (pure a : Program α) := fun _ hm => (wp_pure a).mpr hm

theorem keeps_throw (e : KeystoreError) : Keeps (throw e : Program α) := fun _ hm =>
  (wp_throw e).mpr hm

theorem Keeps.ite {c : Prop} [Decidable c] {x y : Program α} (hx : Keeps x) (hy : Keeps y) :
    Keeps (if c then x else y) := by
  split
  · exact hx
  · exact hy

theorem keeps_pathIsPresent (path : Path) : Keeps (pathIsPresent path) := fun _ hm =>
  (wp_pathIsPresent path).mpr hm

theorem keeps_readSecret (path : Path) : Keeps (readSecret path) := fun _ hm =>
  wp_readSecret_of_fail (fun _ _ => hm) fun _ => hm

theorem keeps_readJournal (path : Path) : Keeps (readJournal path) := fun _ hm =>
  wp_readJournal_of_fail (fun _ _ => hm) fun _ => hm

theorem keeps_validateKeyFile (path : Path) : Keeps (validateKeyFile path) := fun _ hm =>
  wp_validateKeyFile_of_fail hm fun _ => hm

theorem keeps_core (result : Except CoreError α) : Keeps (core result) := fun _ hm =>
  wp_core result (fun _ _ => hm) fun _ => hm

theorem keeps_onDisk {f : Disk → Disk} (h : ∀ m : Machine, ∀ path : Path, path.inRetired = true →
    (m.onDisk f).file path = m.file path) : Keeps (onDisk f) := fun m hm =>
  (wp_onDisk f).mpr ⟨trivial, hm.congr (h m)⟩

variable {path : Path}

theorem ne_of_inRetired {other : Path} (hp : path.inRetired = false)
    (ho : other.inRetired = true) : other ≠ path := by
  rintro rfl
  cases hp.symm.trans ho

theorem keeps_write (hp : path.inRetired = false) (content : Content) :
    Keeps (onDisk fun disk => disk.write path content) := by
  refine keeps_onDisk fun m other ho => ?_
  rw [Machine.file_write, update_of_ne (ne_of_inRetired hp ho)]

theorem keeps_removePrivateFile (hp : path.inRetired = false) : Keeps (removePrivateFile path) := by
  refine (keeps_validateKeyFile path).bind fun _ => keeps_onDisk fun m other ho => ?_
  rw [Machine.file_remove, update_of_ne (ne_of_inRetired hp ho)]

theorem keeps_rename {source : Path} (hs : source.inRetired = false)
    (hp : path.inRetired = false) : Keeps (onDisk fun disk => disk.rename source path) := by
  refine keeps_onDisk fun m other ho => ?_
  rcases h : m.file source with _ | content
  · have hsame : (m.onDisk fun disk => disk.rename source path) = m := by
      simp [Machine.onDisk, Disk.rename, show m.disk.file source = none from h]
    rw [hsame]
  · rw [Machine.file_rename h, update_of_ne (ne_of_inRetired hp ho),
      update_of_ne (ne_of_inRetired hs ho)]

theorem keeps_createSecretOnce (hpath : path.inRetired = false) (secret : Bytes32) :
    Keeps (createSecretOnce path secret) := by
  intro m hm
  unfold createSecretOnce
  rw [wp_bind, wp_readMachine, wp_bind, wp_act]
  refine ⟨trivial, ?_⟩
  have ht : (Path.temporary path m.pid m.tempSequence).inRetired = false := hpath
  have hp : Keeps (publishNoReplace (.temporary path m.pid m.tempSequence) path) :=
    (keeps_validateKeyFile _).bind fun _ => (keeps_pathIsPresent _).bind fun _ =>
      ((keeps_removePrivateFile ht).bind fun _ => keeps_pure _).ite
        ((keeps_rename ht hpath).bind fun _ => keeps_pure _)
  have hw : Keeps (writeNewFile (.temporary path m.pid m.tempSequence) (.secret secret)) :=
    (keeps_pathIsPresent _).bind fun _ =>
      ((keeps_throw _).bind fun _ => (keeps_write ht _).bind fun _ =>
        keeps_write ht _).ite
        ((keeps_write ht _).bind fun _ => keeps_write ht _)
  exact (hw.bind fun _ => hp.bind fun _ => (keeps_validateKeyFile _).bind fun _ =>
    keeps_pure _) m.nextTemp hm

theorem keeps_discardStaged : Keeps discardStaged :=
  (keeps_pathIsPresent _).bind fun _ =>
    ((keeps_validateKeyFile _).bind fun _ => keeps_removePrivateFile rfl).ite (keeps_pure _)

end Keeping

section Loading

variable {H : Type} [Sha256 H] [HashBytes H] {env : Env}

theorem keeps_recoverPending : Keeps (recoverPendingLocked H env) := by
  refine (keeps_pathIsPresent _).bind fun _ => keeps_discardStaged.ite ?_
  refine (keeps_readJournal _).bind fun journal => (keeps_core _).bind fun _ => ?_
  refine (keeps_core _).bind fun _ m hm => ?_
  rw [wp_bind]
  exact wp_mono (wp_retiredIdentities_disordered hm) (fun _ _ hf => hf.elim) fun _ _ hm' => hm'

theorem keeps_createKeys (seeds : Seeds) : Keeps (createKeys H env seeds) :=
  (keeps_createSecretOnce rfl _).bind fun _ => (keeps_createSecretOnce rfl _).bind fun _ =>
    (keeps_createSecretOnce rfl _).bind fun _ => (keeps_readSecret _).bind fun _ =>
      (keeps_readSecret _).bind fun _ => (keeps_readSecret _).bind fun _ => keeps_pure _

theorem keeps_validateCustomRecoveryLayout : Keeps (validateCustomRecoveryLayout env) :=
  ((keeps_pathIsPresent _).bind fun _ => (keeps_pathIsPresent _).bind fun _ =>
    (keeps_pathIsPresent _).bind fun _ => (keeps_throw _).ite (keeps_pure _)).ite (keeps_pure _)

theorem keeps_migrateLegacySuccessor : Keeps migrateLegacySuccessor := by
  have hm : Keeps (do
      validateKeyFile .legacySuccessor
      onDisk fun disk => disk.rename .legacySuccessor .successor
      validateKeyFile .successor) :=
    (keeps_validateKeyFile _).bind fun _ => (keeps_rename rfl rfl).bind fun _ =>
      keeps_validateKeyFile _
  exact (keeps_pathIsPresent _).bind fun _ => ((keeps_pathIsPresent _).bind fun _ =>
    ((keeps_throw _).bind fun _ => hm).ite hm).ite (keeps_pure _)

theorem keeps_loadOrCreateLocked (seeds : Seeds) : Keeps (loadOrCreateLocked H env seeds) := by
  refine (keeps_pathIsPresent _).bind fun _ => Keeps.ite ?_ ?_
  · refine keeps_validateCustomRecoveryLayout.bind fun _ => keeps_migrateLegacySuccessor.bind
      fun _ => (keeps_readSecret _).bind fun _ => (keeps_readSecret _).bind fun _ =>
        (keeps_pathIsPresent _).bind fun _ => Keeps.ite ?_ ?_
    · exact (keeps_createSecretOnce rfl _).bind fun _ => (keeps_readSecret _).bind fun _ =>
        keeps_pure _
    · exact (keeps_readSecret _).bind fun _ => keeps_pure _
  · have hc : Keeps (do
        if env.customRecovery then
          if ← pathIsPresent .defaultSuccessor then throw KeystoreError.recoveryMigration
        createKeys H env seeds) :=
      ((keeps_pathIsPresent _).bind fun _ => ((keeps_throw _).bind fun _ =>
        keeps_createKeys seeds).ite (keeps_createKeys seeds)).ite (keeps_createKeys seeds)
    exact (keeps_pathIsPresent _).bind fun _ => ((keeps_throw _).bind fun _ => hc).ite hc

variable (H env)

/-- A load of a disordered home is refused and leaves it disordered. -/
theorem load_refused (now : UInt64) (seeds : Seeds) (h : Files.Disordered m.file) :
    ∃ e, ((loadOrCreate H env now seeds).run m).value = .error e ∧
      Files.Disordered ((loadOrCreate H env now seeds).run m).final.file := by
  have hwp : wp (loadOrCreate H env now seeds) (fun _ => True) (fun _ _ => False)
      (fun _ m' => Files.Disordered m'.file) m := by
    unfold loadOrCreate retiredIdentitiesLocked
    rw [wp_bind]
    refine wp_mono (keeps_recoverPending m h) (fun _ m' hm' => ?_) fun _ _ hm' => hm'
    rw [wp_bind]
    refine wp_mono (keeps_loadOrCreateLocked seeds m' hm') (fun _ m' hm' => ?_) fun _ _ hm' => hm'
    rw [wp_bind, wp_bind]
    exact wp_mono (wp_retiredIdentities_disordered hm') (fun _ _ hf => hf.elim) fun _ _ hm' => hm'
  exact wp_error_of hwp

/-- A load of a process of its own. -/
structure LoadAttempt where
  pid : ℕ
  now : UInt64
  seeds : Seeds

def Disk.attempt (H : Type) [Sha256 H] [HashBytes H] (env : Env) (disk : Disk)
    (attempts : List LoadAttempt) : Disk :=
  attempts.foldl (fun disk attempt =>
    ((loadOrCreate H env attempt.now attempt.seeds).run (disk.boot attempt.pid)).final.disk) disk

/-- However often it is loaded, a disordered home stays refused. -/
theorem attempt_refused {disk : Disk} (h : Files.Disordered disk.file)
    (attempts : List LoadAttempt) (pid : ℕ) (now : UInt64) (seeds : Seeds) :
    ∃ e, ((loadOrCreate H env now seeds).run ((disk.attempt H env attempts).boot pid)).value =
      .error e := by
  induction attempts generalizing disk with
  | nil =>
    have hb : Files.Disordered (disk.boot pid).file := h
    obtain ⟨e, hv, -⟩ := load_refused H env now seeds hb
    exact ⟨e, hv⟩
  | cons attempt _ ih =>
    have hb : Files.Disordered (disk.boot attempt.pid).file := h
    obtain ⟨-, -, hd⟩ := load_refused H env attempt.now attempt.seeds hb
    exact ih hd

end Loading

end Pigeonpost.Keystore
