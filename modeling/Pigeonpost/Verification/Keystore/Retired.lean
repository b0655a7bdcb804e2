import Pigeonpost.Verification.Keystore.Custody

/-! # The directory of the retired keys

A visit of the directory removes the keys whose grace has ended, each with its metadata,
and lists the others. -/

namespace Pigeonpost.Keystore

open Script Function List Files

open Script (wp)

/-- Pairs whose grace has ended may be gone, and nothing else has changed. -/
structure Cleaned (now : UInt64) (before after : Files) : Prop where
  other : ∀ path : Path, path.stem = none → after path = before path
  pair : ∀ stem, (after (.retiredKey stem) = before (.retiredKey stem) ∧
      after (.retiredMetadata stem) = before (.retiredMetadata stem)) ∨
    (after (.retiredKey stem) = none ∧ after (.retiredMetadata stem) = none ∧
      ∃ journal, before (.retiredMetadata stem) = some (.journal journal) ∧
        journal.record.graceUntil ≤ now)

variable {stem : Bytes32} {journal : RotationJournal} {content : Content} {pending : Option Bytes32}
  {now : UInt64}

namespace Cleaned

variable {now : UInt64} {before after last : Files}

theorem refl (now : UInt64) (files : Files) : Cleaned now files files :=
  ⟨fun _ _ => rfl, fun _ => .inl ⟨rfl, rfl⟩⟩

section

variable (h : Cleaned now before after)

include h

theorem trans (h' : Cleaned now after last) : Cleaned now before last := by
  refine ⟨fun path hp => (h'.other path hp).trans (h.other path hp), fun stem => ?_⟩
  rcases h'.pair stem with ⟨hk, hm⟩ | ⟨hk, hm, journal, hj, he⟩
  · rw [hk, hm]
    exact h.pair stem
  · rcases h.pair stem with ⟨-, hs⟩ | ⟨-, hg, -⟩
    · exact .inr ⟨hk, hm, journal, hs ▸ hj, he⟩
    · rw [hg] at hj
      cases hj

/-- What is there afterwards was there before. -/
theorem metadata (ha : after (.retiredMetadata stem) = some content) :
    before (.retiredMetadata stem) = some content ∧
      after (.retiredKey stem) = before (.retiredKey stem) := by
  rcases h.pair stem with ⟨hk, hm⟩ | ⟨-, hg, -⟩
  · exact ⟨hm ▸ ha, hk⟩
  · rw [hg] at ha
    cases ha

theorem gone (hb : before (.retiredMetadata stem) = none) :
    after (.retiredMetadata stem) = none := by
  rcases h.pair stem with ⟨-, hm⟩ | ⟨-, hg, -⟩
  · rw [hm, hb]
  · exact hg

theorem key (ha : after (.retiredKey stem) = some content) :
    before (.retiredKey stem) = some content ∧
      after (.retiredMetadata stem) = before (.retiredMetadata stem) := by
  rcases h.pair stem with ⟨hk, hm⟩ | ⟨hg, -, -⟩
  · exact ⟨hk ▸ ha, hm⟩
  · rw [hg] at ha
    cases ha

/-- Metadata whose grace goes on stays. -/
theorem keeps (hb : before (.retiredMetadata stem) = some (.journal journal))
    (hg : now < journal.record.graceUntil) :
    after (.retiredMetadata stem) = some (.journal journal) := by
  rcases h.pair stem with ⟨-, hm⟩ | ⟨-, -, other, ho, he⟩
  · rw [hm, hb]
  · rw [hb] at ho
    cases ho
    exact absurd hg (UInt64.not_lt.mpr he)

variable {H : Type} [Sha256 H] [HashBytes H] {env : Env}

theorem retiredOk (hok : RetiredOk H env before pending) : RetiredOk H env after pending := by
  constructor
  · rintro ⟨path, hpath, hr, hstem⟩
    rw [h.other path hstem] at hpath
    exact hok.tidy ⟨path, hpath, hr, hstem⟩
  · rintro ⟨stem, hp, ha⟩
    obtain ⟨content, hc⟩ := Option.ne_none_iff_exists'.mp hp
    obtain ⟨hb, hk⟩ := h.metadata hc
    refine hok.paired ⟨stem, ?_, hk ▸ ha⟩
    rw [hb]
    exact Option.some_ne_none _
  · intro stem content hc
    obtain ⟨hb, hm⟩ := h.key hc
    rw [hm]
    exact hok.key stem content hb
  · intro stem content hc
    exact hok.metadata stem content (h.metadata hc).1
  · obtain ⟨stems, hl, hs, hpen⟩ := hok.bounded
    refine ⟨stems, hl, fun stem hp => hs stem ?_, hpen⟩
    obtain ⟨content, hc⟩ := Option.ne_none_iff_exists'.mp hp
    rw [(h.key hc).1]
    exact Option.some_ne_none _

theorem idle (hidle : Idle H env before) : Idle H env after where
  unwritten := (h.other _ rfl).trans hidle.unwritten
  legacy := (h.other _ rfl).trans hidle.legacy
  default := (h.other _ rfl).trans hidle.default
  operating content hc :=
    hidle.operating content ((h.other .operating rfl).symm.trans hc)
  successor content hc :=
    hidle.successor content ((h.other .successor rfl).symm.trans hc)
  token content hc :=
    hidle.token content ((h.other .tokenSecret rfl).symm.trans hc)
  complete := by
    rw [h.other _ rfl, h.other _ rfl, h.other _ rfl]
    exact hidle.complete
  retired := h.retiredOk hidle.retired

/-- Nothing goes where nothing has expired. -/
theorem eq_of_unexpired
    (hu : ∀ stem journal, before (.retiredMetadata stem) = some (.journal journal) →
      now < journal.record.graceUntil) : after = before := by
  have hp : ∀ stem, after (.retiredKey stem) = before (.retiredKey stem) ∧
      after (.retiredMetadata stem) = before (.retiredMetadata stem) := by
    intro stem
    rcases h.pair stem with hs | ⟨-, -, journal, hj, he⟩
    · exact hs
    · exact absurd (hu stem journal hj) (UInt64.not_lt.mpr he)
  funext path
  cases path with
  | retiredKey stem => exact (hp stem).1
  | retiredMetadata stem => exact (hp stem).2
  | _ => exact h.other _ rfl

theorem expires {start : Custody} (hr : Resting H env start before) :
    Custody.Expires now start (after.custody env) := by
  rw [← hr.custody_eq, hr.idle.custody_eq, (h.idle hr.idle).custody_eq]
  constructor
  · simp only [operatingKey, h.other .operating rfl]
  · intro stem
    rcases h.pair stem with ⟨-, hm⟩ | ⟨-, hg, journal, hj, he⟩
    · exact .inl (by simp only [Files.metadata, hm])
    · exact .inr ⟨by simp only [Files.metadata, hg], journal, by simp only [Files.metadata, hj], he⟩

end

end Cleaned

/-! ## A visit -/

/-- What a visit of some pairs came to. -/
structure Visited (env : Env) (now : UInt64) (before after : Files) (seen : Bytes32 → Prop)
    (result : List RetiredIdentity × ℕ) : Prop where
  cleaned : Cleaned now before after
  unexpired : ∀ stem journal, seen stem →
    after (.retiredMetadata stem) = some (.journal journal) → now < journal.record.graceUntil
  listed : ∀ stem journal, seen stem → after (.retiredMetadata stem) = some (.journal journal) →
    journal.record.activatedAt ≤ now →
      ∃ retired ∈ result.1, retired.journal = journal ∧ env.publicKey retired.identity = stem
  counted : ∃ stems : List Bytes32, stems.length = result.2 ∧
    ∀ stem, seen stem → after (.retiredMetadata stem) ≠ none → stem ∈ stems

namespace Visited

variable {env : Env} {now : UInt64} {before after : Files} {seen seen' : Bytes32 → Prop}
  {result : List RetiredIdentity × ℕ}

section

variable (h : Visited env now before after seen result)

include h

/-- A pair without metadata in the end adds nothing. -/
theorem mono (hs : ∀ stem, seen' stem → after (.retiredMetadata stem) ≠ none → seen stem) :
    Visited env now before after seen' result where
  cleaned := h.cleaned
  unexpired stem journal hseen hj :=
    h.unexpired stem journal (hs stem hseen (by simp [hj])) hj
  listed stem journal hseen hj := h.listed stem journal (hs stem hseen (by simp [hj])) hj
  counted := by
    obtain ⟨stems, hl, hm⟩ := h.counted
    exact ⟨stems, hl, fun stem hseen hp => hm stem (hs stem hseen hp) hp⟩

theorem live {retired : List RetiredIdentity}
    (hs : ∀ other, seen' other → other = stem ∨ seen other)
    (hb : before (.retiredMetadata stem) = some (.journal journal))
    (hg : now < journal.record.graceUntil) (hsub : ∀ one ∈ result.1, one ∈ retired)
    (hl : journal.record.activatedAt ≤ now → ∃ one ∈ retired, one.journal = journal ∧
      env.publicKey one.identity = stem) :
    Visited env now before after seen' (retired, result.2 + 1) where
  cleaned := h.cleaned
  unexpired other found ho hf := by
    rcases hs other ho with rfl | ho
    · rw [h.cleaned.keeps hb hg] at hf
      cases hf
      exact hg
    · exact h.unexpired other found ho hf
  listed other found ho hf ha := by
    rcases hs other ho with rfl | ho
    · rw [h.cleaned.keeps hb hg] at hf
      cases hf
      exact hl ha
    · obtain ⟨one, hone, hj⟩ := h.listed other found ho hf ha
      exact ⟨one, hsub one hone, hj⟩
  counted := by
    obtain ⟨stems, hlen, hm⟩ := h.counted
    refine ⟨stem :: stems, by simp [hlen], fun other ho hp => ?_⟩
    rcases hs other ho with rfl | ho
    · exact mem_cons_self
    · exact mem_cons_of_mem _ (hm other ho hp)

theorem of_cleaned {first : Files}
    (hc : Cleaned now first before) : Visited env now first after seen result :=
  ⟨hc.trans h.cleaned, h.unexpired, h.listed, h.counted⟩

end

end Visited

/-- The pair as it is in the directory. -/
structure Pair.Shows (pair : Pair) (files : Files) : Prop where
  key : pair.key = (files (.retiredKey pair.stem)).isSome
  metadata : pair.metadata = (files (.retiredMetadata pair.stem)).isSome
  present : files (.retiredKey pair.stem) ≠ none

theorem Pair.Shows.congr {pair : Pair} {files files' : Files} (h : pair.Shows files)
    (hk : files' (.retiredKey pair.stem) = files (.retiredKey pair.stem))
    (hm : files' (.retiredMetadata pair.stem) = files (.retiredMetadata pair.stem)) :
    pair.Shows files' :=
  ⟨hk ▸ h.key, hm ▸ h.metadata, hk ▸ h.present⟩

/-- An expired pair is removed in two steps, and its metadata stands alone in between. -/
theorem cleaned_remove {files : Files}
    (hm : files (.retiredMetadata stem) = some (.journal journal))
    (he : journal.record.graceUntil ≤ now) :
    Cleaned now files (update (update files (.retiredKey stem) none)
      (.retiredMetadata stem) none) := by
  constructor
  · intro path hp
    rw [update_of_ne, update_of_ne]
    all_goals
      rintro rfl
      cases hp
  · intro other
    by_cases heq : other = stem
    · subst heq
      exact .inr ⟨by simp, by simp, journal, hm, he⟩
    · exact .inl ⟨by simp [heq], by simp [heq]⟩

section Visits

variable {H : Type} [Sha256 H] [HashBytes H] {env : Env} {through : Machine → Prop}
  {fail : KeystoreError → Machine → Prop} {post : List RetiredIdentity × ℕ → Machine → Prop}

theorem wp_visitPairs (now : UInt64)
    (pending : Option Bytes32) (visited : List Pair) (m : Machine) (hc : m.Unclaimed)
    (hok : RetiredOk H env m.file pending) (hshows : ∀ pair ∈ visited, pair.Shows m.file)
    (hn : (visited.map Pair.stem).Nodup)
    (horp : ∀ m', Files.Orphaned m'.file → through m')
    (ht : ∀ m', Cleaned now m.file m'.file → through m')
    (hpost : ∀ m' result, m'.Unclaimed → result.2 ≤ visited.length →
      Visited env now m.file m'.file (· ∈ visited.map Pair.stem) result → post result m') :
    wp (visitPairs H env now pending visited) through post fail m := by
  induction visited generalizing m post with
  | nil =>
    refine (wp_pure _).mpr (hpost m _ hc (Nat.le_refl _) ?_)
    exact ⟨.refl now _, by simp, by simp, [], rfl, by simp⟩
  | cons pair rest ih =>
    rw [map_cons, nodup_cons] at hn
    have hp := hshows pair mem_cons_self
    obtain ⟨content, hkf⟩ := Option.ne_none_iff_exists'.mp hp.present
    obtain ⟨⟨seed, rfl, hseed⟩, hm⟩ := hok.key pair.stem content hkf
    have hk : pair.key = true := by rw [hp.key, hkf]; rfl
    have hrest : ∀ other ∈ rest, other.Shows m.file := fun other ho =>
      hshows other (mem_cons_of_mem _ ho)
    have hcons : ∀ stem, stem ∈ (pair :: rest).map Pair.stem →
        stem = pair.stem ∨ stem ∈ rest.map Pair.stem := fun _ => mem_cons.mp
    unfold visitPairs
    by_cases hnone : m.file (.retiredMetadata pair.stem) = none
    · -- the key that is being retired
      have hpen : pending = some pair.stem := hm.resolve_left fun h => h hnone
      have hmis : pair.metadata = false := by rw [hp.metadata, hnone]; rfl
      simp only [hmis, hk, hpen, Bool.not_false, and_self, if_true, wp_bind]
      rw [wp_validateKeyFile hp.present, ← hpen]
      refine ih m hc hok hrest hn.2 ht fun m' result hm' hle hv => ?_
      refine hpost m' result hm' (hle.trans (Nat.le_succ _)) (hv.mono fun stem hs hp => ?_)
      refine (hcons stem hs).resolve_left ?_
      rintro rfl
      exact hp (hv.cleaned.gone hnone)
    · obtain ⟨content, hmf⟩ := Option.ne_none_iff_exists'.mp hnone
      obtain ⟨journal, rfl, hsound, hstem⟩ := hok.metadata pair.stem content hmf
      have hthere : pair.metadata = true := by rw [hp.metadata, hmf]; rfl
      simp only [hthere, hk, Bool.not_true, Bool.false_eq_true, false_and, or_self, if_false,
        wp_bind]
      rw [wp_readJournal hmf, hsound.valid, wp_bind, wp_core_ok]
      simp only [hstem, ne_eq, not_true_eq_false, if_false, wp_bind]
      rw [wp_validateKeyFile hp.present, wp_ite]
      refine ⟨fun he => ?_, fun hl => ?_⟩
      · rw [wp_bind, wp_removePrivateFile hp.present]
        refine ⟨ht m (.refl now _), ?_⟩
        rw [wp_bind, wp_removePrivateFile (by simp [hmf])]
        refine ⟨horp _ ⟨pair.stem, by simp [hmf], by simp⟩, ?_⟩
        generalize hr : ((m.onDisk fun disk => disk.remove _).onDisk fun disk =>
          disk.remove _) = removed
        have hf : removed.file = update (update m.file
            (.retiredKey pair.stem) none) (.retiredMetadata pair.stem) none := by
          rw [← hr, Machine.file_remove, Machine.file_remove]
        have hcle : Cleaned now m.file removed.file := by
          rw [hf]
          exact cleaned_remove hmf he
        have hu : removed.Unclaimed := by
          rw [← hr]
          refine Machine.Unclaimed.remove ?_ trivial
          exact hc.remove trivial
        refine ih removed hu (hcle.retiredOk hok) (fun other ho => ?_) hn.2
          (fun m' h => ht m' (hcle.trans h)) fun m' result hm' hle hv => ?_
        · have hne : other.stem ≠ pair.stem := fun heq =>
            hn.1 (heq ▸ mem_map_of_mem ho)
          exact (hrest other ho).congr (by simp [hf, hne]) (by simp [hf, hne])
        · refine hpost m' result hm' (hle.trans (Nat.le_succ _))
            ((hv.of_cleaned hcle).mono fun stem hs hp => (hcons stem hs).resolve_left ?_)
          rintro rfl
          exact hp (hv.cleaned.gone (by rw [hf, update_self]))
      · rw [wp_ite]
        refine ⟨fun hina => ?_, fun ha => ?_⟩
        · rw [wp_bind]
          refine ih m hc hok hrest hn.2 ht fun m' result hm' hle hv => ?_
          refine (wp_pure _).mpr (hpost m' _ hm' (Nat.succ_le_succ hle) ?_)
          exact hv.live hcons hmf (UInt64.not_le.mp hl) (fun _ h => h)
            fun h => absurd hina (UInt64.not_lt.mpr h)
        · rw [wp_bind, wp_readSecret hkf]
          simp only [hseed, not_true_eq_false, if_false, wp_bind]
          refine ih m hc hok hrest hn.2 ht fun m' result hm' hle hv => ?_
          refine (wp_pure _).mpr (hpost m' _ hm' (Nat.succ_le_succ hle) ?_)
          exact hv.live hcons hmf (UInt64.not_le.mp hl) (fun _ h => mem_cons_of_mem _ h)
            fun _ => ⟨⟨seed, journal⟩, mem_cons_self, rfl, hseed⟩

/-! ## The whole directory -/

namespace RetiredOk

variable {disk : Disk} {pending : Option Bytes32}

section

variable (h : RetiredOk H env disk.file pending)

include h

theorem mem_stems (stem : Bytes32) : stem ∈ disk.stems ↔ disk.file (.retiredKey stem) ≠ none := by
  rw [Disk.mem_stems]
  refine ⟨fun hp => ?_, .inl⟩
  rcases hp with hk | hm
  · exact hk
  · exact fun hn => h.paired ⟨stem, hm, hn⟩

theorem stem_isSome {path : Path} (hp : path ∈ disk.retiredEntries) : path.stem.isSome = true := by
  rw [Disk.mem_retiredEntries] at hp
  by_contra hs
  exact h.tidy ⟨path, hp.1, hp.2, by simpa using hs⟩

/-- Every stem has two names. -/
theorem length_retiredEntries : disk.retiredEntries.length ≤ maxRetiredDirectoryEntries := by
  obtain ⟨stems, hl, hs, -⟩ := h.bounded
  have hsub : disk.retiredEntries ⊆
      stems.map Path.retiredKey ++ stems.map Path.retiredMetadata := by
    intro path hp
    have hsome := h.stem_isSome hp
    rw [Disk.mem_retiredEntries] at hp
    rw [mem_append, mem_map, mem_map]
    cases path with
    | retiredKey stem => exact .inl ⟨stem, hs stem hp.1, rfl⟩
    | retiredMetadata stem =>
      have hk := (h.mem_stems stem).mp ((Disk.mem_stems disk stem).mpr (.inr hp.1))
      exact .inr ⟨stem, hs stem hk, rfl⟩
    | _ => cases hsome
  have hn : disk.retiredEntries.Nodup := disk.files.keys_nodup.filter _
  have hle := (subperm_of_subset hn hsub).length_le
  rw [length_append, length_map, length_map] at hle
  unfold maxRetiredDirectoryEntries
  omega

theorem shows {pair : Pair} (hp : pair ∈ pairs disk) : pair.Shows disk.file := by
  obtain ⟨stem, hs, rfl⟩ := mem_map.mp hp
  exact ⟨rfl, rfl, (h.mem_stems stem).mp hs⟩

end

end RetiredOk

theorem wp_retiredIdentitiesAndLiveCount
    (now : UInt64) (pending : Option Bytes32) {m : Machine} (hc : m.Unclaimed)
    (hok : RetiredOk H env m.file pending)
    (ho : ∀ m', Files.Orphaned m'.file → through m')
    (ht : ∀ m', Cleaned now m.file m'.file → through m')
    (hp : ∀ m' result, m'.Unclaimed → (∀ stems : List Bytes32,
      (∀ stem, m.file (.retiredKey stem) ≠ none → stem ∈ stems) → result.2 ≤ stems.length) →
      Visited env now m.file m'.file (fun _ => True) result → post result m') :
    wp (retiredIdentitiesAndLiveCountLocked H env now pending) through post fail m := by
  have he := Nat.not_lt.mpr hok.length_retiredEntries
  have hstems := all_eq_true.mpr fun path hpath => hok.stem_isSome hpath
  unfold retiredIdentitiesAndLiveCountLocked
  simp only [wp_bind, wp_readMachine, he, hstems, if_false, Bool.not_true, Bool.false_eq_true]
  refine wp_visitPairs now pending _ m hc hok (fun pair hpair => hok.shows hpair)
    (map_stem_pairs m.disk ▸ m.disk.nodup_stems) ho ht fun m' result hm' hle hv => ?_
  rw [map_stem_pairs] at hv
  have hcount : ∀ stems : List Bytes32,
      (∀ stem, m.file (.retiredKey stem) ≠ none → stem ∈ stems) → result.2 ≤ stems.length := by
    intro stems hs
    have hsub : m.disk.stems ⊆ stems := fun stem hstem => hs stem ((hok.mem_stems stem).mp hstem)
    refine hle.trans ?_
    rw [pairs, length_map]
    exact (subperm_of_subset m.disk.nodup_stems hsub).length_le
  obtain ⟨stems, hl, hcov, -⟩ := hok.bounded
  have hlive : ¬ result.2 > maxLiveRetiredIdentities :=
    Nat.not_lt.mpr ((hcount stems hcov).trans hl)
  simp only [hlive, if_false, wp_pure]
  refine hp m' _ hm' hcount (hv.mono fun stem _ hpre => ?_)
  obtain ⟨content, hm⟩ := Option.ne_none_iff_exists'.mp hpre
  rw [Disk.mem_stems]
  refine .inr fun hnone => ?_
  cases hnone.symm.trans (hv.cleaned.metadata hm).1

end Visits

end Pigeonpost.Keystore
