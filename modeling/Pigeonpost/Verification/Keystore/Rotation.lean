import Pigeonpost.Verification.Keystore.Retired

/-! # Completing a rotation

Every step of a rotation whose journal is written leads to a state from which the rest of
its steps can be done, so that recovery may start over any number of times. -/

namespace Pigeonpost.Keystore

open Script Function Files

open Script (wp)

section Steps

variable {H : Type} [Sha256 H] [HashBytes H] {env : Env} {files : Files}
  {journal : RotationJournal} {operating : Bytes32}

/-- The grace of a rotation begins with it. -/
theorem Sound.activatedAt_lt (h : Sound H env journal) :
    journal.record.activatedAt < journal.record.graceUntil := by
  have hv := h.valid
  simp only [validateJournal, RotationRecord.verify, ok_iff, not_or, not_not] at hv
  obtain ⟨-, -, -, -, -, -, -, ⟨⟨-, -, hg⟩, -⟩, -⟩ := hv
  rw [UInt64.lt_iff_toNat_lt, hg]
  unfold rotationGraceSecs
  omega

/-! ## The steps -/

namespace Pending

section

variable (h : Pending H env files journal)

include h

theorem custody_eq : files.custody env = ⟨some journal.record.toPubkey,
      update files.metadata journal.record.fromPubkey (some journal)⟩ := by
  simp only [custody, h.written]
  rfl

theorem retain {seed : Bytes32} (hseed : env.publicKey seed = journal.record.fromPubkey) :
    Pending H env (update files (.retiredKey journal.record.fromPubkey)
      (some (.secret seed))) journal := by
  have hk : ∀ stem, files (.retiredKey stem) ≠ none →
      update files (.retiredKey journal.record.fromPubkey) (some (.secret seed))
        (.retiredKey stem) ≠ none := by
    intro stem hstem
    by_cases heq : stem = journal.record.fromPubkey
    · simp [heq]
    · simpa [heq] using hstem
  refine
    { written := by simpa using h.written
      sound := h.sound
      legacy := by simpa using h.legacy
      default := by simpa using h.default
      token := by simpa using h.token
      operating := ?_
      successor := by simpa using h.successor
      retired := ?_
      unexpired := by simpa using h.unexpired }
  · obtain ⟨operating, ho, -, hinc⟩ := h.operating
    exact ⟨operating, by simpa using ho, .inr (by simp), by simpa using hinc⟩
  · obtain ⟨tidy, paired, key, metadata, bounded⟩ := h.retired
    constructor
    · rintro ⟨path, hpath, hretired, hstem⟩
      rw [update_of_ne (by rintro rfl; cases hstem)] at hpath
      exact tidy ⟨path, hpath, hretired, hstem⟩
    · rintro ⟨stem, hpre, ha⟩
      refine paired ⟨stem, by simpa using hpre, ?_⟩
      by_contra hkey
      exact hk stem hkey ha
    · intro stem content hc
      by_cases heq : stem = journal.record.fromPubkey
      · subst heq
        rw [update_self] at hc
        exact ⟨⟨seed, (Option.some.inj hc).symm, hseed⟩, .inr rfl⟩
      · rw [update_of_ne (by simpa using heq)] at hc
        simpa using key stem content hc
    · simpa using metadata
    · obtain ⟨stems, hl, hs, hp⟩ := bounded
      refine ⟨stems, hl, fun stem hstem => ?_, hp⟩
      by_cases heq : stem = journal.record.fromPubkey
      · exact hp stem (by simp [heq])
      · exact hs stem (by simpa [heq] using hstem)

section

variable (hr : files (.retiredKey journal.record.fromPubkey) ≠ none)

include hr

theorem promoteIncoming {incoming : Bytes32}
    (hinc : env.publicKey incoming = journal.record.toPubkey) :
    Pending H env (update files .operating (some (.secret incoming))) journal where
  written := by simpa using h.written
  sound := h.sound
  legacy := by simpa using h.legacy
  default := by simpa using h.default
  token := by simpa using h.token
  operating := ⟨incoming, by simp, .inr (by simpa using hr), .inl hinc⟩
  successor := by simpa using h.successor
  retired := h.retired.update rfl
  unexpired := by simpa using h.unexpired

theorem promoteNext {operating next : Bytes32} (ho : files .operating = some (.secret operating))
    (hinc : env.publicKey operating = journal.record.toPubkey)
    (hn : commitment H (env.publicKey next) = journal.record.nextSuccessorHash) :
    Pending H env (update files .successor (some (.secret next))) journal where
  written := by simpa using h.written
  sound := h.sound
  legacy := by simpa using h.legacy
  default := by simpa using h.default
  token := by simpa using h.token
  operating := ⟨operating, by simpa using ho, .inr (by simpa using hr), .inl hinc⟩
  successor := ⟨next, by simp, .inl hn⟩
  retired := h.retired.update rfl
  unexpired := by simpa using h.unexpired

theorem retire :
    Pending H env (update files (.retiredMetadata journal.record.fromPubkey)
      (some (.journal journal))) journal := by
  refine
    { written := by simpa using h.written
      sound := h.sound
      legacy := by simpa using h.legacy
      default := by simpa using h.default
      token := by simpa using h.token
      operating := by simpa using h.operating
      successor := by simpa using h.successor
      retired := ?_
      unexpired := ?_ }
  · obtain ⟨tidy, paired, key, metadata, bounded⟩ := h.retired
    constructor
    · rintro ⟨path, hpath, hin, hs⟩
      rw [update_of_ne (by rintro rfl; cases hs)] at hpath
      exact tidy ⟨path, hpath, hin, hs⟩
    · rintro ⟨stem, hp, ha⟩
      by_cases heq : stem = journal.record.fromPubkey
      · exact hr (heq ▸ ha)
      · exact paired ⟨stem, by simpa [heq] using hp, ha⟩
    · intro stem content hc
      refine ⟨(key stem content hc).1, ?_⟩
      by_cases heq : stem = journal.record.fromPubkey
      · exact .inl (by simp [heq])
      · simpa [heq] using (key stem content hc).2
    · intro stem content hc
      by_cases heq : stem = journal.record.fromPubkey
      · subst heq
        rw [update_self] at hc
        exact ⟨journal, (Option.some.inj hc).symm, h.sound, rfl⟩
      · rw [update_of_ne (by simpa using heq)] at hc
        exact metadata stem content hc
    · simpa using bounded
  · intro stem other ho
    by_cases heq : stem = journal.record.fromPubkey
    · subst heq
      rw [update_self] at ho
      cases ho
      exact h.sound.activatedAt_lt
    · rw [update_of_ne (by simpa using heq)] at ho
      exact h.unexpired stem other ho

end

theorem discard {successor : Bytes32} (hs : files .successor = some (.secret successor))
    (hn : commitment H (env.publicKey successor) = journal.record.nextSuccessorHash) :
    Pending H env (update files .stagedSuccessor none) journal where
  written := by simpa using h.written
  sound := h.sound
  legacy := by simpa using h.legacy
  default := by simpa using h.default
  token := by simpa using h.token
  operating := by simpa using h.operating
  successor := ⟨successor, by simpa using hs, .inl hn⟩
  retired := h.retired.update rfl
  unexpired := by simpa using h.unexpired

/-- The journal goes last. -/
theorem finish (hretired : files (.retiredMetadata journal.record.fromPubkey) ≠ none) :
    Idle H env (update files .rotationJournal none) := by
  obtain ⟨operating, ho, -⟩ := h.operating
  obtain ⟨successor, hs, -⟩ := h.successor
  obtain ⟨token, ht⟩ := h.token
  refine
    { unwritten := by simp
      legacy := by simpa using h.legacy
      default := by simpa using h.default
      operating := ?_
      successor := ?_
      token := ?_
      complete := ?_
      retired := ?_ }
  · intro content hc
    exact ⟨operating, by simpa [ho] using hc.symm⟩
  · intro content hc
    exact ⟨successor, by simpa [hs] using hc.symm⟩
  · intro content hc
    exact ⟨token, by simpa [ht] using hc.symm⟩
  · intro _
    exact ⟨by simp [hs], by simp [ht]⟩
  · have hu : RetiredOk H env (update files .rotationJournal none) _ := h.retired.update rfl
    obtain ⟨tidy, paired, key, metadata, stems, hl, hstems, -⟩ := hu
    refine ⟨tidy, paired, fun stem content hc => ?_, metadata, stems, hl, hstems, by simp⟩
    refine ⟨(key stem content hc).1, .inl ?_⟩
    rcases (key stem content hc).2 with hp | hpen
    · exact hp
    · cases hpen
      simpa using hretired

/-- The custody does not notice. -/
theorem custody_finish (ho : files .operating = some (.secret operating))
    (hinc : env.publicKey operating = journal.record.toPubkey)
    (hretired : files (.retiredMetadata journal.record.fromPubkey) = some (.journal journal)) :
    custody env (update files .rotationJournal none) = files.custody env := by
  have hm : metadata (update files .rotationJournal none) = files.metadata := by
    funext stem
    simp [metadata]
  have hk : operatingKey env (update files .rotationJournal none) =
      some journal.record.toPubkey := by
    simp [operatingKey, ho, hinc]
  have hs : update files.metadata journal.record.fromPubkey (some journal) = files.metadata := by
    simp [metadata, hretired]
  rw [h.custody_eq, hs, custody, update_self, hm, hk]

end

end Pending

/-! ## The programs -/

/-- A rotation is on its way: it is pending, and the other retired keys are as they were. -/
structure Progress (H : Type) [Sha256 H] [HashBytes H] (env : Env) (first files : Files)
    (journal : RotationJournal) : Prop where
  pending : Pending H env files journal
  others : ∀ stem, stem ≠ journal.record.fromPubkey →
    files (.retiredMetadata stem) = first (.retiredMetadata stem)

variable {first : Files}

theorem Progress.custody_eq (h : Progress H env first files journal)
    (hf : Pending H env first journal) : files.custody env = first.custody env := by
  rw [h.pending.custody_eq, hf.custody_eq]
  congr 1
  funext stem
  by_cases heq : stem = journal.record.fromPubkey
  · simp [heq]
  · simp [heq, metadata, h.others stem heq]

variable {through : Machine → Prop} {fail : KeystoreError → Machine → Prop} {m : Machine}
  {content : Option Content} {path : Path}

theorem Progress.update (h : Progress H env first files journal)
    (hp : Pending H env (update files path content) journal)
    (hne : ∀ stem, stem ≠ journal.record.fromPubkey → .retiredMetadata stem ≠ path) :
    Progress H env first (update files path content) journal where
  pending := hp
  others stem hstem := by
    rw [update_of_ne (hne stem hstem)]
    exact h.others stem hstem

theorem Progress.beside (h : Progress H env first files journal) (hp : path.Beside)
    (hs : Path.stagedSuccessor ≠ path) :
    Progress H env first (Function.update files path content) journal :=
  h.update (h.pending.beside hp hs) fun _ _ => hp.ne id

theorem wp_prepareRetiredMetadataStaging {post : Path → Machine → Prop} (hc : m.Unclaimed)
    (ht : through m)
    (hp : ∀ m', m'.Unclaimed → m'.file = update m.file .retiredStaging none →
      post .retiredStaging m') :
    wp prepareRetiredMetadataStaging through post fail m := by
  unfold prepareRetiredMetadataStaging
  exact wp_removeIfPresent hc trivial ht fun m' hm' hf =>
    (wp_pure _).mpr (hp m' hm' hf)

section

variable (hc : m.Unclaimed) (h : Progress H env first m.file journal)
  (ht : ∀ m', Progress H env first m'.file journal → through m')

include hc h ht

theorem wp_retainOutgoing {post : Bytes32 → Machine → Prop}
    (hstray : ∀ m', Files.Stray m'.file → through m')
    (hpost : ∀ m' seed, m'.Unclaimed → Progress H env first m'.file journal →
      env.publicKey seed = journal.record.fromPubkey →
        m'.file (.retiredKey journal.record.fromPubkey) ≠ none → post seed m') :
    wp (retainOutgoing env journal) through post fail m := by
  unfold retainOutgoing
  simp only [wp_bind, wp_pathIsPresent]
  rcases hk : m.file (.retiredKey journal.record.fromPubkey) with _ | content
  · obtain ⟨operating, ho, hout, -⟩ := h.pending.operating
    have hs : env.publicKey operating = journal.record.fromPubkey :=
      hout.resolve_right fun hp => hp hk
    simp only [Option.isSome_none, Bool.false_eq_true, if_false, wp_bind]
    rw [wp_readSecret ho]
    simp only [hs, ne_eq, not_true_eq_false, if_false, wp_bind]
    refine wp_createSecretOnce hc trivial (fun m' content hf => ?_)
      (fun hp => absurd hk hp) fun _ m' hm' hf => ?_
    · -- the temporary file is in the directory of the retired keys
      cases content with
      | none =>
        rw [← hc.temp (.retiredKey journal.record.fromPubkey) _ (Nat.le_refl _),
          update_eq_self] at hf
        exact ht m' (hf ▸ h)
      | some =>
        refine hstray m' ⟨.temporary (.retiredKey journal.record.fromPubkey) m.pid m.tempSequence,
          ?_, rfl, rfl⟩
        rw [hf, update_self]
        exact Option.some_ne_none _
    · refine (wp_pure _).mpr (hpost m' operating hm' ?_ hs ?_)
      · rw [hf]
        exact h.update (h.pending.retain hs) (by simp)
      · rw [hf, update_self]
        exact Option.some_ne_none _
  · obtain ⟨⟨seed, rfl, hs⟩, -⟩ := h.pending.retired.key _ content hk
    simp only [Option.isSome_some, if_true]
    rw [wp_readSecret hk]
    exact hpost m seed hc h hs (by simp [hk])

variable {post : Unit → Machine → Prop}

theorem wp_promoteIncoming (hretired : m.file (.retiredKey journal.record.fromPubkey) ≠ none)
    (hp : ∀ m' operating, m'.Unclaimed → Progress H env first m'.file journal →
      m'.file (.retiredKey journal.record.fromPubkey) ≠ none →
      m'.file .operating = some (.secret operating) →
      env.publicKey operating = journal.record.toPubkey → post () m') :
    wp (promoteIncoming env journal) through post fail m := by
  obtain ⟨operating, ho, -, hinc⟩ := h.pending.operating
  unfold promoteIncoming
  rw [wp_bind, wp_readIfPresent ho, Option.map_some, wp_ite]
  refine ⟨fun hother => ?_, fun hsame => ?_⟩
  · obtain ⟨incoming, hs, hk⟩ := hinc.resolve_left fun heq => hother (by rw [heq])
    rw [wp_bind, wp_readSecret hs]
    simp only [hk, ne_eq, not_true_eq_false, if_false]
    refine wp_replaceFile hc trivial (fun m' content hf => ht m' ?_) fun m' hm' hf => ?_
    · rw [hf]
      exact h.beside rfl (by simp)
    · refine hp m' incoming hm' ?_ ?_ ?_ hk
      · rw [hf]
        exact h.update (h.pending.promoteIncoming hretired hk) (by simp)
      · rw [hf]
        exact hretired
      · rw [hf, update_self]
  · exact (wp_pure _).mpr (hp m operating hc h hretired ho (Option.some.inj (not_not.mp hsame)))

theorem wp_promoteNext
    (hretired : m.file (.retiredKey journal.record.fromPubkey) ≠ none)
    (ho : m.file .operating = some (.secret operating))
    (hinc : env.publicKey operating = journal.record.toPubkey)
    (hp : ∀ m' successor, m'.Unclaimed → Progress H env first m'.file journal →
      m'.file (.retiredKey journal.record.fromPubkey) ≠ none →
      m'.file .operating = some (.secret operating) →
      m'.file .successor = some (.secret successor) →
      commitment H (env.publicKey successor) = journal.record.nextSuccessorHash → post () m') :
    wp (promoteNext H env journal) through post fail m := by
  obtain ⟨successor, hs, hn⟩ := h.pending.successor
  unfold promoteNext
  rw [wp_bind, wp_readIfPresent hs, Option.map_some, comp_apply, wp_ite]
  refine ⟨fun hother => ?_, fun hsame => ?_⟩
  · obtain ⟨next, hsta, hcom⟩ := hn.resolve_left fun heq => hother (by rw [heq])
    rw [wp_bind, wp_readSecret hsta]
    simp only [hcom, ne_eq, not_true_eq_false, if_false]
    refine wp_replaceFile hc trivial (fun m' content hf => ht m' ?_) fun m' hm' hf => ?_
    · rw [hf]
      exact h.beside rfl (by simp)
    · refine hp m' next hm' ?_ ?_ ?_ ?_ hcom
      · rw [hf]
        exact h.update (h.pending.promoteNext hretired ho hinc hcom) (by simp)
      · rw [hf, update_of_ne (by simp)]
        exact hretired
      · rw [hf, update_of_ne (by simp)]
        exact ho
      · rw [hf, update_self]
  · exact (wp_pure _).mpr (hp m successor hc h hretired ho hs (Option.some.inj (not_not.mp hsame)))

theorem wp_writeRetiredMetadata
    (hpost : ∀ m' : Machine, m'.Unclaimed → m'.file = update (update m.file
      .retiredStaging none) (.retiredMetadata journal.record.fromPubkey)
        (some (.journal journal)) → post () m') :
    wp (writeRetiredMetadataReplacing env (.retiredMetadata journal.record.fromPubkey) journal)
      through post fail m := by
  have hb : ¬ env.journalBytes journal > maxJournalBytes := Nat.not_lt.mpr h.pending.sound.bounded
  unfold writeRetiredMetadataReplacing
  simp only [hb, if_false, wp_bind]
  refine wp_prepareRetiredMetadataStaging hc (ht m h) fun cleared hc hf => ?_
  refine wp_writeAndPublish (by rw [hf, update_self]) (fun m' content hf' => ht m' ?_)
    fun f hf' => hpost _ (hc.update hf' trivial rfl (Nat.le_refl _) (Nat.le_refl _)) (hf ▸ hf')
  rw [hf', hf, update_idem]
  exact h.beside trivial (by simp)

end

theorem Pending.room (h : Pending H env files journal)
    (ha : files (.retiredKey journal.record.fromPubkey) = none) :
    ∃ stems : List Bytes32, stems.length < maxLiveRetiredIdentities ∧
      ∀ stem, files (.retiredKey stem) ≠ none → stem ∈ stems := by
  obtain ⟨stems, hl, hstems, hp⟩ := h.retired.bounded
  have hm : journal.record.fromPubkey ∈ stems := hp _ rfl
  refine ⟨stems.erase journal.record.fromPubkey, ?_, fun stem hs => ?_⟩
  · have hpos := List.length_pos_of_mem hm
    rw [List.length_erase_of_mem hm]
    omega
  · refine (List.mem_erase_of_ne ?_).mpr (hstems stem hs)
    rintro rfl
    exact hs ha

theorem wp_completeRotation {post : Unit → Machine → Prop} (hc : m.Unclaimed)
    (h : Pending H env m.file journal)
    (hstray : ∀ m', Files.Stray m'.file → through m')
    (ho : ∀ m', Files.Orphaned m'.file → through m')
    (ht : ∀ m', Pending H env m'.file journal →
      custody env m'.file = custody env m.file → through m')
    (hpost : ∀ m', m'.Unclaimed → Resting H env (custody env m.file) m'.file →
      m'.file .stagedSuccessor = none → post () m') :
    wp (completeRotationLocked H env journal) through post fail m := by
  have hpas : ∀ m', Progress H env m.file m'.file journal → through m' := fun m' hm' =>
    ht m' hm'.pending (hm'.custody_eq h)
  have hstart : Progress H env m.file m.file journal := ⟨h, fun _ _ => rfl⟩
  unfold completeRotationLocked
  rw [h.sound.valid, wp_bind, wp_core_ok, wp_bind]
  refine wp_retiredIdentitiesAndLiveCount _ _ hc h.retired ho
    (fun m' hcle => hpas m' ?_) fun m1 result hc hcount hv => ?_
  · rw [hcle.eq_of_unexpired h.unexpired]
    exact hstart
  have hf : m1.file = m.file := hv.cleaned.eq_of_unexpired h.unexpired
  have hl : ¬ ((!(m1.file (.retiredKey journal.record.fromPubkey)).isSome) = true ∧
      (!(m1.file (.retiredMetadata journal.record.fromPubkey)).isSome) = true ∧
        result.2 ≥ maxLiveRetiredIdentities) := by
    rintro ⟨ha, -, hlive⟩
    obtain ⟨stems, hlen, hstems⟩ := h.room (by simpa [hf] using ha)
    have hle := hcount stems hstems
    omega
  simp only [wp_bind, wp_pathIsPresent, hl, if_false]
  refine wp_prepareRetiredMetadataStaging hc (hpas m1 (hf ▸ hstart)) fun m2 hc hf2 => ?_
  have hp : Progress H env m.file m2.file journal := by
    rw [hf2, hf]
    exact hstart.beside trivial (by simp)
  rw [wp_bind]
  refine wp_retainOutgoing hc hp hpas hstray fun m3 outgoing hc hp hout hr => ?_
  simp only [hout, ne_eq, not_true_eq_false, if_false, wp_bind]
  refine wp_promoteIncoming hc hp hpas hr fun m4 operating hc hp hr ho hinc => ?_
  rw [wp_bind]
  refine wp_promoteNext hc hp hpas hr ho hinc fun m5 successor hc hp hr ho hsuc hn => ?_
  rw [wp_bind]
  refine wp_writeRetiredMetadata hc hp hpas fun m6 hc hf6 => ?_
  -- the rotation is done; what is left is to clear its traces
  have hsta : Progress H env m.file (update m5.file .retiredStaging none) journal :=
    hp.beside trivial (by simp)
  have hp : Progress H env m.file m6.file journal := by
    rw [hf6]
    exact hsta.update (hsta.pending.retire (by simpa using hr)) (by simp)
  refine wp_removeIfPresent hc trivial (hpas m6 hp) fun m7 hc hf7 => ?_
  have hpen : Pending H env m7.file journal := by
    rw [hf7]
    exact hp.pending.discard (by simpa [hf6] using hsuc) hn
  have hm : m7.file (.retiredMetadata journal.record.fromPubkey) = some (.journal journal) := by
    simp [hf7, hf6]
  have hp : Progress H env m.file m7.file journal := by
    rw [hf7] at hpen ⊢
    exact hp.update hpen (by simp)
  rw [wp_removePrivateFile (by simp [hpen.written])]
  refine ⟨hpas m7 hp, hpost _ (hc.remove trivial) ?_ (by simp [hf7])⟩
  rw [Machine.file_remove]
  refine ⟨hpen.finish (by simp [hm]), ?_⟩
  rw [hpen.custody_finish (by simpa [hf7, hf6] using ho) hinc hm]
  exact hp.custody_eq h

end Steps

end Pigeonpost.Keystore
