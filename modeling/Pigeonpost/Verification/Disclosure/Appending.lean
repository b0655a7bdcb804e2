import Pigeonpost.Verification.Disclosure.CrashPoints

/-! # Appending, stopped anywhere

An append announces the leaf in the state file, writes its record byte by byte, syncs
it and settles the state. -/

namespace Pigeonpost

open Script DisclosureLedger List

/-- The ledger file of `stop` has grown by `written`, and nothing else has changed but its
change time. -/
structure Grown (disk stop : Disk) (written : Bytes) : Prop where
  content : stop.content = disk.content ++ written
  synced : stop.ledger.data.synced = disk.ledger.data.synced
  state : stop.state = disk.state
  settledState : stop.settledState = disk.settledState
  dev : stop.ledger.dev = disk.ledger.dev
  ino : stop.ledger.ino = disk.ledger.ino

theorem Grown.refl (disk : Disk) : Grown disk disk [] :=
  ⟨(append_nil _).symm, rfl, rfl, rfl, rfl, rfl⟩

theorem Grown.trans {disk middle stop : Disk} {first second : Bytes} (h : Grown disk middle first)
    (hn : Grown middle stop second) : Grown disk stop (first ++ second) where
  content := by rw [hn.content, h.content, append_assoc]
  synced := hn.synced.trans h.synced
  state := hn.state.trans h.state
  settledState := hn.settledState.trans h.settledState
  dev := hn.dev.trans h.dev
  ino := hn.ino.trans h.ino

theorem Grown.holds {disk stop : Disk} {written durable : Bytes} (h : Grown disk stop written)
    (hh : disk.ledger.data.Holds durable) : stop.ledger.data.Holds durable := by
  refine ⟨?_, h.synced ▸ hh.synced⟩
  rw [show stop.ledger.data.content = disk.content ++ written from h.content]
  exact hh.content.trans (prefix_append _ _)

/-- A write that is cut short leaves a beginning of its bytes. -/
theorem writeAll_run (bytes : Bytes) (disk : Disk) :
    ∃ final passed, writeAll bytes disk = ⟨(), final, passed⟩ ∧ Grown disk final bytes ∧
      ∀ stop ∈ passed, ∃ written, written <+: bytes ∧ Grown disk stop written := by
  induction bytes generalizing disk with
  | nil => exact ⟨disk, [], rfl, .refl disk, by simp⟩
  | cons byte _ ih =>
    obtain ⟨final, passed, hr, hfinal, hp⟩ := ih (disk.writeLedger [byte])
    have hf : Grown disk (disk.writeLedger [byte]) [byte] := ⟨rfl, rfl, rfl, rfl, rfl, rfl⟩
    refine ⟨final, disk :: passed, ?_, hf.trans hfinal, ?_⟩
    · rw [writeAll, bind_apply_of_eq (act_apply _)]
      simp [hr]
    · intro stop hs
      rcases mem_cons.mp hs with rfl | hs
      · exact ⟨[], nil_prefix, .refl stop⟩
      · obtain ⟨written, hw, hg⟩ := hp stop hs
        exact ⟨byte :: written, (prefix_cons_inj byte).mpr hw, hf.trans hg⟩

theorem appendRecord_run {encoded : Bytes} {disk : Disk}
    (hmax : disk.content.length + 4 + encoded.length ≤ maxLogBytes) :
    ∃ written passed, (appendRecord encoded).run disk =
        ⟨.ok (disk.content.length, disk.content.length + 4 + encoded.length), written.syncData,
          passed⟩ ∧
      Grown disk written (ledgerRecord encoded) ∧
      ∀ stop ∈ passed, ∃ torn, torn <+: ledgerRecord encoded ∧ Grown disk stop torn := by
  obtain ⟨measured, first, hf, hm, hfs⟩ := writeAll_run (beBytes 4 encoded.length) disk
  obtain ⟨written, second, hs, hw, hss⟩ := writeAll_run encoded measured
  have hg := hm.trans hw
  refine ⟨written, first ++ (second ++ [written]), ?_, hg, ?_⟩
  · unfold appendRecord
    rw [run_get_bind, if_neg (by omega), run_lift_bind, hf]
    rw [run_lift_bind, hs]
    rfl
  · intro stop hstop
    simp only [mem_append, mem_singleton] at hstop
    rcases hstop with hstop | hstop | rfl
    · obtain ⟨torn, ht, hstop⟩ := hfs stop hstop
      exact ⟨torn, ht.trans (prefix_append _ _), hstop⟩
    · obtain ⟨torn, ht, hstop⟩ := hss stop hstop
      exact ⟨_, (prefix_append_right_inj _).mpr ht, hm.trans hstop⟩
    · exact ⟨_, prefix_rfl, hg⟩

section Append

variable {H : Type} [Sha256 H] {hmac : Hmac} {key : Bytes} {disk stop : Disk}
  {current settled c : Commitment H} {acknowledged : List Bytes} {ledger : DisclosureLedger H}
  {leaf : DisclosureLeaf} {prepared : DisclosureLedger.PreparedAppend H}

theorem Grown.ledgerFileIdentity {torn : Bytes} (h : Grown disk stop torn) :
    (ledgerFileIdentity stop.ledger : H) = ledgerFileIdentity disk.ledger := by
  simp only [Pigeonpost.ledgerFileIdentity, h.dev, h.ino]

def Commitment.announce (c : Commitment H) (encoded : Bytes)
    (replays : ∃ index : LedgerIndex H, Replays (c.leaves ++ [encoded]) index) : Commitment H where
  leaves := c.leaves
  pending := some encoded
  marker := c.marker
  marker_length := c.marker_length
  replays := replays

/-- The indexes an append publishes once its record is durable. -/
theorem DisclosureLedger.Tracks.published (h : ledger.Tracks key (ledgerFileIdentity disk.ledger) c)
    (hp : ledger.prepareAppend leaf = .ok prepared) (pending : Option Bytes) :
    ({ ledger with store := { ledger.store with pendingAppend := pending } }.published prepared leaf
      (logBytes c.leaves).length
      ((logBytes c.leaves).length + 4 + prepared.encoded.length)).Recovered key
        (ledgerFileIdentity disk.ledger) (c.leaves ++ [prepared.encoded]) := by
  obtain ⟨-, hh, hr⟩ := replays_prepared h.replays hp
  refine ⟨hr, ?_, ?_, ?_, ?_, ?_, rfl⟩
  · simp [DisclosureLedger.published, h.store]
  · simp [DisclosureLedger.published, h.store]
  · exact hr.describes.leafCount
  · simp [DisclosureLedger.published, Nat.add_assoc]
  · simp [DisclosureLedger.published, hh]

theorem Commitment.Fits.launch {data : DurableFile UInt8} (h : c.Fits data acknowledged none)
    (encoded : Bytes) : c.Fits data acknowledged (some encoded) := by
  refine ⟨h.within, ?_⟩
  rcases h.leaves with ha | ⟨_, hn, -⟩ | hl
  · exact .inl ha
  · cases hn
  · exact .inr (.inr hl)

variable [HashBytes H]

/-- A directory without a leaf in flight may have any. -/
theorem Carries.launch (h : Carries hmac key disk current settled acknowledged none)
    (encoded : Bytes) : Carries hmac key disk current settled acknowledged (some encoded) :=
  ⟨h.current_stored, h.settled_stored, h.older, h.current_fits.launch encoded,
    h.settled_fits.launch encoded⟩

/-- While the announced record is written, the directory stays consistent. -/
theorem Carries.grown {encoded torn : Bytes}
    (h : Carries hmac key disk c c acknowledged (some encoded))
    (hl : c.leaves = acknowledged) (hp : c.pending = some encoded)
    (hc : disk.content = logBytes c.leaves) (ht : torn <+: ledgerRecord encoded)
    (hg : Grown disk stop torn) : Carries hmac key stop c c acknowledged (some encoded) := by
  have ha : c.all = acknowledged ++ [encoded] := by
    rw [Commitment.all_of_some hp, hl]
  have hsto : c.StoredIn hmac key (ledgerFileIdentity stop.ledger) stop.state := by
    rw [hg.ledgerFileIdentity, hg.state]
    exact h.current_stored
  have hs : c.StoredIn hmac key (ledgerFileIdentity stop.ledger) stop.settledState := by
    rw [hg.ledgerFileIdentity, hg.settledState]
    exact h.settled_stored
  have hf : c.Fits stop.ledger.data acknowledged (some encoded) := by
    refine ⟨⟨?_, ?_⟩, .inr (.inl ⟨encoded, rfl, ha⟩)⟩
    · rw [show stop.ledger.data.content = disk.content ++ torn from hg.content, hc,
        Commitment.all_of_some hp, logBytes_append_singleton]
      exact (prefix_append_right_inj _).mpr ht
    · rw [hg.synced]
      exact h.current_fits.within.synced
  exact ⟨hsto, hs, prefix_rfl, hf, hf⟩

variable [DecidableEq H]

theorem refreshAndPersist_run {next : DisclosureLedger H} {final : Disk} {passed : List Disk}
    (hr : ledger.refreshStoreFileStamp disk = .ok next)
    (hp : (next.persistState hmac).run disk = ⟨.ok (), final, passed⟩) :
    (ledger.refreshAndPersist hmac).run disk = ⟨.ok next, final, passed⟩ := by
  unfold refreshAndPersist
  rw [run_get_bind, hr, run_ok_bind, run_bind_of_ok hp]
  simp

/-- An append whose checks pass ends with its leaf settled, and may stop anywhere before. -/
theorem Live.append_run (h32 : Hashes32 H) (h : Live hmac key ledger disk acknowledged c settled)
    (hp : ledger.prepareAppend leaf = .ok prepared) :
    leaf.encode = .ok prepared.encoded ∧
      ∃ next final passed, ledger.append hmac leaf disk = ⟨(.ok (), next), final, passed⟩ ∧
      (∃ c settled : Commitment H,
        Live hmac key next final (acknowledged ++ [prepared.encoded]) c settled) ∧
      final.ledger.data.synced = final.content ∧
      ∀ stop ∈ final :: passed, Consistent H hmac key stop acknowledged (some prepared.encoded) ∧
        ∀ durable, disk.ledger.data.Holds durable → stop.ledger.data.Holds durable := by
  obtain ⟨hcar, ht, hl, hpen, hm, hc, hhea⟩ := h
  subst hl
  obtain ⟨he, -, hrep⟩ := replays_prepared ht.replays hp
  have hstamp : ledger.validateCurrentStoreFileStamp disk = .ok () := by
    apply if_neg
    simp [ht.store, hc, hm]
  -- the announcement
  let announced := c.announce prepared.encoded ⟨_, hrep⟩
  let announcing : DisclosureLedger H :=
    { ledger with store := { ledger.store with pendingAppend := some prepared.encoded } }
  have ha : announcing.Tracks key (ledgerFileIdentity disk.ledger) announced :=
    ⟨ht.replays, by simp only [announcing, ht.store]; rfl⟩
  have hall : announced.all = c.leaves ++ [prepared.encoded] := rfl
  have hf : announced.Fits disk.ledger.data c.leaves (some prepared.encoded) := by
    refine ⟨hcar.current_fits.within.mono (logBytes_isPrefix ?_),
      .inr (.inl ⟨prepared.encoded, rfl, rfl⟩)⟩
    rw [Commitment.all_of_none hpen]
    exact prefix_append _ _
  obtain ⟨file, hfile, announceStops, hann, hans⟩ := ha.persistState_run h32 hmac disk
  -- the record
  let noted := withState disk file
  have hnoted := carries_withState hfile hf
  have hmax : noted.content.length + 4 + prepared.encoded.length ≤ maxLogBytes := by
    have hle := announced.length_logBytes_all_le
    rw [hall, logBytes_append_singleton, length_append, length_ledgerRecord, ← hc] at hle
    change disk.content.length + 4 + prepared.encoded.length ≤ maxLogBytes
    omega
  obtain ⟨written, recordStops, hr, hw, hrs⟩ := appendRecord_run hmax
  rw [show noted.content = logBytes c.leaves from hc] at hr
  have hg : ∀ stop torn, torn <+: ledgerRecord prepared.encoded → Grown noted stop torn →
      Carries hmac key stop announced announced c.leaves (some prepared.encoded) :=
    fun stop torn htorn hs => hnoted.grown rfl rfl hc htorn hs
  let synced := written.syncData
  have hsyn := (hg written _ prefix_rfl hw).syncData
  have hide : (ledgerFileIdentity synced.ledger : H) = ledgerFileIdentity disk.ledger :=
    hw.ledgerFileIdentity
  have hsc : synced.content = logBytes (c.leaves ++ [prepared.encoded]) := by
    rw [logBytes_append_singleton, ← hc]
    exact hw.content
  -- the settled state
  have hpub := ht.published hp (some prepared.encoded)
  rw [← hide] at hpub
  obtain ⟨next, href, hn, hsame⟩ :=
    hpub.refresh (show (announced.settle synced.ledger.ctime).leaves = _ from rfl) rfl rfl hsc
  obtain ⟨settledFile, hsf, settleStops, hset, hss⟩ := hn.persistState_run h32 hmac synced
  have hlast := refreshAndPersist_run href hset
  have hwit : synced.ledger.data.Within (logBytes (announced.settle synced.ledger.ctime).all) := by
    rw [announced.all_settle]
    exact hsyn.current_fits.within
  refine ⟨he, next, withState synced settledFile, announceStops ++ (recordStops ++ settleStops), ?_,
    ⟨_, _, carries_withState hsf ⟨hwit, .inl (announced.all_settle _)⟩, hn, rfl, rfl, rfl, hsc,
      hsame.trans hhea⟩, rfl, ?_⟩
  · unfold append
    rw [hp]
    dsimp only
    rw [bind_apply_of_eq get_apply]
    rw [hstamp]
    dsimp only
    rw [bind_apply_of_eq hann]
    dsimp only
    rw [bind_apply_of_eq hr]
    dsimp only
    rw [bind_apply_of_eq hlast]
    simp
  · intro stop hs
    have hsef : (announced.settle synced.ledger.ctime).Fits synced.ledger.data c.leaves
        (some prepared.encoded) := ⟨hwit, .inr (.inl ⟨_, rfl, announced.all_settle _⟩)⟩
    have hh : ∀ durable, disk.ledger.data.Holds durable → synced.ledger.data.Holds durable :=
      fun durable h => (hw.holds h).sync
    simp only [mem_cons, mem_append] at hs
    rcases hs with rfl | hs | hs | hs
    · exact ⟨⟨_, _, carries_withState hsf hsef⟩, hh⟩
    · refine ⟨(hcar.launch prepared.encoded).publishing hfile prefix_rfl hf
        (hans stop hs), fun durable h => ?_⟩
      rw [(hans stop hs).ledger]
      exact h
    · obtain ⟨torn, htorn, hs⟩ := hrs stop hs
      exact ⟨⟨announced, announced, hg stop torn htorn hs⟩, fun durable h => hs.holds h⟩
    · refine ⟨hsyn.publishing hsf announced.leaves_isPrefix_all hsef
        (hss stop hs), fun durable h => ?_⟩
      rw [(hss stop hs).ledger]
      exact hh durable h

end Append

end Pigeonpost
