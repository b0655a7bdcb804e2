import Pigeonpost.Verification.Disclosure.Recovery

/-! # What an interrupted ledger leaves on disk

The directory is consistent with the acknowledged leaves when both state files a crash
may leave, the current one and the settled one, commit to those leaves or to them and
the leaf in flight. Opening and appending keep this at every point of interruption. -/

namespace Pigeonpost

open DisclosureLedger List

variable {H : Type} [Sha256 H]

/-- The commitment ends at the acknowledged leaves, or at them and the leaf in flight, and
the ledger file stays inside it. An announced leaf that never reached the file may also be
given up. -/
structure Commitment.Fits (c : Commitment H) (data : DurableFile UInt8)
    (acknowledged : List Bytes) (inFlight : Option Bytes) : Prop where
  within : data.Within (logBytes c.all)
  leaves : c.all = acknowledged ∨ (∃ leaf, inFlight = some leaf ∧ c.all = acknowledged ++ [leaf]) ∨
    (c.leaves = acknowledged ∧ data.Within (logBytes acknowledged))

variable {hmac : Hmac} {key : Bytes} {disk stop : Disk} {current settled c : Commitment H}
  {acknowledged : List Bytes} {inFlight : Option Bytes}

theorem Commitment.Fits.map {data next : DurableFile UInt8} (h : c.Fits data acknowledged inFlight)
    (hn : ∀ whole, data.Within whole → next.Within whole) : c.Fits next acknowledged inFlight := by
  refine ⟨hn _ h.within, ?_⟩
  rcases h.leaves with ha | ha | ⟨hl, hw⟩
  · exact .inl ha
  · exact .inr (.inl ha)
  · exact .inr (.inr ⟨hl, hn _ hw⟩)

/-- A file inside the commitment that does not reach its end stops inside the announced
record. -/
theorem Commitment.Matches.exists_torn (h : c.Matches disk) (hne : disk.content ≠ logBytes c.all) :
    ∃ encoded torn, c.pending = some encoded ∧ disk.content = logBytes c.leaves ++ torn ∧
      torn <+: ledgerRecord encoded ∧ torn ≠ ledgerRecord encoded := by
  obtain ⟨torn, ht⟩ := h.start
  have hw := h.within
  rw [← ht] at hw hne
  cases hp : c.pending with
  | none =>
    rw [Commitment.all_of_none hp] at hw hne
    have hl := hw.length_le
    rw [length_append] at hl
    have hn : torn = [] := length_eq_zero_iff.mp (by omega)
    rw [hn, append_nil] at hne
    exact absurd rfl hne
  | some encoded =>
    rw [Commitment.all_of_some hp, logBytes_append_singleton] at hw hne
    exact ⟨encoded, torn, rfl, ht.symm, (prefix_append_right_inj _).mp hw,
      fun heq => hne (by rw [heq])⟩

/-- A commitment to fewer leaves whose file holds all the others announces the last of them. -/
theorem Commitment.all_eq_of_isPrefix (holder : settled.leaves <+: current.leaves)
    (hne : settled.leaves ≠ current.leaves)
    (hlog : logBytes current.leaves <+: logBytes settled.all) : settled.all = current.leaves := by
  obtain ⟨rest, hr⟩ := holder
  obtain ⟨index, hindex⟩ := current.exists_replays
  cases rest with
  | nil => exact absurd (by rw [← hr, append_nil]) hne
  | cons first others =>
    have hf := (hindex.size first (by simp [← hr])).2
    cases hp : settled.pending with
    | none =>
      have hl := hlog.length_le
      rw [all_of_none hp, ← hr] at hl
      simp [logBytes] at hl
    | some encoded =>
      have hs := (pending_sized hp).2
      have ha := all_of_some hp
      rw [ha, logBytes_append_singleton, ← hr, logBytes, flatMap_append,
        ← append_assoc, ← logBytes, prefix_append_right_inj, flatMap_cons] at hlog
      have heq : first = encoded :=
        eq_of_ledgerRecord_isPrefix hf hs ((prefix_append _ _).trans hlog)
      have ho : others = [] := by
        have hl := hlog.length_le
        cases others with
        | nil => rfl
        | cons =>
          simp [heq] at hl
      rw [ha, ← hr, heq, ho]

/-- A commitment whose file is complete ends at the acknowledged leaves or at the leaf in
flight. -/
theorem Commitment.Fits.all_eq {data : DurableFile UInt8} (h : c.Fits data acknowledged inFlight)
    (hc : data.content = logBytes c.all) :
    c.all = acknowledged ∨ ∃ leaf, inFlight = some leaf ∧ c.all = acknowledged ++ [leaf] := by
  rcases h.leaves with ha | ha | ⟨hl, hack⟩
  · exact .inl ha
  · exact .inr ha
  · cases hp : c.pending with
    | none => exact .inl ((all_of_none hp).trans hl)
    | some =>
      have hlen := hack.content.length_le
      rw [hc, all_of_some hp, ← hl] at hlen
      simp at hlen

/-- Leaves that the file holds whole are not lost with a torn record. -/
theorem Commitment.Matches.isPrefix_leaves (h : c.Matches disk)
    (hne : disk.content ≠ logBytes c.all) {leaves : List Bytes}
    (hs : ∀ encoded ∈ leaves, encoded.length ≤ maxLeafBytes)
    (hl : logBytes leaves <+: disk.content) : leaves <+: c.leaves := by
  obtain ⟨encoded, torn, hp, -, -, -⟩ := h.exists_torn hne
  obtain ⟨index, hindex⟩ := c.replays
  have ha : leaves <+: c.all :=
    isPrefix_of_logBytes hs (fun x hx => (hindex.size x hx).2) (hl.trans h.within)
  rw [all_of_some hp, prefix_concat_iff] at ha
  rcases ha with rfl | ha
  · rw [← all_of_some hp] at hl
    exact absurd (h.within.eq_of_length_le hl.length_le) hne
  · exact ha

variable [HashBytes H]

/-- A directory whose state file records `current`, and whose settled state file records
`settled`. -/
structure Carries (hmac : Hmac) (key : Bytes) (disk : Disk) (current settled : Commitment H)
    (acknowledged : List Bytes) (inFlight : Option Bytes) : Prop where
  current_stored : current.StoredIn hmac key (ledgerFileIdentity disk.ledger) disk.state
  settled_stored : settled.StoredIn hmac key (ledgerFileIdentity disk.ledger) disk.settledState
  older : settled.leaves <+: current.leaves
  current_fits : current.Fits disk.ledger.data acknowledged inFlight
  settled_fits : settled.Fits disk.ledger.data acknowledged inFlight

def Consistent (H : Type) [Sha256 H] [HashBytes H] (hmac : Hmac) (key : Bytes) (disk : Disk)
    (acknowledged : List Bytes) (inFlight : Option Bytes) : Prop :=
  ∃ current settled : Commitment H, Carries hmac key disk current settled acknowledged inFlight

/-! ## Crashes -/

theorem Consistent.crash (h : Consistent H hmac key disk acknowledged inFlight) (crash : Crash) :
    Consistent H hmac key (disk.crash crash) acknowledged inFlight := by
  obtain ⟨current, settled, h⟩ := h
  cases crash with
  | kill => exact ⟨current, settled, h⟩
  | powerLoss ledgerKept stateKept renameKept =>
    cases renameKept with
    | true =>
      have hs := h.current_stored.powerLoss stateKept
      have hf := h.current_fits.map fun _ hw => hw.powerLoss ledgerKept
      exact ⟨current, current, hs, hs, prefix_rfl, hf, hf⟩
    | false =>
      have hs := h.settled_stored.powerLoss stateKept
      have hf := h.settled_fits.map fun _ hw => hw.powerLoss ledgerKept
      exact ⟨settled, settled, hs, hs, prefix_rfl, hf, hf⟩

/-! ## Cutting and syncing the file -/

variable {file : Option (DurableFile UInt8)}

section

variable (h : Carries hmac key disk current settled acknowledged inFlight)

include h

theorem Carries.setLen {kept rest : Bytes} (hc : disk.content = kept ++ rest) :
    Carries hmac key (disk.setLen kept.length) current settled acknowledged inFlight :=
  ⟨h.current_stored, h.settled_stored, h.older, h.current_fits.map fun _ hw => hw.setLen 0 hc,
    h.settled_fits.map fun _ hw => hw.setLen 0 hc⟩

theorem Carries.syncAll : Carries hmac key disk.syncAll current settled acknowledged inFlight :=
  ⟨h.current_stored, h.settled_stored, h.older, h.current_fits.map fun _ hw => hw.sync,
    h.settled_fits.map fun _ hw => hw.sync⟩

theorem Carries.syncData : Carries hmac key disk.syncData current settled acknowledged inFlight :=
  ⟨h.current_stored, h.settled_stored, h.older, h.current_fits.map fun _ hw => hw.sync,
    h.settled_fits.map fun _ hw => hw.sync⟩

/-! ## Publishing a state -/

/-- While a new state is published, the directory stays consistent. -/
theorem Carries.publishing (hf : c.StoredIn hmac key (ledgerFileIdentity disk.ledger) file)
    (hg : current.leaves <+: c.leaves) (hfits : c.Fits disk.ledger.data acknowledged inFlight)
    (hstop : DisclosureLedger.Publishing disk stop file) :
    Consistent H hmac key stop acknowledged inFlight := by
  obtain ⟨ledger, state, settledState, temp, clock, ticks⟩ := stop
  obtain rfl : ledger = disk.ledger := hstop.ledger
  rcases hstop.entries with ⟨hstate, hs⟩ | ⟨hstate, hs⟩ | ⟨hstate, hs⟩
  · obtain rfl : state = disk.state := hstate
    obtain rfl : settledState = disk.settledState := hs
    exact ⟨current, settled, h.current_stored, h.settled_stored, h.older, h.current_fits,
      h.settled_fits⟩
  · obtain rfl : state = disk.state := hstate
    obtain rfl : settledState = disk.state := hs
    exact ⟨current, current, h.current_stored, h.current_stored, prefix_rfl, h.current_fits,
      h.current_fits⟩
  · obtain rfl : state = file := hstate
    obtain rfl : settledState = disk.state := hs
    exact ⟨c, current, hf, h.current_stored, hg, hfits, h.current_fits⟩

end

theorem carries_withState (hf : c.StoredIn hmac key (ledgerFileIdentity disk.ledger) file)
    (hfits : c.Fits disk.ledger.data acknowledged inFlight) :
    Carries hmac key (withState disk file) c c acknowledged inFlight :=
  ⟨hf, hf, prefix_rfl, hfits, hfits⟩

/-! ## A running ledger -/

/-- A ledger in memory whose directory holds exactly these leaves. -/
structure Live (hmac : Hmac) (key : Bytes) (ledger : DisclosureLedger H) (disk : Disk)
    (leaves : List Bytes) (c settled : Commitment H) : Prop where
  carries : Carries hmac key disk c settled leaves none
  tracks : ledger.Tracks key (ledgerFileIdentity disk.ledger) c
  leaves_eq : c.leaves = leaves
  pending : c.pending = none
  marker : ledgerMutationMarker disk.ledger.ctime = c.marker
  content : disk.content = logBytes leaves
  healthy : ledger.statePoisoned = false

/-! ## Opening -/

section

variable (h : Carries hmac key disk current settled acknowledged inFlight)

include h

/-- A directory whose file ends with the committed leaves may take them for the acknowledged
ones. -/
theorem Carries.settle_leaves (hw : disk.ledger.data.Within (logBytes current.leaves))
    (hc : disk.content = logBytes current.leaves) (next : Option Bytes) :
    Carries hmac key disk current settled current.leaves next := by
  refine ⟨h.current_stored, h.settled_stored, h.older,
    ⟨h.current_fits.within, .inr (.inr ⟨rfl, hw⟩)⟩, h.settled_fits.within, ?_⟩
  by_cases hs : settled.leaves = current.leaves
  · exact .inr (.inr ⟨hs, hw⟩)
  · have hl := h.settled_fits.within.content
    rw [show disk.ledger.data.content = logBytes current.leaves from hc] at hl
    exact .inl (Commitment.all_eq_of_isPrefix h.older hs hl)

/-- When the file reaches past the acknowledged leaves, a torn record is that of the leaf
in flight. -/
theorem Carries.leaves_eq_of_torn (hne : disk.content ≠ logBytes current.all) {encoded : Bytes}
    (hp : current.pending = some encoded)
    (hl : (logBytes acknowledged).length ≤ disk.content.length) :
    current.leaves = acknowledged := by
  rcases h.current_fits.leaves with ha | ⟨leaf, -, ha⟩ | ⟨hlea, -⟩
  · rw [← ha] at hl
    exact absurd (h.current_fits.within.content.eq_of_length_le hl) hne
  · rw [Commitment.all_of_some hp] at ha
    exact (append_inj' ha rfl).1
  · exact hlea

end

section

variable [DecidableEq H] {secret : Bytes32} (h32 : Hashes32 H)
  (h : Carries hmac (deriveStateAuthenticationKey H secret) disk current settled acknowledged
    inFlight) (hm : current.Matches disk)

include h32 h hm

/-- An open that finds the announced record complete takes it in. -/
theorem openLedger_complete {encoded : Bytes} (hp : current.pending = some encoded)
    (hc : disk.content = logBytes current.all) :
    ∃ opened final passed, (openLedger hmac secret).run disk = ⟨.ok opened, final, passed⟩ ∧
      (∃ c settled : Commitment H, Live hmac (deriveStateAuthenticationKey H secret) opened final
        current.all c settled) ∧
      ∀ stop ∈ final :: passed, stop.ledger.data = disk.ledger.data ∧
        Consistent H hmac (deriveStateAuthenticationKey H secret) stop acknowledged inFlight := by
  obtain ⟨committed, hopen, ht, hh⟩ := openCommitted_of_matches h32 h.current_stored hm
  obtain ⟨next, hr, hn, hpoi⟩ := recoverBoundedTail_of_complete ht hp hc
  obtain ⟨opened, file, stops, hrun, ho, hsame, hs, hstops⟩ :=
    openLedger_run_recovered h32 hopen hr hn hc
      (show (current.settle disk.ledger.ctime).leaves = current.all from rfl) rfl rfl
  have hw := h.current_fits.within
  rw [← current.all_settle disk.ledger.ctime] at hw
  have hf : (current.settle disk.ledger.ctime).Fits disk.ledger.data acknowledged inFlight := by
    refine ⟨hw, ?_⟩
    rw [current.all_settle]
    exact (h.current_fits.all_eq hc).imp_right .inl
  refine ⟨opened, _, _, hrun, ⟨_, _, carries_withState hs ⟨hw, .inl
    (current.all_settle _)⟩, ho, rfl, rfl, rfl, hc, by rw [hsame, hpoi, hh]⟩, ?_⟩
  intro stop hstop
  rcases mem_cons.mp hstop with rfl | hstop
  · exact ⟨rfl, _, _, carries_withState hs hf⟩
  · exact ⟨congrArg LedgerFile.data (hstops stop hstop).ledger,
      h.publishing hs current.leaves_isPrefix_all hf (hstops stop hstop)⟩

/-- An open that finds the announced record torn cuts it off. -/
theorem openLedger_torn (hne : disk.content ≠ logBytes current.all) : ∃ opened final passed,
      (openLedger hmac secret).run disk = ⟨.ok opened, final, passed⟩ ∧
      (∃ c settled : Commitment H, Live hmac (deriveStateAuthenticationKey H secret) opened final
        current.leaves c settled) ∧
      (∀ stop ∈ final :: passed,
        (∀ leaves, leaves <+: current.leaves → disk.ledger.data.Holds (logBytes leaves) →
          stop.ledger.data.Holds (logBytes leaves)) ∧
        (Consistent H hmac (deriveStateAuthenticationKey H secret) stop acknowledged inFlight ∨
          Consistent H hmac (deriveStateAuthenticationKey H secret) stop current.leaves inFlight)) ∧
      ((logBytes acknowledged).length ≤ disk.content.length → current.leaves = acknowledged) := by
  obtain ⟨committed, hopen, ht, hhea⟩ := openCommitted_of_matches h32 h.current_stored hm
  obtain ⟨encoded, torn, hp, hc, htorn, htn⟩ := hm.exists_torn hne
  have hr := recoverBoundedTail_of_torn ht hp hc htorn htn
  let cut := disk.setLen (logBytes current.leaves).length
  have hcut : cut.content = logBytes current.leaves := DurableFile.setLen_content 0 hc
  let c := current.rollBack cut.syncAll.ledger.ctime
  obtain ⟨opened, file, stops, hrun, ho, hsame, hs, hstops⟩ :=
    openLedger_run_recovered h32 hopen hr
      (clearPending_recovered ht) hcut (show c.leaves = current.leaves from rfl)
      rfl rfl
  have hall : c.all = current.leaves := current.all_rollBack _
  have hsyn : cut.syncAll.ledger.data.Within (logBytes current.leaves) :=
    DurableFile.within_sync hcut
  have hw : cut.syncAll.ledger.data.Within (logBytes c.all) := by
    rw [hall]
    exact hsyn
  have ha : ∀ leaves, leaves <+: current.leaves →
      cut.syncAll.ledger.data.Holds (logBytes leaves) := by
    intro leaves hl
    have hb : logBytes leaves <+: cut.content := hcut ▸ logBytes_isPrefix hl
    exact ⟨hb, hb⟩
  have hcar := (h.setLen hc).syncAll.settle_leaves hsyn hcut inFlight
  refine ⟨opened, _, _, hrun, ⟨_, _, carries_withState hs ⟨hw, .inl hall⟩, ho, rfl,
    rfl, rfl, hcut, hsame.trans hhea⟩, ?_, h.leaves_eq_of_torn hne hp⟩
  intro stop hstop
  simp only [cons_append, nil_append, mem_cons] at hstop
  rcases hstop with rfl | rfl | rfl | hstop
  · exact ⟨fun leaves hl _ => ha leaves hl, .inr ⟨_, _, carries_withState hs ⟨hw, .inl hall⟩⟩⟩
  · exact ⟨fun _ _ hh => hh, .inl ⟨current, settled, h⟩⟩
  · exact ⟨fun leaves hl hh => ⟨(ha leaves hl).content, hh.synced⟩,
      .inl ⟨current, settled, h.setLen hc⟩⟩
  · refine ⟨fun leaves hl _ => ?_, .inr (hcar.publishing hs prefix_rfl
      ⟨hw, .inl hall⟩ (hstops stop hstop))⟩
    rw [(hstops stop hstop).ledger]
    exact ha leaves hl

/-- An open that finds nothing announced leaves the directory as it is. -/
theorem openLedger_clean (hp : current.pending = none) :
    ∃ opened, (openLedger hmac secret).run disk = ⟨.ok opened, disk, []⟩ ∧
      Live hmac (deriveStateAuthenticationKey H secret) opened disk current.leaves current
        settled := by
  obtain ⟨committed, ho, ht, hh⟩ := openCommitted_of_matches h32 h.current_stored hm
  have hc : disk.content = logBytes current.leaves := by
    have hw := hm.within
    rw [Commitment.all_of_none hp] at hw
    exact hw.eq_of_length_le hm.start.length_le
  have hmar := hm.marker (congrArg length hc)
  have hs : disk.state ≠ none := by
    obtain ⟨bytes, hb, -⟩ := h.current_stored
    simp [hb]
  have hw := h.current_fits.within
  rw [Commitment.all_of_none hp] at hw
  exact ⟨committed, openLedger_run_clean ho hs ht rfl hp hc hmar,
    h.settle_leaves hw hc none, ht, rfl, hp, hmar, hc, hh⟩

/-- An open that succeeds hands out a whole list of leaves of the file, and whole leaves of
the file stay in it wherever the open stops. If the file holds all acknowledged leaves, the
list is theirs, with the leaf in flight or without it, and stopping the open anywhere keeps
the directory consistent with them. -/
theorem openLedger_spec : ∃ leaves opened final passed,
      (openLedger hmac secret).run disk = ⟨.ok opened, final, passed⟩ ∧
      (∃ c settled : Commitment H, Live hmac (deriveStateAuthenticationKey H secret) opened final
        leaves c settled) ∧
      (logBytes leaves).length ≤ disk.content.length ∧
      ((logBytes acknowledged).length ≤ disk.content.length →
        (leaves = acknowledged ∨ ∃ leaf, inFlight = some leaf ∧ leaves = acknowledged ++ [leaf]) ∧
        ∀ stop ∈ final :: passed, Consistent H hmac (deriveStateAuthenticationKey H secret) stop
          acknowledged inFlight) ∧
      (∀ durable, (∀ encoded ∈ durable, encoded.length ≤ maxLeafBytes) →
        disk.ledger.data.Holds (logBytes durable) → durable <+: leaves ∧
          ∀ stop ∈ final :: passed, stop.ledger.data.Holds (logBytes durable)) ∧
      ∀ stop ∈ final :: passed, ∃ held, Consistent H hmac (deriveStateAuthenticationKey H secret)
        stop held inFlight := by
  by_cases hcom : disk.content = logBytes current.all
  · have ha := h.current_fits.all_eq hcom
    have hk : ∀ durable, (∀ encoded ∈ durable, encoded.length ≤ maxLeafBytes) →
        disk.ledger.data.Holds (logBytes durable) → durable <+: current.all := by
      intro durable hs hh
      obtain ⟨index, hindex⟩ := current.replays
      exact isPrefix_of_logBytes hs (fun x hx => (hindex.size x hx).2) (hcom ▸ hh.content)
    cases hp : current.pending with
    | none =>
      obtain ⟨opened, hr, hlive⟩ := openLedger_clean h32 h hm hp
      rw [Commitment.all_of_none hp] at ha hcom hk
      have hdisk : Consistent H hmac _ disk acknowledged inFlight := ⟨current, settled, h⟩
      exact ⟨_, opened, disk, [], hr, ⟨_, _, hlive⟩, by rw [hcom], fun _ =>
        ⟨ha, forall_mem_singleton.mpr hdisk⟩, fun durable hs hh =>
        ⟨hk durable hs hh, forall_mem_singleton.mpr hh⟩,
        forall_mem_singleton.mpr ⟨acknowledged, hdisk⟩⟩
    | some =>
      obtain ⟨opened, final, passed, hr, hlive, hstops⟩ := openLedger_complete h32 h hm hp hcom
      refine ⟨_, opened, final, passed, hr, hlive, by rw [hcom], fun _ =>
        ⟨ha, fun stop hstop => (hstops stop hstop).2⟩, fun durable hs hh =>
        ⟨hk durable hs hh, fun stop hstop => ?_⟩,
        fun stop hstop => ⟨acknowledged, (hstops stop hstop).2⟩⟩
      rw [(hstops stop hstop).1]
      exact hh
  · obtain ⟨opened, final, passed, hr, hlive, hstops, hl⟩ := openLedger_torn h32 h hm hcom
    refine ⟨_, opened, final, passed, hr, hlive, hm.start.length_le, fun hlen =>
      ⟨.inl (hl hlen), fun stop hstop => ?_⟩, fun durable hs hh => ?_,
      fun stop hstop => ?_⟩
    · rcases (hstops stop hstop).2 with hc | hc
      · exact hc
      · exact hl hlen ▸ hc
    · have hb := hm.isPrefix_leaves hcom hs hh.content
      exact ⟨hb, fun stop hstop => (hstops stop hstop).1 durable hb hh⟩
    · rcases (hstops stop hstop).2 with hc | hc
      · exact ⟨acknowledged, hc⟩
      · exact ⟨current.leaves, hc⟩

end

end Pigeonpost
