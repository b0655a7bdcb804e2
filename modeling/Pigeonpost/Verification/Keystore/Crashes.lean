import Pigeonpost.Verification.Keystore.Refusal
import Pigeonpost.Verification.Keystore.Survival
import Pigeonpost.Verification.Shared.SampleLoft

/-! # Runs with crashes

Processes follow one another on one home, each of them stopped anywhere. The keys survive
in the runs in which no process stops at one of the two moments that leave the directory
of the retired keys in disorder, and none finds a temporary file under a name of its own. -/

namespace Pigeonpost.Keystore

open Files Keystore.Disk List

section Runs

variable (H : Type) [Sha256 H] [HashBytes H] (env : Env)

/-- No file is named after the process. -/
def Machine.Unused (m : Machine) : Prop :=
  ∀ target sequence, m.file (.temporary target m.pid sequence) = none ∧
    m.file (.replacement target m.pid sequence) = none

/-- The event leaves the directory of the retired keys in order, and a process that can
tell its temporary files from those of others. -/
def Careful (m : Machine) (event : Event) : Prop :=
  match event with
  | .run _ => True
  | .crash _ _ _ => ¬ Files.Stray (m.step H env event).file ∧
    ¬ Files.Orphaned (m.step H env event).file ∧ (m.step H env event).Unused
  | .restart _ => (m.step H env event).Unused

def CarefulRun (m : Machine) (events : List Event) : Prop :=
  ∀ past event, past ++ [event] <+: events → Careful H env (m.run H env past) event

def Event.Allows (event : Event) (before after : Custody) : Prop :=
  match event with
  | .run operation => operation.Allows before after
  | .crash operation _ _ => operation.Allows before after
  | .restart _ => after = before

def Event.time : Event → Option UInt64
  | .run operation => some operation.time
  | .crash operation _ _ => some operation.time
  | .restart _ => none

variable {H env} {m : Machine} {event : Event} {key : Bytes32}

theorem Event.Allows.has {before after : Custody} (h : event.Allows before after)
    (hk : before.Has key) :
    after.Has key ∨ ∃ journal, before.retired key = some journal ∧
      ∃ now, event.time = some now ∧ journal.record.graceUntil ≤ now := by
  cases event with
  | run | crash =>
    refine (Operation.Allows.has h hk).imp_right fun ⟨journal, hr, he⟩ => ?_
    exact ⟨journal, hr, _, rfl, he⟩
  | restart => exact .inl (h ▸ hk)

theorem Machine.Unused.unclaimed (h : m.Unused) : m.Unclaimed :=
  ⟨fun target sequence _ => (h target sequence).1, fun target sequence _ => (h target sequence).2⟩

theorem step_kept (hcla : m.Unclaimed) (h : Kept H env m.file) (hc : Careful H env m event) :
    (m.step H env event).Unclaimed ∧ Kept H env (m.step H env event).file ∧
      event.Allows (custody env m.file) (custody env (m.step H env event).file) := by
  cases event with
  | run operation =>
    have hd := Script.wp_final (survives_operation operation hcla h)
    exact ⟨hd.unclaimed, hd.fine.kept, hd.fine.allowed⟩
  | crash operation actions =>
    obtain ⟨hs, ho, hu⟩ := hc
    have hp := Script.wp_stopAfter (Script.wp_mono (survives_operation operation hcla h)
      (fun _ _ hd => .inr (.inr hd.fine)) fun _ _ hd => .inr (.inr hd.fine))
      actions
    have hf := (hp.resolve_left hs).resolve_left ho
    exact ⟨hu.unclaimed, hf.kept, hf.allowed⟩
  | restart => exact ⟨hc.unclaimed, h, rfl⟩

theorem kept_empty : Kept H env empty.file := by
  have hn : ∀ path, empty.file path = none := fun path => AList.lookup_empty path
  have hs : ∀ path, Files.Secret empty.file path := by
    intro path content hc
    cases hc
  refine .inl
    { unwritten := hn _
      legacy := hn _
      default := hn _
      operating := hs _
      successor := hs _
      token := hs _
      complete := fun h => absurd (hn _) h
      retired := ⟨?_, ?_, ?_, ?_, [], Nat.zero_le _, ?_, by simp⟩ }
  · rintro ⟨path, hp, -⟩
    exact hp (hn path)
  · rintro ⟨key, hk, -⟩
    exact hk (hn _)
  · intro stem content hc
    cases hc
  · intro stem content hc
    cases hc
  · intro stem hstem
    exact absurd (hn _) hstem

theorem run_concat (m : Machine) (past : List Event) (event : Event) :
    m.run H env (past ++ [event]) = (m.run H env past).step H env event :=
  foldl_concat ..

theorem run_kept {pid : ℕ} {events : List Event} (hcar : CarefulRun H env (empty.boot pid) events)
    {past : List Event} (hp : past <+: events) :
    ((empty.boot pid).run H env past).Unclaimed ∧
      Kept H env ((empty.boot pid).run H env past).file := by
  -- the run is extended one event at a time
  induction past using reverseRecOn with
  | nil =>
    refine ⟨⟨fun _ _ _ => ?_, fun _ _ _ => ?_⟩, kept_empty⟩
    · exact AList.lookup_empty _
    · exact AList.lookup_empty _
  | append_singleton past event ih =>
    obtain ⟨hc, hk⟩ := ih ((prefix_append past [event]).trans hp)
    rw [run_concat]
    obtain ⟨hc, hk, -⟩ := step_kept hc hk (hcar past event hp)
    exact ⟨hc, hk⟩

/-- A key that was in custody is in custody, or it was retired and its grace had ended when
it went. -/
theorem run_has {pid : ℕ} {events past : List Event} (hc : CarefulRun H env (empty.boot pid) events)
    (hp : past <+: events) (hkey : (custody env ((empty.boot pid).run H env past).file).Has key) :
    (custody env ((empty.boot pid).run H env events).file).Has key ∨
      ∃ later event journal now, past <+: later ∧ later ++ [event] <+: events ∧
        (custody env ((empty.boot pid).run H env later).file).retired key =
          some journal ∧ event.time = some now ∧ journal.record.graceUntil ≤ now := by
  obtain ⟨rest, rfl⟩ := hp
  induction rest using reverseRecOn with
  | nil => exact .inl (by rwa [append_nil])
  | append_singleton rest event ih =>
    rw [← append_assoc] at hc ⊢
    have hb : past ++ rest <+: past ++ rest ++ [event] := prefix_append _ _
    have hs := hc (past ++ rest) event prefix_rfl
    rcases ih fun earlier next h => hc earlier next (h.trans hb) with hh | he
    · obtain ⟨hcla, hk⟩ := run_kept hc hb
      obtain ⟨-, -, ha⟩ := step_kept hcla hk hs
      rw [run_concat]
      refine (ha.has hh).imp_right fun ⟨journal, hr, now, ht, hg⟩ => ?_
      exact ⟨past ++ rest, event, journal, now, prefix_append _ _, prefix_rfl, hr, ht, hg⟩
    · obtain ⟨later, next, journal, now, hp, hl, hrest⟩ := he
      exact .inr ⟨later, next, journal, now, hp, hl.trans hb, hrest⟩

end Runs

section Survival

variable (H : Type) [Sha256 H] [HashBytes H] (env : Env)

/-- After every careful run the next load succeeds and yields the keys in custody; every
event changes the custody only as its operation is allowed to; and no key that was ever
current goes before its grace has ended. -/
theorem keys_survive (pid : ℕ) (events : List Event)
    (hcareful : CarefulRun H env (empty.boot pid) events) :
    (∀ now seeds, ∃ keys,
      ((loadOrCreate H env now seeds).run ((empty.boot pid).run H env events)).value = .ok keys ∧
        Loads env now (custody env ((empty.boot pid).run H env events).file) keys) ∧
    (∀ past event, past ++ [event] <+: events →
      event.Allows (custody env ((empty.boot pid).run H env past).file)
        (custody env ((empty.boot pid).run H env (past ++ [event])).file)) ∧
    ∀ past key, past <+: events →
      (custody env ((empty.boot pid).run H env past).file).current = some key →
      (custody env ((empty.boot pid).run H env events).file).Has key ∨
        ∃ later event journal now, past <+: later ∧ later ++ [event] <+: events ∧
          (custody env ((empty.boot pid).run H env later).file).retired key =
            some journal ∧ event.time = some now ∧ journal.record.graceUntil ≤ now := by
  refine ⟨fun now seeds => ?_, fun past event hp => ?_, fun past key hp hkey => ?_⟩
  · obtain ⟨hc, hk⟩ := run_kept hcareful prefix_rfl
    obtain ⟨keys, hv, -, hl⟩ := Script.wp_ok_of (wp_loadOrCreate hc hk)
    exact ⟨keys, hv, hl⟩
  · obtain ⟨hc, hk⟩ := run_kept hcareful ((prefix_append past [event]).trans hp)
    rw [run_concat]
    exact (step_kept hc hk (hcareful past event hp)).2.2
  · exact run_has hcareful hp (.inl hkey)

end Survival

/-! ## Concrete runs -/

section Checks

variable {disk : Disk} {pid : ℕ}

def Path.process : Path → Option ℕ
  | .temporary _ pid _ => some pid
  | .replacement _ pid _ => some pid
  | _ => none

theorem unused_boot (h : ∀ path ∈ disk.files.keys, path.process ≠ some pid) :
    (disk.boot pid).Unused := by
  have hn : ∀ path : Path, path.process = some pid → disk.file path = none := by
    intro path hpath
    by_contra hp
    refine h path ?_ hpath
    rw [← AList.mem_keys, ← AList.lookup_isSome]
    exact Option.isSome_iff_ne_none.mpr hp
  exact fun target sequence => ⟨hn _ rfl, hn _ rfl⟩

theorem not_stray (h : ∀ path ∈ disk.retiredEntries, path.stem ≠ none) :
    ¬ Files.Stray disk.file := by
  rintro ⟨path, hp, hr, hs⟩
  exact h path ((mem_retiredEntries disk path).mpr ⟨hp, hr⟩) hs

theorem not_orphaned (h : ∀ stem ∈ disk.stems, disk.file (.retiredKey stem) ≠ none) :
    ¬ Files.Orphaned disk.file := by
  rintro ⟨stem, hp, ha⟩
  exact h stem ((mem_stems disk stem).mpr (.inr hp)) ha

end Checks

namespace SampleHome

open SampleLoft (key)

/-- Keys that are their own seeds, and a verifier that accepts. -/
def env : Env where
  prim := SampleDirectory.prim
  publicKey := id
  sign _ _ := Vector.replicate 64 0
  journalBytes _ := 2000
  customRecovery := false

def seeds : Seeds := ⟨key 2, key 5, key 1⟩

/-- The rotation of the first key to the second. -/
def request : RotationRequest := ⟨SampleLoft.agent, [], 1000, (key 3).set 0 4⟩

/-- The process stops in a rotation, after the incoming key has become the operating one. -/
def events : List Event := [.run (.load 1 seeds), .crash (.rotate request) 16 8]

theorem events_careful : CarefulRun ByteHash env (empty.boot 7) events := by
  intro past event hp
  have hc : (past = [] ∧ event = .run (.load 1 seeds)) ∨
      (past = [.run (.load 1 seeds)] ∧ event = .crash (.rotate request) 16 8) := by
    rcases past with _ | ⟨first, _ | ⟨second, rest⟩⟩
    · simpa [events] using hp
    · simpa [events] using hp
    · have hl := hp.length_le
      simp [events] at hl
  rcases hc with ⟨rfl, rfl⟩ | ⟨rfl, rfl⟩
  · exact trivial
  · exact ⟨not_stray (by decide +kernel), not_orphaned (by decide +kernel),
      unused_boot (by decide +kernel)⟩

/-- The next load yields the second key, with the first one as a retired one. -/
theorem keys_survive_events : ∃ keys, ((loadOrCreate ByteHash env 5000 seeds).run
        ((empty.boot 7).run ByteHash env events)).value = .ok keys ∧
      keys.identity = key 2 ∧ ∃ one ∈ keys.retired, one.identity = key 1 := by
  obtain ⟨keys, hv, hl⟩ := (keys_survive ByteHash env 7 events events_careful).1 5000 seeds
  refine ⟨keys, hv, (hl.current (key 2) (by decide +kernel)).1, ?_⟩
  have hs : ((custody env ((empty.boot 7).run ByteHash env events).file).retired
      (key 1)).map (fun journal => (journal.record.activatedAt, journal.record.graceUntil)) =
        some (1000, 7777000) := by
    decide +kernel
  obtain ⟨journal, hj, ht⟩ := Option.map_eq_some_iff.mp hs
  obtain ⟨ha, hg⟩ := Prod.mk.inj ht
  obtain ⟨one, ho, -, hk⟩ := hl.retired (key 1) journal hj (by rw [ha]; decide) (by rw [hg]; decide)
  exact ⟨one, ho, hk⟩

/-- The process stops when the outgoing key is written to its temporary file. -/
def strayEvents : List Event := [.run (.load 1 seeds), .crash (.rotate request) 10 8]

/-- The process stops when the expired key is removed and its metadata is not. -/
def orphanedEvents : List Event :=
  [.run (.load 1 seeds), .run (.rotate request), .crash (.load 7777000 seeds) 1 8]

/-- The process stops when the first key is written to its temporary file, and the next
one has the same identifier. -/
def sameProcessEvents : List Event := [.crash (.load 1 seeds) 2 7]

/-- The first two homes are refused by every later load, and the third one by the next. -/
theorem crashes_refused : (∀ attempts pid now seeds, ∃ e, ((loadOrCreate ByteHash env now seeds).run
      ((((empty.boot 7).run ByteHash env strayEvents).disk.attempt ByteHash env
        attempts).boot pid)).value = .error e) ∧
    (∀ attempts pid now seeds, ∃ e, ((loadOrCreate ByteHash env now seeds).run
      ((((empty.boot 7).run ByteHash env orphanedEvents).disk.attempt ByteHash env
        attempts).boot pid)).value = .error e) ∧
    ((loadOrCreate ByteHash env 2 seeds).run
      ((empty.boot 7).run ByteHash env sameProcessEvents)).value =
        .error (.alreadyExists (.temporary .successor 7 0)) := by
  refine ⟨fun attempts pid now seeds => ?_, fun attempts pid now seeds => ?_, by decide +kernel⟩
  · refine attempt_refused ByteHash env (.inl ?_) attempts pid now seeds
    exact ⟨.temporary (.retiredKey (key 1)) 7 4, by decide +kernel, rfl, rfl⟩
  · refine attempt_refused ByteHash env (.inr ⟨key 1, ?_, ?_⟩) attempts pid now seeds
    · decide +kernel
    · decide +kernel

end SampleHome

end Pigeonpost.Keystore
