import Pigeonpost.Verification.Storage.Recovery

/-! # The mutation streams of the lofts

A loft is an endpoint with its key. It numbers its own mutations, and the table of
current mutations holds the last one of each loft. -/

namespace Pigeonpost

open Store List

variable {H : Type} {stream : Bytes × Bytes} {endpoint loftPubkey : Bytes} {sequence : UInt64}

def LogEntry.sequenceIn (stream : Bytes × Bytes) (entry : LogEntry) : Option ℕ :=
  match entry.authenticatedDirectoryMutation with
  | none => none
  | some (endpoint, loftPubkey, sequence) =>
    if (endpoint, loftPubkey) = stream then some sequence.toNat else none

theorem LogEntry.sequenceIn_eq_some {entry : LogEntry} {n : ℕ}
    (h : entry.sequenceIn stream = some n) :
    ∃ sequence, entry.authenticatedDirectoryMutation = some (stream.1, stream.2, sequence) ∧
      sequence.toNat = n := by
  unfold sequenceIn at h
  split at h
  · cases h
  · rename_i hm
    simp only [Option.ite_none_right_eq_some, Option.some.injEq] at h
    obtain ⟨rfl, rfl⟩ := h
    exact ⟨_, hm, rfl⟩

namespace Store

/-- The logged mutations of a loft with their numbers. -/
def mutationsOf (s : Store H) (stream : Bytes × Bytes) : List (LogEntry × ℕ) :=
  s.entries.filterMap fun row => (row.entry.sequenceIn stream).map (row.entry, ·)

/-- A stream begins with an addition and increases, and the table has its last mutation. -/
structure InOrder (s : Store H) (stream : Bytes × Bytes) : Prop where
  increasing : ((s.mutationsOf stream).map Prod.snd).Pairwise (· < ·)
  first : ∀ mutation ∈ (s.mutationsOf stream).head?,
    mutation.1.kind = .directoryAdd ∧ mutation.2 ≤ 1
  current : s.currentDirectoryMutation stream.1 stream.2 =
    (s.mutationsOf stream).getLast?.map fun mutation =>
      ⟨stream.1, stream.2, mutation.2, mutation.1.seq.toNat, mutation.1.kind.asStr⟩

variable [Sha256 H] {ctx : RegistryContext} {entry : LogEntry} {s s' : Store H}

section Appended

variable (ha : Appended ctx entry s s')
  (hm : entry.authenticatedDirectoryMutation = some (endpoint, loftPubkey, sequence))

include ha hm

theorem mutationsOf_appended (stream : Bytes × Bytes) :
    s'.mutationsOf stream = s.mutationsOf stream ++
      if (endpoint, loftPubkey) = stream then [(entry, sequence.toNat)] else [] := by
  obtain ⟨bytes, -, he⟩ := ha.entries
  rw [mutationsOf, he]
  split_ifs with h
  · simp [mutationsOf, entryRow, LogEntry.sequenceIn, hm, h]
  · simp [mutationsOf, entryRow, LogEntry.sequenceIn, hm, h]

theorem currentDirectoryMutation_appended (stream : Bytes × Bytes) :
    s'.currentDirectoryMutation stream.1 stream.2 = if (endpoint, loftPubkey) = stream then
        some ⟨endpoint, loftPubkey, sequence.toNat, entry.seq.toNat, entry.kind.asStr⟩
      else s.currentDirectoryMutation stream.1 stream.2 := by
  rw [currentDirectoryMutation, ha.directory, directoryAfter, hm]
  exact Table.find_upsert _ _

end Appended

variable [DecidableEq H]

theorem admitDirectory_eq_none {n : ℕ}
    (h : s.admitDirectory ctx entry endpoint loftPubkey n = .ok none) :
    s.currentDirectoryMutation endpoint loftPubkey = none ∧ entry.kind ≠ .directoryRemove ∧ n ≤ 1 ∨
    ∃ row, s.currentDirectoryMutation endpoint loftPubkey = some row ∧
      row.mutationSequence < n := by
  unfold admitDirectory at h
  split at h
  · rename_i hc
    split_ifs at h with hk hn
    exact .inl ⟨hc, hk, by omega⟩
  rename_i row hc
  split_ifs at h with hlt heq
  · obtain ⟨existing, -, h⟩ := bind_eq_ok.mp h
    cases existing with
    | none => simp at h
    | some => simp only [ok_iff, reduceCtorEq, and_false] at h
  · exact .inr ⟨row, hc, by omega⟩

theorem inOrder_continued (hs : s.InOrder (endpoint, loftPubkey)) (ha : Appended ctx entry s s')
    (hm : entry.authenticatedDirectoryMutation = some (endpoint, loftPubkey, sequence))
    (h : s.admitDirectory ctx entry endpoint loftPubkey sequence.toNat = .ok none) :
    s'.InOrder (endpoint, loftPubkey) := by
  have hl := mutationsOf_appended ha hm (endpoint, loftPubkey)
  have hc := currentDirectoryMutation_appended ha hm (endpoint, loftPubkey)
  have hcur := hs.current
  rw [if_pos rfl] at hl hc
  rcases admitDirectory_eq_none h with ⟨hn, hk, hle⟩ | ⟨row, hsome, hlt⟩
  · rw [hn, eq_comm, Option.map_eq_none_iff, getLast?_eq_none_iff] at hcur
    rw [hcur, nil_append] at hl
    refine ⟨by simp [hl], ?_, by simp [hl, hc]⟩
    have hadd : entry.kind = .directoryAdd := by
      cases entry <;> simp_all [LogEntry.authenticatedDirectoryMutation, LogEntry.kind]
    simp [hl, hadd, hle]
  · rw [hsome, eq_comm, Option.map_eq_some_iff] at hcur
    obtain ⟨last, hlast, rfl⟩ := hcur
    obtain ⟨earlier, he⟩ := getLast?_eq_some_iff.mp hlast
    have hi := hs.increasing
    have hf := hs.first
    rw [he] at hl hi hf
    refine ⟨?_, ?_, by simp [hl, hc]⟩
    · rw [hl, map_append, pairwise_append]
      refine ⟨hi, by simp, ?_⟩
      -- every earlier number is at most the last one
      rw [map_append, pairwise_append] at hi
      simp only [map_append, map_cons, map_nil, mem_append, mem_singleton] at hi ⊢
      rintro a (hmem | rfl) b rfl
      · exact (hi.2.2 a hmem _ rfl).trans hlt
      · exact hlt
    · rwa [hl, head?_append_of_ne_nil _ (by simp)]

theorem inOrder_appended (hs : s.InOrder stream) (ha : Appended ctx entry s s')
    (hm : entry.authenticatedDirectoryMutation = some (endpoint, loftPubkey, sequence))
    (h : s.admitDirectory ctx entry endpoint loftPubkey sequence.toNat = .ok none) :
    s'.InOrder stream := by
  by_cases heq : (endpoint, loftPubkey) = stream
  · subst heq
    exact inOrder_continued hs ha hm h
  · have hl := mutationsOf_appended ha hm stream
    have hc := currentDirectoryMutation_appended ha hm stream
    rw [if_neg heq] at hl hc
    rw [append_nil] at hl
    constructor
    · rw [hl]
      exact hs.increasing
    · rw [hl]
      exact hs.first
    · rw [hl, hc]
      exact hs.current

/-! ## Resubmissions and stale mutations -/

variable {current : LogEntry × ℕ}

theorem sequenceIn_of_mem (hinv : LogInvariant ctx s) (hmem : current ∈ s.mutationsOf stream) :
    s.entryAt ctx current.1.seq.toNat = .ok (some current.1) ∧
      current.1.validate ctx.prim = .ok () ∧ current.1.sequenceIn stream = some current.2 := by
  obtain ⟨row, hr, h⟩ := mem_filterMap.mp hmem
  obtain ⟨sequence, hs, rfl⟩ := Option.map_eq_some_iff.mp h
  obtain ⟨i, hi⟩ := mem_iff_getElem?.mp hr
  obtain ⟨entry, bytes, rfl, rfl, hl⟩ := hinv.rows i row hi
  exact ⟨entryAt_eq hinv hi, LogEntry.validate_of_leafBytes hl, hs⟩

theorem admitDirectory_current (hinv : LogInvariant ctx s) (hs : s.InOrder stream)
    (hc : current ∈ (s.mutationsOf stream).getLast?) (entry : LogEntry) (n : ℕ) :
    s.admitDirectory ctx entry stream.1 stream.2 n = if n < current.2 then .error .directoryReplay
      else if n = current.2 then
        if isExactRetry current.1 entry then .ok (some current.1.seq.toNat)
        else .error .directoryReplay
      else .ok none := by
  have hr := (sequenceIn_of_mem hinv (mem_of_getLast? hc)).1
  rw [admitDirectory, hs.current, Option.mem_def.mp hc]
  cases he : isExactRetry current.1 entry with
  | false => simp [hr, he, bind, Except.bind, throw, throwThe, MonadExceptOf.throw]
  | true => simp [hr, he, bind, Except.bind, pure, Except.pure]

omit [Sha256 H] [DecidableEq H] in
theorem validate_of_isExactRetry {mutation : DirectoryMutation} {tsMs : UInt64}
    {existing : LogEntry} {prim : Primitives}
    (h : isExactRetry existing (s.directoryEntry mutation tsMs) = true)
    (hv : existing.validate prim = .ok ()) :
    (s.directoryEntry mutation tsMs).validate prim = .ok () ∧
      (s.directoryEntry mutation tsMs).authenticatedDirectoryMutation =
        existing.authenticatedDirectoryMutation := by
  have hver := LogEntry.version_of_validate hv
  cases mutation with
  | add payload =>
    cases existing with
    | directoryAdd v =>
      obtain ⟨version, seq, payload, time⟩ := v
      obtain rfl := of_decide_eq_true h
      obtain rfl : version = logEntryVersion := by
        simpa [LogEntry.version, LogEntry.handleBinding] using hver
      exact ⟨hv, rfl⟩
    | _ => simp [isExactRetry, directoryEntry, LogEntry.ofDirectoryAdd] at h
  | remove payload =>
    cases existing with
    | directoryRemove v =>
      obtain ⟨version, seq, payload, time⟩ := v
      obtain rfl := of_decide_eq_true h
      obtain rfl : version = logEntryVersion := by
        simpa [LogEntry.version, LogEntry.handleBinding] using hver
      exact ⟨hv, rfl⟩
    | _ => simp [isExactRetry, directoryEntry, LogEntry.ofDirectoryRemove] at h

end Store

/-! ## Runs of directory appends -/

variable [Sha256 H] [HashBytes H] [DecidableEq H]

/-- A run of additions and removals with their clock readings, failed ones included. -/
def runDirectory (ctx : RegistryContext) (mutations : List (ℕ × DirectoryMutation × UInt64))
    (s : Store H) : Store H :=
  runOps ctx (mutations.map fun (nowMs, mutation, tsMs) => .directory nowMs mutation tsMs) s

theorem inOrder_runDirectory {ctx : RegistryContext}
    (mutations : List (ℕ × DirectoryMutation × UInt64)) {s : Store H} (hinv : LogInvariant ctx s)
    (hs : s.InOrder stream) :
    LogInvariant ctx (runDirectory ctx mutations s) ∧
      (runDirectory ctx mutations s).InOrder stream := by
  induction mutations generalizing s with
  | nil => exact ⟨hinv, hs⟩
  | cons op mutations ih =>
    obtain ⟨nowMs, mutation, tsMs⟩ := op
    rw [runDirectory, map_cons, runOps, foldl_cons]
    rcases transact_cases (appendDirectoryMutation ctx nowMs mutation tsMs) s with h | ⟨_, h⟩
    · rw [RegistryOp.execute, h]
      exact ih hinv hs
    · rcases appendDirectoryMutation_cases hinv h with hsame | ⟨_, _, _, hm, hadm, ha⟩
      · rw [RegistryOp.execute, hsame]
        exact ih hinv hs
      · exact ih ha.invariant (inOrder_appended hs ha hm hadm)

omit [DecidableEq H] in
theorem inOrder_fresh (ctx : RegistryContext) (stream : Bytes × Bytes) :
    (fresh ctx : Store H).InOrder stream := by
  constructor <;> simp [fresh, mutationsOf, currentDirectoryMutation]

/-- Over every run of additions and removals the numbers of a loft increase from an
addition numbered at most one. An exact retry of the current mutation finds its leaf,
and what else is not numbered above it is refused. -/
theorem runDirectory_streams (ctx : RegistryContext)
    (mutations : List (ℕ × DirectoryMutation × UInt64)) (stream : Bytes × Bytes) :
    let s := runDirectory ctx mutations (fresh ctx : Store H)
    ((s.mutationsOf stream).map Prod.snd).Pairwise (· < ·) ∧
    (∀ first ∈ (s.mutationsOf stream).head?, first.1.kind = .directoryAdd ∧ first.2 ≤ 1) ∧
    ∀ current ∈ (s.mutationsOf stream).getLast?, ∀ nowMs mutation tsMs,
      (isExactRetry current.1 (s.directoryEntry mutation tsMs) = true →
        transact (appendDirectoryMutation ctx nowMs mutation tsMs) s =
          (s, .ok ⟨current.1.seq.toNat, false⟩)) ∧
      ∀ n ≤ current.2, (s.directoryEntry mutation tsMs).sequenceIn stream = some n →
        isExactRetry current.1 (s.directoryEntry mutation tsMs) = false →
        ∃ e, transact (appendDirectoryMutation ctx nowMs mutation tsMs) s = (s, .error e) := by
  intro s
  obtain ⟨hinv, hs⟩ : LogInvariant ctx s ∧ s.InOrder stream :=
    inOrder_runDirectory mutations (logInvariant_fresh ctx) (inOrder_fresh ctx stream)
  refine ⟨hs.increasing, hs.first, ?_⟩
  intro current hc nowMs mutation tsMs
  have hadm := admitDirectory_current hinv hs hc (s.directoryEntry mutation tsMs)
  obtain ⟨-, hvalid, hseq⟩ := sequenceIn_of_mem hinv (mem_of_getLast? hc)
  constructor
  · intro he
    obtain ⟨hv, hm⟩ := validate_of_isExactRetry he hvalid
    obtain ⟨sequence, hauth, heq⟩ := LogEntry.sequenceIn_eq_some hseq
    apply transact_of_ok
    simp [appendDirectoryMutation, hv, hm, hauth, hadm, heq, he, bind, Except.bind,
      Except.mapError, pure, Except.pure]
  · intro n hle hn he
    obtain ⟨sequence, hauth, rfl⟩ := LogEntry.sequenceIn_eq_some hn
    have hstale : s.admitDirectory ctx (s.directoryEntry mutation tsMs) stream.1 stream.2
        sequence.toNat = .error .directoryReplay := by
      rcases hle.lt_or_eq with hlt | heq
      · simp [hadm, hlt]
      · simp [hadm, he, heq]
    cases hv : (s.directoryEntry mutation tsMs).validate ctx.prim with
    | error e =>
      refine ⟨malformedEntry e, ?_⟩
      simp [transact, appendDirectoryMutation, hv, bind, Except.bind, Except.mapError]
    | ok =>
      refine ⟨.directoryReplay, ?_⟩
      simp [transact, appendDirectoryMutation, hv, hauth, hstale, bind, Except.bind,
        Except.mapError]

end Pigeonpost
