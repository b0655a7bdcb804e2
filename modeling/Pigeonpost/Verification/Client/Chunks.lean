import Pigeonpost.Library.Outcome
import Pigeonpost.Verification.Shared.SampleClient

/-! # Dumps in chunks

Where a dump is cut into chunks makes no difference. -/

namespace Pigeonpost

open List

section Chunks

variable {A : Type} [AuditAccumulator A] (prim : Primitives) (json : JsonDecoders) (finish : ℕ)

/-- Chunks in turn, up to the first decision. -/
def processDumpChunks (state : DumpCpuState A) :
    List Bytes → Except RegistryError (DumpCpuState A × Option AuditDumpOutcome)
  | [] => .ok (state, none)
  | chunk :: chunks => do
    let (state, outcome) ← processDumpChunk prim json state chunk finish
    match outcome with
    | some outcome => return (state, some outcome)
    | none => processDumpChunks state chunks

variable {prim json finish} {state : DumpCpuState A} {line : Bytes}

theorem processDumpChunk_nil : processDumpChunk prim json state [] finish = .ok (state, none) := by
  rw [processDumpChunk]
  rfl

theorem processDumpChunk_unfinished (h : 0x0a ∉ line) (hne : line ≠ []) :
    processDumpChunk prim json state line finish =
      if state.pending.length + line.length > maxAuditDumpLineBytes then
        .error (.malformedEntry "registry dump entry exceeds the client limit")
      else .ok ({ state with pending := state.pending ++ line }, none) := by
  rw [processDumpChunk, if_neg (by simpa using hne)]
  split
  · rfl
  · next hs => exact absurd (hs.symm.trans (splitOnce_eq_none h)) (by simp)

theorem processDumpChunk_line (h : 0x0a ∉ line) (rest : Bytes) :
    processDumpChunk prim json state (line ++ 0x0a :: rest) finish =
      if state.pending.length + line.length > maxAuditDumpLineBytes then
        .error (.malformedEntry "registry dump entry exceeds the client limit")
      else (do
        let (state, outcome) ←
          processDumpLine prim json { state with pending := state.pending ++ line } finish
        match outcome with
        | some outcome => return (state, some outcome)
        | none => processDumpChunk prim json state rest finish) := by
  rw [processDumpChunk, if_neg (by simp)]
  split
  · next hs => exact absurd (hs.symm.trans (splitOnce_append h rest)) (by simp)
  · rename_i hs
    rw [splitOnce_append h] at hs
    obtain ⟨rfl, rfl⟩ := hs
    rfl

/-- A line that is too long is refused with the first chunk that makes it so. -/
theorem processDumpChunk_start (h : 0x0a ∉ line) (hne : line ≠ []) (rest : Bytes) :
    processDumpChunk prim json state (line ++ rest) finish =
      if state.pending.length + line.length > maxAuditDumpLineBytes then
        .error (.malformedEntry "registry dump entry exceeds the client limit")
      else
        processDumpChunk prim json { state with pending := state.pending ++ line } rest finish := by
  by_cases hr : (0x0a : UInt8) ∈ rest
  · obtain ⟨more, rest, rfl, hm⟩ := eq_append_cons_of_mem hr
    rw [← append_assoc, processDumpChunk_line (by simp [h, hm]), processDumpChunk_line hm,
      length_append, length_append, append_assoc, ← Nat.add_assoc]
    split_ifs
    · rfl
    · rfl
    · omega
    · rfl
  · rcases eq_or_ne rest [] with rfl | hrest
    · rw [append_nil, processDumpChunk_unfinished h hne, processDumpChunk_nil]
    · rw [processDumpChunk_unfinished (by simp [h, hr]) (by simp [hne]),
        processDumpChunk_unfinished hr hrest, length_append, length_append,
        append_assoc, ← Nat.add_assoc]
      split_ifs
      · rfl
      · rfl
      · omega
      · rfl

/-- A chunk goes on where the one before it ended. -/
theorem processDumpChunk_append (a b : Bytes) :
    processDumpChunk prim json state (a ++ b) finish = (do
      let (state, outcome) ← processDumpChunk prim json state a finish
      match outcome with
      | some outcome => return (state, some outcome)
      | none => processDumpChunk prim json state b finish) := by
  induction hn : a.length using Nat.strong_induction_on generalizing state a with
  | _ n ih =>
    by_cases hm : (0x0a : UInt8) ∈ a
    · obtain ⟨line, rest, rfl, hl⟩ := eq_append_cons_of_mem hm
      rw [append_assoc, cons_append, processDumpChunk_line hl, processDumpChunk_line hl]
      split
      · rfl
      rw [bind_assoc]
      congr
      funext ⟨next, outcome⟩
      cases outcome with
      | some => rfl
      | none => exact ih rest.length (by simp [← hn]; omega) rest rfl
    · rcases eq_or_ne a [] with rfl | hne
      · rw [processDumpChunk_nil]
        rfl
      · rw [processDumpChunk_start hm hne, processDumpChunk_unfinished hm hne]
        split <;> rfl

theorem processDumpChunks_eq (chunks : List Bytes) :
    processDumpChunks prim json finish state chunks =
      processDumpChunk prim json state chunks.flatten finish := by
  induction chunks generalizing state with
  | nil => exact processDumpChunk_nil.symm
  | cons chunk chunks ih =>
    rw [flatten_cons, processDumpChunk_append, processDumpChunks]
    congr
    funext ⟨next, outcome⟩
    cases outcome with
    | some => rfl
    | none => exact ih

/-- Two ways to cut one dump end alike. -/
theorem processDumpChunks_congr {chunks chunks' : List Bytes}
    (h : chunks.flatten = chunks'.flatten) :
    processDumpChunks prim json finish state chunks =
      processDumpChunks prim json finish state chunks' := by
  rw [processDumpChunks_eq, h, processDumpChunks_eq]

end Chunks

/-- A line in two chunks or in one. -/
theorem processDumpChunks_congr_sample :
    let state : DumpCpuState (ComplianceAuditAccumulator SampleHash) := ⟨⟨.new, ∅⟩, [], 0⟩
    processDumpChunks symbolicPrimitives sampleJson 1 state [ascii "cla", ascii "im\n"] =
      processDumpChunks symbolicPrimitives sampleJson 1 state [ascii "claim\n"] :=
  processDumpChunks_congr (by decide)

end Pigeonpost
