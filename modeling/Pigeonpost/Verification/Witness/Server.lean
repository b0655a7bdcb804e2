import Pigeonpost.Library.Machine
import Pigeonpost.Program.Witness.Server
import Pigeonpost.Verification.Checkpoint.Notes
import Pigeonpost.Verification.Log.Consistency
import Mathlib.Data.List.Pairwise

/-! # Runs of a witness

Whatever a witness hands out, over any submissions and crashes, is one chain of
tree heads that grow by consistency proofs. -/

namespace Pigeonpost

open List

/-! ## Growing tree heads -/

/-- A size and the root claimed for it. The root need not be that of any tree. -/
structure TreeHead (H : Type) where
  size : ℕ
  root : H

namespace TreeHead

variable {H : Type} [Sha256 H] [DecidableEq H]
variable {earlier later : TreeHead H}

/-- One accepted step: the same head again, a first step off the empty tree, or a
verified consistency proof. -/
inductive Grows : TreeHead H → TreeHead H → Prop
  | same (head : TreeHead H) : Grows head head
  | fromEmpty {root : H} {later : TreeHead H} (h : later.size ≠ 0) : Grows ⟨0, root⟩ later
  | proved {earlier later : TreeHead H} {proof : List H}
    (h : verifyConsistency earlier.size earlier.root later.size later.root proof = true) :
    Grows earlier later

def Extends : TreeHead H → TreeHead H → Prop := Relation.ReflTransGen Grows

theorem Grows.size_le (h : Grows earlier later) : earlier.size ≤ later.size := by
  cases h with
  | same => exact le_rfl
  | fromEmpty => exact Nat.zero_le _
  | proved h =>
    rw [verifyConsistency] at h
    split at h
    · cases h
    · omega

theorem Grows.root_eq (h : Grows earlier later)
    (hs : earlier.size = later.size) : earlier.root = later.root := by
  cases h with
  | same => rfl
  | fromEmpty hne => exact absurd hs.symm hne
  | proved h =>
    rw [hs, verifyConsistency] at h
    split at h
    · cases h
    rw [if_pos rfl] at h
    simp only [Bool.and_eq_true, decide_eq_true_eq] at h
    exact h.2

theorem Extends.size_le (h : Extends earlier later) : earlier.size ≤ later.size := by
  induction h with
  | refl => exact le_rfl
  | tail _ hl ih => exact ih.trans hl.size_le

theorem Extends.root_eq (h : Extends earlier later)
    (hs : earlier.size = later.size) : earlier.root = later.root := by
  induction h with
  | refl => rfl
  | tail hr hl ih =>
    have hm : earlier.size = _ := le_antisymm (Extends.size_le hr) (hl.size_le.trans_eq hs.symm)
    exact (ih hm).trans (hl.root_eq (hm.symm.trans hs))

/-- Behind the root of a leaf list, every nonempty head of the chain is the root of
a prefix, whatever the heads in between are. -/
theorem Extends.root_eq_logRoot (hn : Function.Injective2 (nodeHash (H := H))) {leaves : List H}
    (h : Extends earlier later) (hl : later = ⟨leaves.length, logRoot leaves⟩)
    (hp : 0 < earlier.size) : earlier.root = logRoot (leaves.take earlier.size) := by
  induction h using Relation.ReflTransGen.head_induction_on with
  | refl => simp [hl]
  | @head earlier middle hf hr ih =>
    have hle : middle.size ≤ leaves.length := by
      simpa [hl] using Extends.size_le hr
    cases hf with
    | same => exact ih hp
    | fromEmpty => exact absurd hp (lt_irrefl 0)
    | @proved _ _ proof h =>
      have hs := (Grows.proved h).size_le
      have hm := ih (hp.trans_le hs)
      have hlen : (leaves.take middle.size).length = middle.size := by
        rw [length_take]
        omega
      rw [hm] at h
      nth_rewrite 1 [← hlen] at h
      rw [verifyConsistency_sound hn h, take_take, Nat.min_eq_left hs]

end TreeHead

/-! ## What one submission does -/

def Stored.head {H : Type} (stored : Stored H) : TreeHead H := ⟨stored.size, stored.root⟩

namespace Witness

variable {H : Type} [Sha256 H] [HashBytes H] [DecidableEq H] {sigs : Signatures}
variable {w : Witness} {body line : Bytes} {now : ℕ} {server : Server H} {submission : Submission H}
  {checkpoint : Checkpoint H}

omit [Sha256 H] [DecidableEq H] in
theorem loadState_serialize (stored : Stored H) :
    loadState (some (serialize stored)) = some stored := by
  simp [loadState, serialize, decodeHexPairs_hex, HashBytes.ofBytes_toBytes]

theorem readSubmission_eq_ok :
    readSubmission sigs w body = .ok (submission, checkpoint) ↔
      body.length ≤ maxRequestBytes ∧ isUtf8 body = true ∧ parseSubmission body = some submission ∧
        Checkpoint.verify sigs submission.note w.logKey = .ok checkpoint ∧
        checkpoint.origin = w.logOrigin ∧ (checkpoint.size = 0 → checkpoint.root = emptyRoot) := by
  simp only [readSubmission, ok_iff, Nat.not_lt, Bool.not_eq_true, Bool.not_eq_false']
  refine and_congr_right fun _ => and_congr_right fun _ => ?_
  cases hp : parseSubmission (H := H) body with
  | none => simp [throw_ne_ok]
  | some parsed =>
    cases hv : Checkpoint.verify (H := H) sigs parsed.note w.logKey with
    | error =>
      simp only [hv, throw_ne_ok, Option.some.injEq, false_iff, not_and]
      rintro rfl hok
      exact absurd (hv.symm.trans hok) (by simp)
    | ok =>
      simp only [hv, ok_iff, Prod.mk.injEq, Option.some.injEq, not_not, not_and]
      constructor
      · rintro ⟨ho, he, rfl, rfl⟩
        exact ⟨rfl, hv, ho, he⟩
      · rintro ⟨rfl, hok, ho, he⟩
        rw [hv, Except.ok.injEq] at hok
        subst hok
        exact ⟨ho, he, rfl, rfl⟩

omit [HashBytes H] in
theorem checkGrowth_grows {stored : Stored H}
    (h : checkGrowth (some stored) submission checkpoint = .ok ()) :
    TreeHead.Grows stored.head ⟨checkpoint.size, checkpoint.root⟩ := by
  simp only [checkGrowth] at h
  split at h
  · cases h
  split at h
  · rename_i hs
    split at h
    · cases h
    rename_i hr
    rw [hs, not_not.mp hr]
    exact .same _
  · rename_i hs
    split at h
    · rename_i hz
      rw [Stored.head, hz]
      exact .fromEmpty (hz ▸ hs)
    · split at h
      · cases h
      · next hp => exact .proved (by simpa [Stored.head] using hp)

variable {stored : Option (Stored H)}

theorem cosign_eq_ok {next : Stored H} :
    cosign sigs w stored body now = .ok (next, line) ↔ ∃ submission checkpoint,
      readSubmission sigs w body = .ok (submission, checkpoint) ∧
      checkGrowth stored submission checkpoint = .ok () ∧
      checkpoint.cosignatureLine sigs w.name w.signingKey now = .ok line ∧
      next = ⟨checkpoint.size, checkpoint.root, submission.note⟩ := by
  simp only [cosign, ok_iff, Prod.exists, Unique.exists_iff, PUnit.default_eq_unit]
  refine exists_congr fun submission => exists_congr fun checkpoint => and_congr_right fun _ =>
    and_congr_right fun _ => ?_
  cases hl : checkpoint.cosignatureLine sigs w.name w.signingKey now with
  | error => simp [throw_ne_ok]
  | ok =>
    simp only [ok_iff, Prod.mk.injEq, Except.ok.injEq]
    exact ⟨fun h => ⟨h.2, h.1.symm⟩, fun h => ⟨h.2.symm, h.1⟩⟩

theorem newline_not_mem_logOrigin {next : Stored H}
    (h : cosign sigs w stored body now = .ok (next, line)) : newline ∉ w.logOrigin := by
  obtain ⟨submission, checkpoint, hr, -⟩ := cosign_eq_ok.mp h
  obtain ⟨-, -, -, hv, ho, -⟩ := readSubmission_eq_ok.mp hr
  obtain ⟨-, text, signatures, -, hp, -⟩ := Checkpoint.verify_eq_ok.mp hv
  rw [← ho]
  exact Checkpoint.newline_not_mem_origin hp

/-! ## Whole runs -/

variable (sigs) in
def run (w : Witness) (events : List Event) : Server H × List (Cosigned H) :=
  Machine.run (step sigs w) Server.empty events

def Cosigned.head (cosigned : Cosigned H) : TreeHead H :=
  ⟨cosigned.checkpoint.size, cosigned.checkpoint.root⟩

/-- A stored checkpoint that extends everything handed out so far. -/
def Covers (stored : Option (Stored H)) (out : List (Cosigned H)) : Prop :=
  ∀ cosigned ∈ out, ∃ current, stored = some current ∧ TreeHead.Extends cosigned.head current.head

variable {out : List (Cosigned H)}

theorem Covers.next (h : Covers stored out) {next : Stored H}
    (hc : cosign sigs w stored body now = .ok (next, line)) : Covers (some next) out := by
  intro cosigned hm
  obtain ⟨current, rfl, he⟩ := h cosigned hm
  obtain ⟨_, _, -, hg, -, rfl⟩ := cosign_eq_ok.mp hc
  exact ⟨_, rfl, he.tail (checkGrowth_grows hg)⟩

/-- The memory and the state file each extend everything handed out, in whose order
every head extends the ones before it. -/
structure RunInvariant (server : Server H) (out : List (Cosigned H)) : Prop where
  memory : Covers server.memory out
  file : Covers (loadState server.file) out
  chain : out.Pairwise fun earlier later => TreeHead.Extends earlier.head later.head
  origin : ∀ cosigned ∈ out, newline ∉ cosigned.checkpoint.origin

section

variable (h : RunInvariant server out)

include h

theorem RunInvariant.restart : RunInvariant (restart server) out :=
  ⟨h.file, h.file, h.chain, h.origin⟩

theorem RunInvariant.failed (body : Bytes) (now : ℕ) (renamed : Bool) :
    RunInvariant (addCheckpoint sigs w server body now (.failed renamed)).1 out := by
  rw [addCheckpoint]
  cases hc : cosign sigs w server.memory body now with
  | error => exact h
  | ok result =>
    refine ⟨h.memory, ?_, h.chain, h.origin⟩
    cases renamed with
    | false => exact h.file
    | true =>
      simp only [saveState, loadState_serialize]
      exact h.memory.next hc

theorem RunInvariant.written (body : Bytes) (now : ℕ) :
    RunInvariant (addCheckpoint sigs w server body now .written).1
      (out ++ released sigs w server body now .written) := by
  unfold addCheckpoint released
  cases hc : cosign sigs w server.memory body now with
  | error => simpa [hc] using h
  | ok result =>
    obtain ⟨next, line⟩ := result
    have hold := h.memory.next hc
    have hn : Covers (some next) (out ++ [⟨now, ⟨w.logOrigin, next.size, next.root⟩⟩]) :=
      forall_mem_append.mpr ⟨hold, forall_mem_singleton.mpr ⟨next, rfl, .refl⟩⟩
    refine ⟨hn, ?_, ?_, ?_⟩
    · simpa only [saveState, loadState_serialize] using hn
    · refine pairwise_append_singleton.mpr ⟨h.chain, fun earlier hm => ?_⟩
      obtain ⟨current, hcur, he⟩ := hold earlier hm
      rw [Option.some.inj hcur]
      exact he
    · exact forall_mem_append.mpr ⟨h.origin,
        forall_mem_singleton.mpr (newline_not_mem_logOrigin hc)⟩

theorem step_invariant (event : Event) :
    RunInvariant (step sigs w server event).1 (out ++ (step sigs w server event).2) := by
  cases event with
  | submission body now save =>
    cases save with
    | written => exact h.written body now
    | failed renamed => simpa [step, released] using h.failed body now renamed
  | crash => simpa [step] using h.restart
  | crashDuring body now renamed => simpa [step] using (h.failed body now renamed).restart

end

variable (sigs) in
theorem run_invariant (w : Witness) (events : List Event) :
    RunInvariant (run (H := H) sigs w events).1 (run sigs w events).2 :=
  Machine.run_invariant RunInvariant
    ⟨by simp [Covers], by simp [Covers], List.Pairwise.nil, by simp⟩ events
    fun event _ _ _ h => step_invariant h event

/-- Any two heads that a witness handed out lie on one chain. -/
theorem run_extends {events : List Event} {one other : Cosigned H}
    (hone : one ∈ (run sigs w events).2) (ho : other ∈ (run sigs w events).2) :
    TreeHead.Extends one.head other.head ∨ TreeHead.Extends other.head one.head := by
  let R : Cosigned H → Cosigned H → Prop := fun one other =>
    TreeHead.Extends one.head other.head ∨ TreeHead.Extends other.head one.head
  have : Std.Symm R := ⟨fun _ _ h => h.symm⟩
  have hc : (run sigs w events).2.Pairwise R :=
    (run_invariant sigs w events).chain.imp fun h => .inl h
  exact hc.forall_of_forall (fun _ _ => .inl .refl) hone ho

/-- A witness hands out heads in one chain and, however its process is killed, restarts with a
head that extends them all. -/
theorem restart_extends_released (w : Witness) (events : List Event) :
    let server := (run (H := H) sigs w events).1
    let out := (run (H := H) sigs w events).2
    out.Pairwise (fun earlier later => TreeHead.Extends earlier.head later.head) ∧
    ∀ cosigned ∈ out, ∃ current, (restart server).memory = some current ∧
      TreeHead.Extends cosigned.head current.head := by
  have h := run_invariant (H := H) sigs w events
  exact ⟨h.chain, h.restart.memory⟩

end Witness

end Pigeonpost
