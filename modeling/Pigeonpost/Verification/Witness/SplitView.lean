import Pigeonpost.Verification.Shared.SampleClient
import Pigeonpost.Verification.Witness.Server

/-! # No split view under an honest intersection -/

namespace Pigeonpost

open Checkpoint List

/-! ## Quorums -/

theorem countP_add_countP_le {α : Type} (roster : List α) (p q bad : α → Bool) :
    roster.countP p + roster.countP q ≤
      roster.countP (fun member => p member && q member && !bad member) + roster.countP bad
        + roster.length := by
  induction roster with
  | nil => simp
  | cons member =>
    simp only [countP_cons, length_cons]
    cases p member <;> cases q member <;> cases bad member <;> simp <;> omega

variable {k : ℕ}

/-- Two quorums of one roster share a member outside a set that is too small to be
their whole overlap. -/
theorem exists_common_of_countP {α : Type} {roster : List α} {p q bad : α → Bool}
    (hp : k ≤ roster.countP p) (hq : k ≤ roster.countP q)
    (hb : roster.countP bad < 2 * k - roster.length) :
    ∃ member ∈ roster, p member = true ∧ q member = true ∧ bad member = false := by
  have hs := countP_add_countP_le roster p q bad
  have hpos : 0 < roster.countP fun member => p member && q member && !bad member := by omega
  obtain ⟨member, hm, hc⟩ := countP_pos_iff.mp hpos
  simp only [Bool.and_eq_true, Bool.not_eq_true'] at hc
  exact ⟨member, hm, hc.1.1, hc.1.2, hc.2⟩

variable {H : Type} [Sha256 H] [HashBytes H] [DecidableEq H]

/-- Under an ideal signature, a key verifies only what its holder let out. -/
def SignsOnly (sigs : Signatures) (key : Bytes) (out : List (Witness.Cosigned H)) : Prop :=
  ∀ message signature, sigs.verifyStrict key message signature = true → ∃ cosigned ∈ out,
      message = cosignatureMessage cosigned.timestamp cosigned.checkpoint.body

/-- A roster member that runs the witness service from an empty state, whatever is
submitted to it and wherever it crashes. -/
def Honest (H : Type) [Sha256 H] [HashBytes H] [DecidableEq H] (sigs : Signatures)
    (member : WitnessKey) : Prop :=
  ∃ (w : Witness) (events : List Witness.Event), sigs.verifyingKey w.signingKey = member.key ∧
    SignsOnly sigs member.key (Witness.run (H := H) sigs w events).2

variable {sigs : Signatures} {misbehaves : WitnessKey → Bool} {text key text' key' : Bytes}
  {roster : List WitnessKey} {one other : Checkpoint H}

/-- What an honest witness cosigned in a note is a head it released. The witness signs a
body it renders itself, the reader verifies the text it was given. -/
theorem exists_released {member : WitnessKey} {w : Witness} {events : List Witness.Event}
    (hs : SignsOnly sigs member.key (Witness.run (H := H) sigs w events).2)
    {body signatures : Bytes} {checkpoint : Checkpoint H} (hp : parseBody body = .ok checkpoint)
    (h : hasCosignature sigs body signatures member = true) :
    ∃ cosigned ∈ (Witness.run (H := H) sigs w events).2,
      cosigned.head = ⟨checkpoint.size, checkpoint.root⟩ := by
  obtain ⟨timestamp, signature, hv⟩ := exists_verified_of_hasCosignature h
  obtain ⟨cosigned, hmem, hm⟩ := hs _ _ hv
  have hb := (cosignatureMessage_inj.mp hm).2
  rw [body_eq, append_cancel_right_eq] at hb
  rw [hb] at hp
  have ho := (Witness.run_invariant sigs w events).origin cosigned hmem
  obtain ⟨hsize, hr⟩ := parseBody_fields ho hp
  exact ⟨cosigned, hmem, by rw [Witness.Cosigned.head, hsize, hr]⟩

/-- Any two notes accepted under one roster and threshold lie on one chain of heads. -/
theorem verifyWithWitnesses_extends
    (hh : ∀ member ∈ roster, misbehaves member = false → Honest H sigs member)
    (hf : roster.countP misbehaves < 2 * k - roster.length)
    (hone : verifyWithWitnesses sigs text key roster k = .ok one)
    (ho : verifyWithWitnesses sigs text' key' roster k = .ok other) :
    TreeHead.Extends ⟨one.size, one.root⟩ ⟨other.size, other.root⟩ ∨
      TreeHead.Extends ⟨other.size, other.root⟩ ⟨one.size, one.root⟩ := by
  have hk : k ≠ 0 := by omega
  obtain ⟨body, signatures, hp, hc⟩ := verifyWithWitnesses_eq_ok hk hone
  obtain ⟨body', signatures', hp', hc'⟩ := verifyWithWitnesses_eq_ok hk ho
  obtain ⟨member, hm, hcosig, hcosig', hg⟩ := exists_common_of_countP hc hc' hf
  obtain ⟨w, events, -, hs⟩ := hh member hm hg
  obtain ⟨cosigned, hout, hhead⟩ := exists_released hs hp hcosig
  obtain ⟨cosigned', ho', hh'⟩ := exists_released hs hp' hcosig'
  rw [← hhead, ← hh']
  exact Witness.run_extends hout ho'

/-- No split view: while fewer than `2k - N` of a roster's `N` witnesses misbehave, two
notes accepted under the threshold `k` agree on the root of a size, and the smaller one
is a prefix of the leaves behind the larger. -/
theorem no_split_view {sigs : Signatures}
    (hhonest : ∀ member ∈ roster, misbehaves member = false → Honest H sigs member)
    (hfew : roster.countP misbehaves < 2 * k - roster.length)
    (hone : verifyWithWitnesses sigs text key roster k = .ok one)
    (hother : verifyWithWitnesses sigs text' key' roster k = .ok other) :
    (one.size = other.size → one.root = other.root) ∧
      (Function.Injective2 (nodeHash (H := H)) → ∀ leaves : List H,
        other.size = leaves.length → other.root = MerkleLog.rootRange leaves →
        0 < one.size → one.size < other.size →
        one.root = MerkleLog.rootRange (leaves.take one.size)) := by
  have hc := verifyWithWitnesses_extends hhonest hfew hone hother
  constructor
  · intro hs
    rcases hc with h | h
    · exact h.root_eq hs
    · exact (h.root_eq hs.symm).symm
  · intro hn leaves hl hr hp hlt
    rw [MerkleLog.rootRange_eq_logRoot] at hr ⊢
    rcases hc with h | h
    · exact h.root_eq_logRoot hn (by rw [hl, hr]) hp
    · exact absurd h.size_le (Nat.not_le.mpr hlt)

/-! ## Two notes of a growing log -/

/-- The cosignature of a member that the sample notes carry. -/
def sampleMessage (size : ℕ) (root : SampleHash) : Bytes :=
  cosignatureMessage 100 (Checkpoint.body ⟨sampleTrust.expectedOrigin, size, root⟩)

/-- The sample witness's key verifies the two cosignatures it releases below. -/
def idealSignatures : Signatures where
  verifyingKey key := key
  sign _ _ := List.replicate 64 0
  isWeak _ := false
  verifyStrict key message _ :=
    key != sampleWitness.key || message == sampleMessage 1 claimHash
      || message == sampleMessage 2 (nodeHash claimHash rotationHash)
  sha256 bytes := bytes

def rogueWitness : WitnessKey := ⟨ascii "rogue.test", ascii "rogue"⟩

def sampleService : Witness where
  name := sampleWitness.name
  signingKey := sampleWitness.key
  logOrigin := sampleTrust.expectedOrigin
  logKey := sampleTrust.checkpointKey

def sampleOperatorNote (size : ℕ) (root : SampleHash) : Bytes :=
  Checkpoint.sign idealSignatures ⟨sampleTrust.expectedOrigin, size, root⟩ sampleTrust.checkpointKey

/-- The second submission is interrupted once before it goes through. -/
def sampleEvents : List Witness.Event :=
  let first := ascii "old 0\n\n" ++ sampleOperatorNote 1 claimHash
  let second := ascii "old 1\n" ++ Base64.encode (HashBytes.toBytes rotationHash) ++ ascii "\n\n"
    ++ sampleOperatorNote 2 (nodeHash claimHash rotationHash)
  [.submission first 100 .written, .crashDuring second 99 false, .submission second 100 .written,
    .crash]

def witnessedNote (size : ℕ) (root : SampleHash) : Bytes :=
  let checkpoint : Checkpoint SampleHash := ⟨sampleTrust.expectedOrigin, size, root⟩
  sampleOperatorNote size root ++ [sampleWitness, rogueWitness].flatMap fun witness =>
    (checkpoint.cosignatureLine idealSignatures witness.name witness.key 100).toOption.getD []

set_option maxRecDepth 10000 in
theorem sampleService_honest : Honest SampleHash idealSignatures sampleWitness := by
  have hm : (Witness.run (H := SampleHash) idealSignatures sampleService sampleEvents).2.map
      (fun cosigned => cosignatureMessage cosigned.timestamp cosigned.checkpoint.body) =
      [sampleMessage 1 claimHash, sampleMessage 2 (nodeHash claimHash rotationHash)] := by
    decide +kernel
  refine ⟨sampleService, sampleEvents, rfl, ?_⟩
  intro message signature h
  have hmem : message ∈ [sampleMessage 1 claimHash,
      sampleMessage 2 (nodeHash claimHash rotationHash)] := by
    simpa [idealSignatures] using h
  rw [← hm, mem_map] at hmem
  obtain ⟨cosigned, ho, heq⟩ := hmem
  exact ⟨cosigned, ho, heq.symm⟩

set_option maxRecDepth 10000 in
theorem no_split_view_two_witnesses : claimHash = MerkleLog.rootRange [claimHash] ∧
      verifyWithWitnesses idealSignatures (witnessedNote 1 claimHash)
          sampleTrust.checkpointKey [sampleWitness, rogueWitness] 2 =
        .ok ⟨sampleTrust.expectedOrigin, 1, claimHash⟩ := by
  have hone : verifyWithWitnesses idealSignatures (witnessedNote 1 claimHash)
      sampleTrust.checkpointKey [sampleWitness, rogueWitness] 2 =
        .ok (⟨sampleTrust.expectedOrigin, 1, claimHash⟩ : Checkpoint SampleHash) := by
    decide +kernel
  have ho : verifyWithWitnesses idealSignatures (witnessedNote 2 (nodeHash claimHash rotationHash))
      sampleTrust.checkpointKey [sampleWitness, rogueWitness] 2 =
        .ok (⟨sampleTrust.expectedOrigin, 2, nodeHash claimHash rotationHash⟩ :
          Checkpoint SampleHash) := by
    decide +kernel
  have hh : ∀ member ∈ [sampleWitness, rogueWitness],
      (member == rogueWitness) = false → Honest SampleHash idealSignatures member := by
    intro member hm hg
    simp only [mem_cons, not_mem_nil, or_false] at hm
    rcases hm with rfl | rfl
    · exact sampleService_honest
    · exact absurd hg (by decide)
  have hs := no_split_view hh (by decide) hone ho
  exact ⟨hs.2 SampleHash.nodeHash_injective2 [claimHash, rotationHash] rfl (by decide +kernel)
    (by decide) (by decide), hone⟩

end Pigeonpost
