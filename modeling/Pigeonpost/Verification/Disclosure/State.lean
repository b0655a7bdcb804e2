import Pigeonpost.Program.Disclosure.State
import Pigeonpost.Verification.Checkpoint.Notes

/-! # What an authenticated restart state reads back as -/

namespace Pigeonpost

open List StateReader

/-! ## The reader -/

namespace StateReader

variable {α β : Type} [HashBytes H] {rest after : Bytes}

theorem run_bind_ok {x : StateReader α} {f : α → StateReader β} {value : α}
    (h : x.run rest = .ok (value, after)) : (x >>= f).run rest = (f value).run after := by
  rw [StateT.run_bind, h]
  rfl

theorem run_take {bytes : Bytes} {length : ℕ} (h : bytes.length = length) (rest : Bytes) :
    (take length).run (bytes ++ rest) = .ok (bytes, rest) := by
  have hn : ¬(bytes ++ rest).length < length := by
    rw [length_append]
    omega
  change (if (bytes ++ rest).length < length then _ else _) = _
  rw [if_neg hn, take_left' h, drop_left' h]

theorem run_u64 {n : ℕ} (h : n < 2 ^ 64) (rest : Bytes) :
    u64.run (beBytes 8 n ++ rest) = .ok (n, rest) := by
  rw [u64, run_bind_ok (run_take (length_beBytes 8 n) rest), readBE_beBytes h]
  rfl

theorem run_u32 {n : ℕ} (h : n < 2 ^ 32) (rest : Bytes) :
    u32.run (beBytes 4 n ++ rest) = .ok (n, rest) := by
  rw [u32, run_bind_ok (run_take (length_beBytes 4 n) rest), readBE_beBytes h]
  rfl

theorem run_array32 (h32 : Hashes32 H) (hash : H) (rest : Bytes) :
    (array32 (H := H)).run (HashBytes.toBytes hash ++ rest) = .ok (hash, rest) := by
  rw [array32, run_bind_ok (run_take (h32 hash) rest), HashBytes.ofBytes_toBytes]
  rfl

theorem run_take_one (byte : UInt8) (rest : Bytes) :
    (take 1).run (byte :: rest) = .ok ([byte], rest) :=
  run_take (show [byte].length = 1 from rfl) rest

theorem run_optionalHash (h32 : Hashes32 H) (hash : Option H) (rest : Bytes) :
    (optionalHash (H := H)).run (pushOptionalHash hash ++ rest) = .ok (hash, rest) := by
  cases hash with
  | none => rfl
  | some hash =>
    rw [optionalHash, pushOptionalHash, cons_append, run_bind_ok (run_take_one 1 _),
      run_bind_ok (run_take (h32 hash) rest), HashBytes.ofBytes_toBytes]
    rfl

theorem run_optionalBytes {pending : Option Bytes} {encoded : Bytes}
    (h : pushOptionalStateBytes pending = .ok encoded) (rest : Bytes) :
    (optionalBytes maxLeafBytes).run (encoded ++ rest) = .ok (pending, rest) := by
  cases pending with
  | none =>
    cases h
    rfl
  | some bytes =>
    simp only [pushOptionalStateBytes] at h
    split at h
    · cases h
    next hb =>
      cases h
      have hl : bytes.length < 2 ^ 32 := by
        have : maxLeafBytes = 4096 := rfl
        omega
      rw [optionalBytes, cons_append, append_assoc, run_bind_ok (run_take_one 1 _),
        if_neg (by decide), if_pos rfl, run_bind_ok (run_u32 hl _),
        run_bind_ok (run_take rfl rest), if_neg hb]
      rfl

end StateReader

/-! ## The state -/

namespace PersistedLedgerState

variable {H : Type} [HashBytes H] {state : PersistedLedgerState H}

/-- A state whose numbers and marker have the width of their fields. -/
structure Sized (state : PersistedLedgerState H) : Prop where
  marker : state.mutationMarker.length = 16
  generation : state.generation < 2 ^ 64
  logLen : state.logLen < 2 ^ 64

/-- The payload, given its encoded pending record. -/
def payload (state : PersistedLedgerState H) (pending : Bytes) : Bytes :=
  HashBytes.toBytes state.fileIdentity ++ (state.mutationMarker
    ++ (beBytes 8 state.generation ++ (beBytes 8 state.logLen
    ++ (pushOptionalHash state.lastLeafHash ++ (pending
    ++ (HashBytes.toBytes state.root ++ []))))))

theorem run_readPayload (h32 : Hashes32 H) (hs : state.Sized) {pending : Bytes}
    (hp : pushOptionalStateBytes state.pendingAppend = .ok pending) :
    (readPayload (H := H)).run (state.payload pending) = .ok (state, []) := by
  rw [readPayload, payload, run_bind_ok (run_array32 h32 _ _),
    run_bind_ok (run_take hs.marker _), run_bind_ok
    (run_u64 hs.generation _), run_bind_ok (run_u64
    hs.logLen _), run_bind_ok (run_optionalHash h32 _ _),
    run_bind_ok (run_optionalBytes hp _), run_bind_ok
    (run_array32 h32 _ _)]
  rfl

theorem length_payload (h32 : Hashes32 H) (hs : state.Sized) {pending : Bytes}
    (hp : pushOptionalStateBytes state.pendingAppend = .ok pending) :
    (state.payload pending).length ≤ 5000 := by
  have hl : (pushOptionalHash state.lastLeafHash).length = 33 := by
    cases state.lastLeafHash with
    | none => rfl
    | some hash => simp [pushOptionalHash, h32 hash]
  have hb : pending.length ≤ 4101 := by
    cases hv : state.pendingAppend with
    | none =>
      rw [hv] at hp
      cases hp
      decide
    | some =>
      rw [hv, pushOptionalStateBytes] at hp
      split at hp
      · cases hp
      cases hp
      have : maxLeafBytes = 4096 := rfl
      simp only [length_cons, length_append, length_beBytes]
      omega
  simp only [payload, length_append, h32 state.fileIdentity, h32 state.root, hs.marker,
    length_beBytes, hl, length_nil]
  omega

/-- The encoded state in front of its tag. -/
def authenticated (payload : Bytes) : Bytes :=
  stateMagic ++ [stateVersion] ++ beBytes 8 payload.length ++ payload

theorem encodeAuthenticated_eq_ok {hmac : Hmac} {key bytes : Bytes} :
    state.encodeAuthenticated hmac key = .ok bytes ↔
      ∃ pending, pushOptionalStateBytes state.pendingAppend = .ok pending ∧
        bytes.length ≤ maxStateBytes ∧
        bytes = authenticated (state.payload pending)
          ++ stateAuthenticationTag hmac key (authenticated (state.payload pending)) := by
  have hpay : ∀ pending, HashBytes.toBytes state.fileIdentity ++ state.mutationMarker
      ++ beBytes 8 state.generation ++ beBytes 8 state.logLen
      ++ pushOptionalHash state.lastLeafHash ++ pending ++ HashBytes.toBytes state.root =
        state.payload pending := by
    simp [payload]
  simp only [encodeAuthenticated, hpay, ok_iff]
  constructor
  · rintro ⟨pending, hp, hl, rfl⟩
    exact ⟨pending, hp, not_lt.mp hl, rfl⟩
  · rintro ⟨pending, hp, hl, rfl⟩
    exact ⟨pending, hp, not_lt.mpr hl, rfl⟩

theorem decodeAuthenticated_encodeAuthenticated (h32 : Hashes32 H) (hs : state.Sized)
    {hmac : Hmac} {key bytes : Bytes} (h : state.encodeAuthenticated hmac key = .ok bytes) :
    decodeAuthenticated hmac key bytes = .ok state := by
  obtain ⟨pending, hp, hm, hb⟩ := encodeAuthenticated_eq_ok.mp h
  have hpay := length_payload h32 hs hp
  have hr := run_readPayload h32 hs hp
  generalize state.payload pending = payload at hb hpay hr
  have htag : (stateAuthenticationTag hmac key (authenticated payload)).length = 32 := by
    simp [stateAuthenticationTag]
  have ha : (authenticated payload).length = statePrefixLen + payload.length := by
    simp only [authenticated, length_append, length_beBytes, length_singleton, statePrefixLen]
  have hl : bytes.length = statePrefixLen + payload.length + 32 := by
    rw [hb, length_append, ha, htag]
  have ht : bytes.take (statePrefixLen + payload.length) = authenticated payload := by
    rw [hb, take_left' ha]
  have hd : bytes.drop (statePrefixLen + payload.length) =
      stateAuthenticationTag hmac key (authenticated payload) := by
    rw [hb, drop_left' ha]
  have hw : readBE ((bytes.drop (stateMagic.length + 1)).take 8) = payload.length := by
    have hslice : bytes = (stateMagic ++ [stateVersion]) ++ (beBytes 8 payload.length
        ++ (payload ++ stateAuthenticationTag hmac key (authenticated payload))) := by
      rw [hb]
      simp [authenticated]
    rw [hslice, take_drop_append (by simp) (length_beBytes 8 _), readBE_beBytes (by omega)]
  have hh : bytes.take stateMagic.length = stateMagic ∧
      bytes.getD stateMagic.length 0 = stateVersion := by
    simp [hb, authenticated]
  have hc : (authenticated payload).drop statePrefixLen = payload :=
    drop_left' (by simp [statePrefixLen])
  unfold decodeAuthenticated
  rw [if_neg (by rw [hh.1, hh.2]; simp only [ne_eq, not_true, or_false]; omega), hw,
    if_neg (by omega), ht, hd, if_neg (not_not.mpr rfl), hc, hr]
  rfl

theorem exists_encodeAuthenticated (h32 : Hashes32 H) (hs : state.Sized) (hmac : Hmac) (key : Bytes)
    (hpen : ∀ encoded, state.pendingAppend = some encoded →
      encoded ≠ [] ∧ encoded.length ≤ maxLeafBytes) :
    ∃ bytes, state.encodeAuthenticated hmac key = .ok bytes := by
  have hp : ∃ pending, pushOptionalStateBytes state.pendingAppend = .ok pending := by
    cases hv : state.pendingAppend with
    | none => exact ⟨_, rfl⟩
    | some encoded =>
      obtain ⟨hne, hle⟩ := hpen encoded hv
      refine ⟨_, if_neg ?_⟩
      rintro (hn | hgt)
      · exact hne hn
      · omega
  obtain ⟨pending, hp⟩ := hp
  refine ⟨_, encodeAuthenticated_eq_ok.mpr ⟨pending, hp, ?_, rfl⟩⟩
  have hpay := length_payload h32 hs hp
  have hm : stateMagic.length = 8 := rfl
  simp only [authenticated, stateAuthenticationTag, length_append, length_singleton,
    length_beBytes, Vector.length_toList, hm, maxStateBytes]
  omega

/-! ## Validation -/

variable [Sha256 H] [DecidableEq H] {fileLen : ℕ} {identity : H} {marker : Bytes}

/-- Everything a state has to say about a ledger file of this length, identity and change
time. -/
structure ValidFor (state : PersistedLedgerState H) (fileLen : ℕ) (identity : H)
    (marker : Bytes) : Prop where
  logLen_le : state.logLen ≤ fileLen
  identity : state.fileIdentity = identity
  generation : state.generation ≤ maxDisclosureLeaves
  magic : logMagic.length ≤ state.logLen
  tail : fileLen - state.logLen ≤ maxRecoveryTailBytes
  tail_none : state.pendingAppend = none → fileLen = state.logLen
  tail_some : ∀ encoded ∈ state.pendingAppend, fileLen - state.logLen ≤ 4 + encoded.length
  marker : fileLen = state.logLen → state.mutationMarker = marker
  count : state.pendingAppend.isSome → state.generation < maxDisclosureLeaves
  empty : state.generation = 0 →
    state.logLen = logMagic.length ∧ state.lastLeafHash = none ∧ state.root = emptyRoot
  nonempty : state.generation ≠ 0 → state.logLen ≠ logMagic.length ∧ state.lastLeafHash.isSome
  pending : ∀ encoded ∈ state.pendingAppend, encoded ≠ [] ∧ encoded.length ≤ maxLeafBytes

omit [HashBytes H] in
theorem ValidFor.validate (h : state.ValidFor fileLen identity marker) :
    state.validate fileLen identity marker = .ok () := by
  have hle := h.logLen_le
  have ht : ¬(state.fileIdentity ≠ identity ∨ state.generation > maxDisclosureLeaves
      ∨ state.logLen < logMagic.length ∨ state.logLen > fileLen
      ∨ fileLen - state.logLen > maxRecoveryTailBytes
      ∨ (state.expectedRecoveryLen = none ∧ fileLen - state.logLen ≠ 0)
      ∨ (∃ expected ∈ state.expectedRecoveryLen, fileLen - state.logLen > expected)
      ∨ (fileLen - state.logLen = 0 ∧ state.mutationMarker ≠ marker)) := by
    rintro (hne | hne | hne | hne | hne | ⟨hn, hne⟩ | ⟨expected, he, hne⟩ | ⟨hz, hne⟩)
    · exact hne h.identity
    · exact absurd h.generation (by omega)
    · exact absurd h.magic (by omega)
    · omega
    · exact absurd h.tail (by omega)
    · have := h.tail_none (Option.map_eq_none_iff.mp hn)
      omega
    · obtain ⟨encoded, henc, rfl⟩ := Option.map_eq_some_iff.mp he
      exact absurd (h.tail_some encoded henc) (by omega)
    · exact hne (h.marker (by omega))
  have hc : ¬(state.pendingAppend.isSome ∧ state.generation ≥ maxDisclosureLeaves) := by
    rintro ⟨hsome, hge⟩
    exact absurd (h.count hsome) (by omega)
  have hs : ∀ encoded, state.pendingAppend = some encoded →
      ¬(encoded = [] ∨ encoded.length > maxLeafBytes) := by
    intro encoded hv
    obtain ⟨hne, hsize⟩ := h.pending encoded hv
    rintro (hnil | hl)
    · exact hne hnil
    · exact absurd hsize (by omega)
  unfold PersistedLedgerState.validate
  rw [if_neg (by omega), if_neg ht, if_neg hc]
  by_cases hz : state.generation = 0
  · obtain ⟨hlen, hlast, hr⟩ := h.empty hz
    rw [if_pos hz, if_neg (by simp [hlen, hlast, hr])]
    cases hv : state.pendingAppend with
    | none => rfl
    | some encoded => exact if_neg (hs encoded hv)
  · obtain ⟨hlen, hlast⟩ := h.nonempty hz
    rw [if_neg hz, if_neg (by simp [hlen, Option.isSome_iff_ne_none.mp hlast])]
    cases hv : state.pendingAppend with
    | none => rfl
    | some encoded => exact if_neg (hs encoded hv)

omit [HashBytes H] in
/-- A state passes only if the file reaches its committed length, and at that length only
with the change time it remembers. -/
theorem of_validate (h : state.validate fileLen identity marker = .ok ()) :
    state.logLen ≤ fileLen ∧ (fileLen = state.logLen → state.mutationMarker = marker) := by
  simp only [PersistedLedgerState.validate, ok_iff] at h
  obtain ⟨hle, hc, -⟩ := h
  refine ⟨by omega, ?_⟩
  intro heq
  by_contra hne
  exact hc (.inr (.inr (.inr (.inr (.inr (.inr (.inr ⟨by omega, hne⟩)))))))

end PersistedLedgerState

end Pigeonpost
