import Pigeonpost.Verification.Destination.Codecs
import Pigeonpost.Verification.Destination.Namespaces

/-! # Destinations that are parsed again

The text of a target is parsed as that target, but for two kinds of handles: those that read as
key addresses, and those that the leading slash makes too long. -/

namespace Pigeonpost

open List Destination

/-! ## Lower case -/

/-- No check tells a byte from its lower case. -/
theorem comp_lowercaseByte : plainByte ∘ lowercaseByte = plainByte ∧
    addressLocalByte ∘ lowercaseByte = addressLocalByte ∧
    (fun b => isAsciiAlphanumeric b || b == 0x2d) ∘ lowercaseByte =
      (fun b => isAsciiAlphanumeric b || b == 0x2d) ∧
    (ascii "-.@").contains ∘ lowercaseByte = (ascii "-.@").contains ∧
    (fun b => decide (b < 0x80)) ∘ lowercaseByte = fun b => decide (b < 0x80) := by
  have hb : ∀ b, plainByte (lowercaseByte b) = plainByte b ∧
      addressLocalByte (lowercaseByte b) = addressLocalByte b ∧
      (isAsciiAlphanumeric (lowercaseByte b) || lowercaseByte b == 0x2d) =
        (isAsciiAlphanumeric b || b == 0x2d) ∧
      (ascii "-.@").contains (lowercaseByte b) = (ascii "-.@").contains b ∧
      decide (lowercaseByte b < 0x80) = decide (b < 0x80) := forall_byte (by decide +kernel)
  exact ⟨funext fun b => (hb b).1, funext fun b => (hb b).2.1, funext fun b => (hb b).2.2.1,
    funext fun b => (hb b).2.2.2.1, funext fun b => (hb b).2.2.2.2⟩

theorem lowercaseByte_eq_sep {sep : UInt8} (h : sep ∈ ascii "/@.-#?") (b : UInt8) :
    lowercaseByte b = sep ↔ b = sep := by
  have hb : ∀ b, ∀ sep ∈ ascii "/@.-#?", lowercaseByte b = sep ↔ b = sep :=
    forall_byte (by decide +kernel)
  exact hb b sep h

theorem comp_lowercaseByte_beq {sep : UInt8} (h : sep ∈ ascii "/@.-#?") :
    (fun b => lowercaseByte b == sep) = fun b => b == sep :=
  funext fun b => Bool.eq_iff_iff.mpr (by simpa using lowercaseByte_eq_sep h b)

variable (segment : Bytes)

theorem edgeMarked_toAsciiLowercase :
    edgeMarked (toAsciiLowercase segment) = edgeMarked segment := by
  have h := comp_lowercaseByte.2.2.2.1
  rw [edgeMarked, toAsciiLowercase, head?_map, getLast?_map, Option.any_map, Option.any_map]
  exact congrArg₂ _ (congrArg (Option.any · _) h) (congrArg (Option.any · _) h)

theorem looksLikeAddress_toAsciiLowercase :
    looksLikeAddress (toAsciiLowercase segment) = looksLikeAddress segment := by
  rw [looksLikeAddress, looksLikeAddress, toAsciiLowercase,
    splitOnce_map (lowercaseByte_eq_sep (by decide))]
  cases splitOnce 0x40 segment with
  | none => rfl
  | some parts =>
    have hdot : ∀ b, lowercaseByte b = 0x2e ↔ b = 0x2e := lowercaseByte_eq_sep (by decide)
    simp [hdot]

theorem badLabel_toAsciiLowercase : badLabel (toAsciiLowercase segment) = badLabel segment := by
  have hend : ∀ b : Option UInt8, (b.map lowercaseByte == some 0x2d) = (b == some 0x2d) := by
    rintro (_ | b)
    · rfl
    · exact congrFun (comp_lowercaseByte_beq (by decide)) b
  simp only [badLabel, toAsciiLowercase, isEmpty_map, length_map, all_map, comp_lowercaseByte,
    head?_map, getLast?_map, hend]

theorem validateAddressSegment_toAsciiLowercase :
    validateAddressSegment (toAsciiLowercase segment) = validateAddressSegment segment := by
  have hlabels : ∀ domain : Bytes, (domain.map lowercaseByte).splitOn 0x2e =
      (domain.splitOn 0x2e).map toAsciiLowercase :=
    splitOn_map (lowercaseByte_eq_sep (by decide))
  have hbad : badLabel ∘ toAsciiLowercase = badLabel := funext badLabel_toAsciiLowercase
  simp only [validateAddressSegment, count_at_toAsciiLowercase]
  rw [toAsciiLowercase, splitOnce_map (lowercaseByte_eq_sep (by decide)), length_map]
  cases splitOnce 0x40 segment with
  | none => rfl
  | some parts =>
    have hedge := edgeMarked_toAsciiLowercase parts.1
    rw [toAsciiLowercase] at hedge
    simp only [Option.map_some, okOr_some, ok_bind, Prod.map_fst, Prod.map_snd, isEmpty_map,
      all_map, comp_lowercaseByte, hedge, hlabels, length_map, any_map, hbad]

theorem validateSegment_toAsciiLowercase (limit : ℕ) :
    validateSegment limit (toAsciiLowercase segment) = validateSegment limit segment := by
  have hp : (toAsciiLowercase segment).all plainByte = segment.all plainByte := by
    rw [toAsciiLowercase, all_map, comp_lowercaseByte.1]
  have hl : (toAsciiLowercase segment).length = segment.length := length_map _
  have he : (toAsciiLowercase segment).isEmpty = segment.isEmpty := isEmpty_map
  simp only [validateSegment, looksLikeAddress_toAsciiLowercase, edgeMarked_toAsciiLowercase,
    validateAddressSegment_toAsciiLowercase, hp, hl, he]

/-! ## Handles -/

theorem flatMap_splitOn (text : Bytes) :
    ((text.splitOn 0x2f).flatMap fun segment => 0x2f :: toAsciiLowercase segment) =
      0x2f :: toAsciiLowercase text := by
  induction text with
  | nil => rfl
  | cons b text ih =>
    rw [splitOn_cons_eq_if_modifyHead]
    split
    · rename_i hb
      rw [flatMap_cons, ih, eq_of_beq hb]
      rfl
    · cases hs : text.splitOn 0x2f with
      | nil => exact absurd hs (splitOn_ne_nil _ _)
      | cons first rest =>
        rw [hs, flatMap_cons] at ih
        simpa [toAsciiLowercase] using ih

variable {input body handle : Bytes}

theorem canonicalHandle_eq (hb : (stripStart [0x2f] input).getD input = body)
    (h : canonicalHandle input = .ok handle) :
    handle = 0x2f :: toAsciiLowercase body ∧ input.length ≤ maxHandleBytes ∧
      isAsciiText input = true := by
  simp only [canonicalHandle, ok_iff, hb] at h
  obtain ⟨hg, -, h⟩ := h
  refine ⟨?_, by simp_all⟩
  rw [← flatMap_splitOn]
  split at h
  · rename_i hs
    simp only [ok_iff] at h
    obtain ⟨-, -, -, rfl⟩ := h
    rw [hs, flatMap_singleton]
  · simp only [ok_iff] at h
    obtain ⟨-, -, -, -, -, rfl⟩ := h
    rfl

theorem canonicalHandle_toAsciiLowercase (text : Bytes) :
    canonicalHandle (0x2f :: toAsciiLowercase text) = canonicalHandle (0x2f :: text) := by
  have hl : (toAsciiLowercase text).length = text.length := length_map _
  have ha : isAsciiText (toAsciiLowercase text) = isAsciiText text := by
    rw [isAsciiText, toAsciiLowercase, all_map, comp_lowercaseByte.2.2.2.2, isAsciiText]
  have hsplit : (toAsciiLowercase text).splitOn 0x2f =
      (text.splitOn 0x2f).map toAsciiLowercase := splitOn_map (lowercaseByte_eq_sep (by decide)) _
  have hs : ∀ t, stripStart [0x2f] (0x2f :: t) = some t := stripStart_append [0x2f]
  have ha' : ∀ t, isAsciiText (0x2f :: t) = isAsciiText t := fun t => rfl
  simp only [canonicalHandle, hs, Option.getD_some, hsplit, ha', ha, length_cons, hl, isEmpty_cons,
    length_map]
  rcases hsegs : text.splitOn 0x2f with _ | ⟨only, _ | ⟨next, rest⟩⟩
  · exact absurd hsegs (splitOn_ne_nil _ _)
  · simp only [map_cons, map_nil, looksLikeAddress_toAsciiLowercase,
      validateAddressSegment_toAsciiLowercase, toAsciiLowercase_idem]
  · have hforM : ∀ segments : List Bytes, (segments.map toAsciiLowercase).forM
        (validateSegment maxHandleNameBytes) =
          segments.forM (validateSegment maxHandleNameBytes) := fun segments => by
      rw [List.forM_eq_forM, forM_map]
      simp only [validateSegment_toAsciiLowercase]
    simp only [map_cons, headD_cons, tail_cons, eqIgnoreAsciiCase, toAsciiLowercase_idem,
      validateSegment_toAsciiLowercase]
    rw [← map_cons, hforM]
    simp only [flatMap_cons, flatMap_map, toAsciiLowercase_idem]

/-- The slash in front of a handle changes its length only. -/
theorem canonicalHandle_cons (hb : (stripStart [0x2f] input).getD input = body)
    (h : canonicalHandle input = .ok handle) (hl : handle.length ≤ maxHandleBytes) :
    canonicalHandle (0x2f :: body) = .ok handle := by
  obtain ⟨heq, -, ha⟩ := canonicalHandle_eq hb h
  cases hs : stripStart [0x2f] input with
  | some rest =>
    rw [hs, Option.getD_some] at hb
    rwa [← hb, ← singleton_append, ← stripStart_eq_some.mp hs]
  | none =>
    rw [hs, Option.getD_none] at hb
    subst hb
    have hcons : isAsciiText (0x2f :: input) = true := ha
    have hlen : ¬maxHandleBytes < (0x2f :: input).length := by
      simpa [heq, toAsciiLowercase] using hl
    have hstrip : stripStart [0x2f] (0x2f :: input) = some input := stripStart_append [0x2f] input
    simp only [canonicalHandle, hs, ok_iff, Option.getD_none] at h
    simp only [canonicalHandle, hcons, gt_iff_lt, hlen, hstrip, Option.getD_some, ok_iff]
    exact ⟨by simp, h.2⟩

/-- A canonical handle is its own canonical form, unless the slash made it too long. -/
theorem canonicalHandle_repeated (h : canonicalHandle input = .ok handle) {again : Bytes} :
    canonicalHandle handle = .ok again ↔ handle.length ≤ maxHandleBytes ∧ again = handle := by
  obtain ⟨heq, -⟩ := canonicalHandle_eq rfl h
  have hfix : handle.length ≤ maxHandleBytes → canonicalHandle handle = .ok handle := fun hl => by
    nth_rewrite 1 [heq]
    rw [canonicalHandle_toAsciiLowercase, canonicalHandle_cons rfl h hl]
  constructor
  · intro ha
    have hl := (canonicalHandle_eq rfl ha).2.1
    exact ⟨hl, Except.ok.inj (ha.symm.trans (hfix hl))⟩
  · rintro ⟨hl, rfl⟩
    exact hfix hl

/-- Canonical handles are made of the bytes of the text, in lower case. -/
theorem notMem_canonicalHandle {b : UInt8} (hb : b ∈ ascii "#?") (hn : b ∉ input)
    (h : canonicalHandle input = .ok handle) : b ∉ handle := by
  have hsep : ∀ b ∈ ascii "#?", b ∈ ascii "/@.-#?" ∧ b ≠ 0x2f := by decide +kernel
  intro hm
  rw [(canonicalHandle_eq rfl h).1, mem_cons, toAsciiLowercase, mem_map] at hm
  obtain rfl | ⟨c, hc, heq⟩ := hm
  · exact (hsep _ hb).2 rfl
  · cases (lowercaseByte_eq_sep (hsep b hb).1 c).mp heq
    refine hn ?_
    cases hs : stripStart [0x2f] input with
    | none => rwa [hs] at hc
    | some rest =>
      rw [hs] at hc
      rw [stripStart_eq_some.mp hs]
      exact mem_append_right _ hc

/-! ## Destinations -/

variable {validateLoftHint : Bytes → Except CoreError Unit} {dest : Destination}

/-- The target of a destination is that of its undecorated part. -/
theorem Destination.parse_eq_ok (h : parse validateLoftHint input = .ok dest) :
    ∃ bare, (0x23 ∉ bare ∧ 0x3f ∉ bare) ∧
      ((∃ address, Address.parse bare = .ok address ∧ dest.target = .key address) ∨
        ∃ handle, canonicalHandle bare = .ok handle ∧ dest.target = .handle handle) := by
  simp only [parse, ok_iff] at h
  obtain ⟨-, token, -, -, hint, -, h⟩ := h
  rw [headD_splitOn, headD_splitOn] at h
  refine ⟨(input.takeWhile (· != 0x23)).takeWhile (· != 0x3f), ⟨fun hm => ?_, fun hm => ?_⟩, ?_⟩
  · simpa using all_eq_true.mp all_takeWhile _ ((takeWhile_sublist _).subset hm)
  · simpa using all_eq_true.mp all_takeWhile _ hm
  · split at h
    · simp only [ok_iff, map_eq_ok] at h
      obtain ⟨_, ⟨address, ha, rfl⟩, rfl⟩ := h
      exact .inl ⟨address, ha, rfl⟩
    · simp only [ok_iff, map_eq_ok] at h
      obtain ⟨_, ⟨handle, hh, rfl⟩, rfl⟩ := h
      exact .inr ⟨handle, hh, rfl⟩

theorem Destination.parse_key (address : Address) :
    parse validateLoftHint address.text = .ok ⟨.key address, none, none⟩ := by
  obtain ⟨raw, -, ht⟩ := address.canonical
  have hp : keyPrefix.isPrefixOf address.text = true := by
    rw [List.isPrefixOf_iff_prefix, ht]
    exact prefix_append _ _
  have hparse := Address.parse_text address
  have hno : ∀ b ∈ ascii "#?", b ∉ address.text := by
    intro b hb hm
    have hsep : ∀ b ∈ ascii "#?", b ∉ keyPrefix ∧ lowercaseByte b ∉ Base32.accepted := by
      decide +kernel
    rw [ht] at hparse hm
    rcases mem_append.mp hm with hm | hm
    · exact (hsep b hb).1 hm
    · exact (hsep b hb).2 ((Address.accepted_of_parse hparse).2 b hm)
  rw [parse_undecorated (hno _ (by decide)) (hno _ (by decide)), hp, hparse]
  rfl

/-- The text of a key target is parsed as that target; the text of a handle just if it is no key
address and not longer than the input may be. -/
theorem destination_stable_iff (h : parse validateLoftHint input = .ok dest) :
    (∀ address, dest.target = .key address → ∃ again,
      parse validateLoftHint address.text = .ok again ∧ again.target = .key address) ∧
    ∀ handle, dest.target = .handle handle →
      ((∃ again, parse validateLoftHint handle = .ok again ∧
        again.target = .handle handle) ↔
      ¬keyPrefix <+: handle ∧ handle.length ≤ maxHandleBytes) := by
  refine ⟨fun address _ => ⟨_, parse_key address, rfl⟩, fun handle hd => ?_⟩
  obtain ⟨bare, ⟨hf, hq⟩, ⟨_, -, ht⟩ | ⟨_, hc, ht⟩⟩ := parse_eq_ok h
  · cases hd.symm.trans ht
  cases hd.symm.trans ht
  have hf := notMem_canonicalHandle (by decide) hf hc
  have hq := notMem_canonicalHandle (by decide) hq hc
  by_cases hk : keyPrefix <+: handle
  · -- Such a text has a key target, if any.
    refine iff_of_false ?_ fun hg => hg.1 hk
    rintro ⟨again, ha, htarget⟩
    rw [← isPrefixOf_iff_prefix] at hk
    simp only [parse_undecorated hf hq, hk, if_true, map_eq_ok] at ha
    obtain ⟨_, ⟨_, -, rfl⟩, rfl⟩ := ha
    cases htarget
  · rw [parse_plain hf hq hk]
    simp only [map_eq_ok, canonicalHandle_repeated hc]
    constructor
    · rintro ⟨_, ⟨_, ⟨hl, -⟩, -⟩, -⟩
      exact ⟨hk, hl⟩
    · rintro ⟨-, hl⟩
      exact ⟨_, ⟨handle, ⟨hl, rfl⟩, rfl⟩, rfl⟩

theorem destination_stable_iff_upper_case :
    ∃ again, parse (fun _ => .ok ()) (ascii "/github/alex") = .ok again ∧
      again.target = .handle (ascii "/github/alex") := by
  have h : parse (fun _ => .ok ()) (ascii "GitHub/Alex#t=" ++ replicate 64 0x30) =
      .ok ⟨.handle (ascii "/github/alex"), none, some (bytes32 (replicate 32 0))⟩ := by decide
  exact ((destination_stable_iff h).2 _ rfl).mpr (by decide)

/-- A namespace `k` makes a handle that is refused as a key address, or that is one; and a text of
the greatest length makes one that is too long. -/
theorem destination_unstable :
    (parse (fun _ => .ok ()) (ascii "K/abc") =
        .ok ⟨.handle (ascii "/k/abc"), none, none⟩ ∧
      parse (fun _ => .ok ()) (ascii "/k/abc") =
        .error (.malformedAddress "wrong length")) ∧
    (parse (fun _ => .ok ()) (ascii "/K/" ++ replicate 26 0x30) =
        .ok ⟨.handle (ascii "/k/" ++ replicate 26 0x30), none, none⟩ ∧
      parse (fun _ => .ok ()) (ascii "/k/" ++ replicate 26 0x30) =
        .ok ⟨.key (.ofRaw (replicate 16 0) rfl), none, none⟩) ∧
    ∃ handle, handle.length = maxHandleBytes + 1 ∧
      parse (fun _ => .ok ()) handle.tail = .ok ⟨.handle handle, none, none⟩ ∧
      parse (fun _ => .ok ()) handle =
        .error (.malformedAddress "bad handle length") := by
  refine ⟨by decide, by decide, [60, 60, 9].flatMap fun n =>
    ascii "/a@" ++ replicate 60 0x62 ++ 0x2e :: replicate n 0x63, by decide +kernel⟩

end Pigeonpost
