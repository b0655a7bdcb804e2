import Pigeonpost.Program.Address
import Pigeonpost.Program.Handle

/-! # Namespaces and the handles in them -/

namespace Pigeonpost

open List

/-! ## Plain segments -/

/-- A segment that is a word and no address. -/
structure PlainSegment (limit : ℕ) (segment : Bytes) : Prop where
  nonempty : segment ≠ []
  length : segment.length ≤ limit
  plain : ∀ b ∈ segment, plainByte b = true
  edges : edgeMarked segment = false

/-- What every plain byte is. -/
theorem plainByte_spec : ∀ b, plainByte b = true →
    (b < 0x80 ∧ b ≠ 0x2f) ∧ plainByte (lowercaseByte b) = true :=
  forall_byte (by decide +kernel)

section Undecorated

variable {validateLoftHint : Bytes → Except CoreError Unit} {text : Bytes} (hf : 0x23 ∉ text)
  (hq : 0x3f ∉ text)

include hf hq

/-- A text without decorations is parsed as its target. -/
theorem Destination.parse_undecorated : Destination.parse validateLoftHint text =
    (if keyPrefix.isPrefixOf text then (Address.parse text).map .key
      else (canonicalHandle text).map .handle).map fun target => ⟨target, none, none⟩ := by
  simp only [Destination.parse, splitOn_eq_singleton hf, headD_cons, splitOn_eq_singleton hq]
  cases keyPrefix.isPrefixOf text <;> cases Address.parse text <;>
    cases canonicalHandle text <;> rfl

theorem Destination.parse_plain (hk : ¬keyPrefix <+: text) :
    Destination.parse validateLoftHint text =
      (canonicalHandle text).map fun handle => ⟨.handle handle, none, none⟩ := by
  have hp : keyPrefix.isPrefixOf text = false := by
    rwa [Bool.eq_false_iff, Ne, isPrefixOf_iff_prefix]
  rw [Destination.parse_undecorated hf hq, hp]
  cases canonicalHandle text <;> rfl

end Undecorated

variable {limit : ℕ} {segment name : Bytes}

theorem notMem_of_plain (h : ∀ b ∈ segment, plainByte b = true) {b : UInt8}
    (hb : plainByte b = false) : b ∉ segment := fun hm => by
  rw [h b hm] at hb
  cases hb

theorem looksLikeAddress_of_notMem (h : 0x40 ∉ segment) : looksLikeAddress segment = false := by
  unfold looksLikeAddress
  split
  · rename_i hs
    have hm : (0x40 : UInt8) ∈ segment := by simp [(splitOnce_eq_some hs).1]
    exact absurd hm h
  · rfl

theorem validateSegment_eq_ok {u : Unit} : validateSegment limit segment = .ok u ↔
    looksLikeAddress segment = true ∧ validateAddressSegment segment = .ok () ∨
      PlainSegment limit segment := by
  unfold validateSegment
  split
  · rename_i hl
    refine ⟨fun h => .inl ⟨hl, h⟩, fun h => h.elim And.right fun hp => ?_⟩
    cases hl.symm.trans (looksLikeAddress_of_notMem (notMem_of_plain hp.plain rfl))
  · rename_i hl
    simp only [hl, Bool.false_eq_true, false_and, false_or, ok_iff, Bool.or_eq_true, not_or,
      List.isEmpty_iff, decide_eq_true_eq, Nat.not_lt, Bool.not_eq_true', Bool.not_eq_false,
      Bool.not_eq_true, all_eq_true, gt_iff_lt]
    constructor
    · rintro ⟨⟨hn, hl⟩, ⟨hp, he⟩, -⟩
      exact ⟨hn, hl, hp, he⟩
    · rintro ⟨hn, hl, hp, he⟩
      exact ⟨⟨hn, hl⟩, ⟨hp, he⟩, trivial⟩

/-- A handle of two segments is checked one by one. -/
theorem canonicalHandle_pair (hs : ∀ b ∈ segment, b < 0x80 ∧ b ≠ 0x2f)
    (hn : ∀ b ∈ name, b < 0x80 ∧ b ≠ 0x2f)
    (hsl : segment.length ≤ maxHandleNamespaceBytes) (hnl : name.length ≤ maxHandleNameBytes)
    (hgh : toAsciiLowercase segment ≠ ascii "gh") {handle : Bytes} :
    canonicalHandle (0x2f :: (segment ++ 0x2f :: name)) = .ok handle ↔
      validateSegment maxHandleNamespaceBytes segment = .ok () ∧
      validateSegment maxHandleNameBytes name = .ok () ∧
      0x2f :: (toAsciiLowercase segment ++ 0x2f :: toAsciiLowercase name) = handle := by
  have hsplit : (segment ++ 0x2f :: name).splitOn 0x2f = [segment, name] := by
    rw [splitOn_append_cons_self_of_not_mem (fun hm => (hs _ hm).2 rfl),
      splitOn_eq_singleton fun hm => (hn _ hm).2 rfl]
  have hasc : isAsciiText (0x2f :: (segment ++ 0x2f :: name)) = true := by
    refine all_eq_true.mpr fun b hb => ?_
    simp only [mem_cons, mem_append] at hb
    rcases hb with rfl | hb | rfl | hb
    · rfl
    · exact decide_eq_true (hs b hb).1
    · rfl
    · exact decide_eq_true (hn b hb).1
  have hlen : ¬maxHandleBytes < segment.length + (name.length + 1) + 1 := by
    unfold maxHandleNamespaceBytes at hsl
    unfold maxHandleNameBytes at hnl
    unfold maxHandleBytes
    omega
  have hne : eqIgnoreAsciiCase segment (ascii "gh") = false := beq_false_of_ne hgh
  cases hs : validateSegment maxHandleNamespaceBytes segment <;>
    cases hn : validateSegment maxHandleNameBytes name <;>
    simp [canonicalHandle, hlen, hasc, stripStart, hsplit, hne, hs, hn]

/-! ## Namespaces -/

theorem edgeMarked_eq_false (hp : ∀ b ∈ segment, plainByte b = true)
    (hh : segment.head? ≠ some 0x2d) (hl : segment.getLast? ≠ some 0x2d) :
    edgeMarked segment = false ↔ segment.head? ≠ some 0x2e ∧ segment.getLast? ≠ some 0x2e := by
  have he : ∀ {end? : Option UInt8}, (∀ b ∈ end?, plainByte b = true) → end? ≠ some 0x2d →
      (end?.any (ascii "-.@").contains = false ↔ end? ≠ some 0x2e) := by
    rintro (_ | b) hp hd
    · simp
    · have hat : b ≠ 0x40 := by
        rintro rfl
        exact absurd (hp _ rfl) (by decide)
      have hd : b ≠ 0x2d := by simpa using hd
      simp [ascii, hat, hd]
  rw [edgeMarked, Bool.or_eq_false_iff, he (fun b hb => hp b (mem_of_mem_head? hb)) hh,
    he (fun b hb => hp b (mem_of_mem_getLast? hb)) hl]

/-- What is recognised as a namespace is canonical, and plain but for dots at its ends. -/
theorem namespaceRoot_eq_some {input nameSpace : Bytes} (h : namespaceRoot input = some nameSpace) :
    (nameSpace ≠ [] ∧ nameSpace.length ≤ maxHandleNamespaceBytes) ∧
      (∀ b ∈ nameSpace, plainByte b = true) ∧
      (nameSpace.head? ≠ some 0x2d ∧ nameSpace.getLast? ≠ some 0x2d) ∧
      toAsciiLowercase nameSpace = nameSpace ∧ nameSpace ≠ ascii "gh" ∧ nameSpace ≠ ascii "k" := by
  simp only [namespaceRoot, guard, Option.bind_eq_bind, Option.bind_eq_some_iff, failure, pure,
    Option.ite_none_right_eq_some] at h
  obtain ⟨_, -, trimmed, -, h⟩ := h
  generalize (if trimmed.getLast? = some 0x2f then trimmed.dropLast else trimmed) = raw at h
  obtain ⟨_, ⟨hc, -⟩, _, ⟨hp, -⟩, _, ⟨hk, -⟩, hr⟩ := h
  cases hr
  simp only [Bool.not_or, Bool.and_eq_true, Bool.not_eq_true', decide_eq_false_iff_not,
    beq_eq_false_iff_ne, eqIgnoreAsciiCase] at hc hk
  obtain ⟨⟨⟨⟨⟨he, hl⟩, -⟩, hgh⟩, hs⟩, hs'⟩ := hc
  refine ⟨⟨by simpa [toAsciiLowercase] using he, by simpa [toAsciiLowercase] using hl⟩, ?_,
    ⟨?_, ?_⟩, toAsciiLowercase_idem raw, hgh, hk⟩
  · intro b hb
    obtain ⟨c, hc, rfl⟩ := mem_map.mp hb
    exact (plainByte_spec c (all_eq_true.mp hp c hc)).2
  · rw [toAsciiLowercase, head?_map, Ne, (map_lowercaseByte_eq_some _).2]
    exact hs
  · rw [toAsciiLowercase, getLast?_map, Ne, (map_lowercaseByte_eq_some _).2]
    exact hs'

/-- A plain name has a handle in a namespace just if this does not start or end with a dot. -/
theorem namespace_addressable_iff (validateLoftHint : Bytes → Except CoreError Unit)
    {input nameSpace name : Bytes} (h : namespaceRoot input = some nameSpace)
    (hn : PlainSegment maxHandleNameBytes name) :
    (∃ rest, Destination.parse validateLoftHint (0x2f :: (nameSpace ++ 0x2f :: name)) =
        .ok ⟨.handle (0x2f :: (nameSpace ++ 0x2f :: rest)), none, none⟩ ∧ 0x2f ∉ nameSpace) ↔
      nameSpace.head? ≠ some 0x2e ∧ nameSpace.getLast? ≠ some 0x2e := by
  obtain ⟨⟨hne, hlen⟩, hp, ⟨hh, hl⟩, hlow, hgh, hk⟩ := namespaceRoot_eq_some h
  have hnot : ∀ {b}, plainByte b = false → b ≠ 0x2f → b ∉ 0x2f :: (nameSpace ++ 0x2f :: name) := by
    intro b hb hs
    simpa [hs] using ⟨notMem_of_plain hp hb, notMem_of_plain hn.plain hb⟩
  have hkey : ¬keyPrefix <+: 0x2f :: (nameSpace ++ 0x2f :: name) := by
    rintro ⟨rest, hr⟩
    have he : ascii "k" ++ 0x2f :: rest = nameSpace ++ 0x2f :: name := (cons.inj hr).2
    exact hk ((append_sep_inj (by decide) (notMem_of_plain hp rfl)).mp he).1.symm
  have hpair := fun handle => @canonicalHandle_pair nameSpace name
    (fun b hb => (plainByte_spec b (hp b hb)).1) (fun b hb => (plainByte_spec b (hn.plain b hb)).1)
    hlen hn.length (hlow.symm ▸ hgh) handle
  rw [Destination.parse_plain (hnot rfl (by decide)) (hnot rfl (by decide)) hkey,
    ← edgeMarked_eq_false hp hh hl]
  constructor
  · rintro ⟨rest, hr, -⟩
    obtain ⟨_, hc, -⟩ := map_eq_ok.mp hr
    obtain ⟨ha, -⟩ | hs := validateSegment_eq_ok.mp ((hpair _).mp hc).1
    · cases ha.symm.trans (looksLikeAddress_of_notMem (notMem_of_plain hp rfl))
    · exact hs.edges
  · intro he
    refine ⟨toAsciiLowercase name, ?_, notMem_of_plain hp rfl⟩
    rw [(hpair _).mpr ⟨validateSegment_eq_ok.mpr (.inr ⟨hne, hlen, hp, he⟩),
      validateSegment_eq_ok.mpr (.inr hn), rfl⟩, hlow]
    rfl

theorem namespace_addressable_iff_sample :
    ∃ rest, Destination.parse (fun _ => .ok ()) (ascii "/bekir/main") =
      .ok ⟨.handle (0x2f :: (ascii "bekir" ++ 0x2f :: rest)), none, none⟩ ∧
        0x2f ∉ ascii "bekir" := by
  have h : namespaceRoot (ascii "/Bekir/") = some (ascii "bekir") := by decide
  have hn : PlainSegment maxHandleNameBytes (ascii "main") :=
    ⟨by decide, by decide, by decide +kernel, by decide⟩
  exact (namespace_addressable_iff _ h hn).mpr (by decide)

/-- A namespace with a dot at an end is recognised, but no handle in it is accepted. -/
theorem dotted_namespace_unaddressable : namespaceRoot (ascii "/.bekir") = some (ascii ".bekir") ∧
      PlainSegment maxHandleNameBytes (ascii "main") ∧
      Destination.parse (fun _ => .ok ()) (ascii "/.bekir/main") =
        .error (.malformedAddress "bad handle characters") := by
  refine ⟨by decide, ⟨by decide, by decide, by decide +kernel, by decide⟩, by decide⟩

/-! ## Handles of the registry -/

/-- What every byte of a name is. -/
theorem isNameByte_spec : ∀ b, isNameByte b = true →
    (b < 0x80 ∧ b ≠ 0x2f) ∧ (b ≠ 0x40 → plainByte b = true) :=
  forall_byte (by decide +kernel)

theorem validateName_eq_ok {name name' : Bytes} (h : validateName name = .ok name') :
    (name ≠ [] ∧ name.length ≤ maxHandleNameBytes) ∧ (∀ b ∈ name, isNameByte b = true) ∧
      (name.head? ≠ some 0x2d ∧ name.getLast? ≠ some 0x2d) ∧ toAsciiLowercase name = name' := by
  unfold validateName at h
  split_ifs at h with hl hb hat hd
  simp only [Bool.or_eq_true, List.isEmpty_iff, decide_eq_true_eq, not_or, Bool.not_eq_true',
    Bool.not_eq_false, beq_iff_eq] at hl hb hd
  exact ⟨⟨hl.1, Nat.not_lt.mp hl.2⟩, all_eq_true.mp hb, hd, Except.ok.inj h⟩

/-- A handle is a destination as it stands just if its name is a plain word without dots at its
ends, or an address by the rules of clients. -/
theorem handle_addressable_iff (handle : Handle) :
    Destination.forHandle handle.asPath = .ok ⟨.handle handle.asPath, none, none⟩ ↔
      (0x40 ∉ handle.name ∧ handle.name.head? ≠ some 0x2e ∧ handle.name.getLast? ≠ some 0x2e) ∨
        looksLikeAddress handle.name = true ∧ validateAddressSegment handle.name = .ok () := by
  obtain ⟨⟨hn, hl⟩, hb, ⟨hh, hg⟩, hlow⟩ := validateName_eq_ok handle.canonical
  have hplain : 0x40 ∉ handle.name → ∀ b ∈ handle.name, plainByte b = true := fun hat b hm =>
    (isNameByte_spec b (hb b hm)).2 fun heq => hat (heq ▸ hm)
  have hs : PlainSegment maxHandleNamespaceBytes handle.nameSpace ∧
      toAsciiLowercase handle.nameSpace = handle.nameSpace ∧
      handle.nameSpace ≠ ascii "gh" := by
    have hk := handle.known
    simp only [namespaces, mem_cons, not_mem_nil, or_false] at hk
    rcases hk with hk | hk <;> rw [hk] <;>
      exact ⟨⟨by decide, by decide, by decide +kernel, by decide⟩, by decide, by decide⟩
  have hpair := @canonicalHandle_pair handle.nameSpace handle.name
    (fun b hm => (plainByte_spec b (hs.1.plain b hm)).1)
    (fun b hm => (isNameByte_spec b (hb b hm)).1) hs.1.length hl (hs.2.1.symm ▸ hs.2.2)
    handle.asPath
  simp only [Destination.forHandle, ok_iff, Destination.mk.injEq, DestinationTarget.handle.injEq,
    and_true, exists_eq_right]
  refine hpair.trans ?_
  rw [validateSegment_eq_ok, validateSegment_eq_ok, hs.2.1, hlow]
  constructor
  · rintro ⟨-, ha | hp, -⟩
    · exact .inr ha
    · exact .inl ⟨notMem_of_plain hp.plain rfl, (edgeMarked_eq_false hp.plain hh hg).mp hp.edges⟩
  · intro h
    refine ⟨.inr hs.1, ?_, rfl⟩
    rcases h with ⟨hat, hd⟩ | ha
    · exact .inr ⟨hn, hl, hplain hat, (edgeMarked_eq_false (hplain hat) hh hg).mpr hd⟩
    · exact .inl ha

theorem handle_addressable_iff_sample :
    Destination.forHandle (ascii "/google/alex@example.com") =
      .ok ⟨.handle (ascii "/google/alex@example.com"), none, none⟩ :=
  (handle_addressable_iff
    ⟨ascii "google", ascii "alex@example.com", by decide, by decide⟩).mpr (by decide)

/-- The registry takes a name with a dot at its start, which no client can write to. -/
theorem dotted_handle_unaddressable :
    (∃ handle, Handle.new (ascii "github") (ascii ".alex") = .ok handle ∧
      handle.asPath = ascii "/github/.alex") ∧
    Destination.forHandle (ascii "/github/.alex") =
      .error (.malformedAddress "bad handle characters") :=
  ⟨⟨_, rfl, rfl⟩, by decide⟩

end Pigeonpost
