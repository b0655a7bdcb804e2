import Pigeonpost.Verification.Loft.Texts

/-! # Texts of addresses and tokens

What is written is read back, and what is read has one written form. Of a token's text that
holds only while no plus sign stands in it: `from_str_radix` takes the sign in the place of a
digit. -/

namespace Pigeonpost

open List Base32 Address

/-! ## Base32 -/

namespace Base32

/-- The characters that are read, in lower case. -/
def accepted : Bytes := alphabet ++ ascii "ilo"

theorem toNat_ofNat_mod {k : ℕ} (hk : k < 16) : (UInt16.ofNat k).toNat % 16 = k := by
  rw [UInt16.toNat_ofNat']
  omega

theorem toNat_shift_or (buffer value : UInt16) {k : ℕ} (hk : k < 16) (hv : value.toNat < 2 ^ k) :
    (buffer <<< UInt16.ofNat k ||| value).toNat = buffer.toNat * 2 ^ k % 2 ^ 16 + value.toNat := by
  have hp : 2 ^ 16 = 2 ^ k * 2 ^ (16 - k) := by rw [← Nat.pow_add, Nat.add_sub_cancel' hk.le]
  rw [UInt16.toNat_or, UInt16.toNat_shiftLeft, toNat_ofNat_mod hk, Nat.shiftLeft_eq, Nat.mul_comm,
    hp, Nat.mul_mod_mul_left, Nat.two_pow_add_eq_or_of_lt hv]

theorem toNat_shiftRight (buffer : UInt16) {k : ℕ} (hk : k < 16) :
    (buffer >>> UInt16.ofNat k).toNat = buffer.toNat / 2 ^ k := by
  rw [UInt16.toNat_shiftRight, toNat_ofNat_mod hk, Nat.shiftRight_eq_div_pow]

theorem decodeChar_character (buffer : UInt16) :
    decodeChar (character buffer) = .ok (UInt8.ofNat (buffer.toNat % 32)) := by
  have hm : (buffer &&& 0x1f).toNat = buffer.toNat % 32 := by
    simpa using Nat.and_two_pow_sub_one_eq_mod buffer.toNat 5
  have hlt := Nat.mod_lt buffer.toNat (by omega : 0 < 32)
  rw [character, hm]
  generalize buffer.toNat % 32 = value at hlt ⊢
  interval_cases value <;> rfl

/-- A character of the encoder in the decoder's buffer: it fills up a byte, or it waits. -/
theorem decodeFrom_character (decoder value : UInt16) (bits : ℕ) (hb : bits < 8) :
    ∃ next : UInt16, next.toNat = decoder.toNat * 32 % 65536 + value.toNat % 32 ∧
      (∀ rest, bits < 3 → decodeFrom decoder bits (character value :: rest) =
        decodeFrom next (bits + 5) rest) ∧
      ∀ rest held out, 3 ≤ bits → next.toNat / 2 ^ (bits + 5 - 8) % 256 = held.toNat →
        decodeFrom next (bits + 5 - 8) rest = .ok out →
        decodeFrom decoder bits (character value :: rest) = .ok (held :: out) := by
  obtain ⟨digit, hdigit⟩ : ∃ digit, digit = (UInt8.ofNat (value.toNat % 32)).toUInt16 := ⟨_, rfl⟩
  have hv : digit.toNat = value.toNat % 32 := by
    rw [hdigit, UInt8.toNat_toUInt16, UInt8.toNat_ofNat']
    omega
  refine ⟨decoder <<< 5 ||| digit, hv ▸ toNat_shift_or decoder digit (k := 5) (by omega) (by omega),
    fun rest hl => ?_, fun rest held out hl hh ho => ?_⟩
  all_goals
    rw [decodeFrom, decodeChar_character, ok_bind, ← hdigit]
  · exact if_neg (by omega)
  · refine (if_pos (by omega)).trans ?_
    rw [ho, ok_bind]
    refine congrArg (fun b => Except.ok (b :: out)) (UInt8.toNat_inj.mp ?_)
    rw [UInt16.toNat_toUInt8, toNat_shiftRight _ (by omega), hh]

/-- What the decoder and the encoder hold between two bytes is one byte or nothing. -/
theorem decodeFrom_encodeFrom (input : Bytes) : ∀ (encoder decoder : UInt16) (bits : ℕ)
    (held : UInt8), bits < 5 →
    (0 < bits → (decoder.toNat * 2 ^ bits + encoder.toNat % 2 ^ bits) % 256 = held.toNat) →
    decodeFrom decoder ((8 - bits) % 8) (encodeFrom encoder bits input) =
      .ok ((if bits = 0 then [] else [held]) ++ input) := by
  induction input with
  | nil =>
    intro encoder decoder bits held hb hh
    obtain ⟨next, hn, -, hd⟩ := decodeFrom_character decoder (encoder <<< UInt16.ofNat (5 - bits))
      ((8 - bits) % 8) (by omega)
    rw [UInt16.toNat_shiftLeft, Nat.shiftLeft_eq] at hn
    interval_cases bits
    · rfl
    all_goals
      refine hd [] held [] (by omega) ?_ rfl
      simp at hn hh ⊢
      omega
  | cons byte rest ih =>
    intro encoder decoder bits held hb hh
    have hbyte := byte.toNat_lt
    have hbuf : (encoder <<< 8 ||| byte.toUInt16).toNat =
        encoder.toNat * 256 % 65536 + byte.toNat :=
      toNat_shift_or encoder byte.toUInt16 (k := 8) (by omega) hbyte
    rw [encodeFrom]
    generalize encoder <<< 8 ||| byte.toUInt16 = buffer at hbuf ⊢
    have hd := fun decoder bits hb k (hk : k < 16) =>
      toNat_shiftRight buffer hk ▸
        decodeFrom_character decoder (buffer >>> UInt16.ofNat k) bits hb
    interval_cases bits
    · obtain ⟨next, hn, hd, -⟩ := hd decoder 0 (by omega) 3 (by omega)
      exact (hd _ (by omega)).trans (ih buffer next 3 byte (by omega) (by omega))
    · obtain ⟨next, hn, -, hd⟩ := hd decoder 7 (by omega) 4 (by omega)
      exact hd _ held _ (by omega) (by omega) (ih buffer next 4 byte (by omega) (by omega))
    · obtain ⟨first, hf, -, hd'⟩ := hd decoder 6 (by omega) 5 (by omega)
      obtain ⟨next, hn, -, hd⟩ := hd first 3 (by omega) 0 (by omega)
      exact hd' _ held _ (by omega) (by omega) (hd _ byte _ (by omega) (by omega)
        (ih buffer next 0 byte (by omega) (by omega)))
    · obtain ⟨first, hf, -, hd'⟩ := hd decoder 5 (by omega) 6 (by omega)
      obtain ⟨next, hn, hd, -⟩ := hd first 2 (by omega) 1 (by omega)
      exact hd' _ held _ (by omega) (by omega) ((hd _ (by omega)).trans
        (ih buffer next 1 byte (by omega) (by omega)))
    · obtain ⟨first, hf, -, hd'⟩ := hd decoder 4 (by omega) 7 (by omega)
      obtain ⟨next, hn, hd, -⟩ := hd first 1 (by omega) 2 (by omega)
      exact hd' _ held _ (by omega) (by omega) ((hd _ (by omega)).trans
        (ih buffer next 2 byte (by omega) (by omega)))

theorem decode_encode (bytes : Bytes) : decode (encode bytes) = .ok bytes :=
  decodeFrom_encodeFrom bytes 0 0 0 0 (by omega) nofun

theorem encode_injective : Function.Injective encode := by
  intro bytes bytes' h
  have hd := congrArg decode h
  rw [decode_encode, decode_encode] at hd
  exact Except.ok.inj hd

theorem decodeChar_cases (ch : UInt8) :
    (∃ value, decodeChar ch = .ok value) ∧ lowercaseByte ch ∈ accepted ∨
      (∃ e, decodeChar ch = .error e) ∧ lowercaseByte ch ∉ accepted := by
  have hc : ∀ ch, (decodeChar ch).toOption.isSome = true ↔ lowercaseByte ch ∈ accepted :=
    forall_byte (by decide +kernel)
  cases hd : decodeChar ch with
  | ok value => exact .inl ⟨⟨value, rfl⟩, (hc ch).mp (by rw [hd]; rfl)⟩
  | error e =>
    refine .inr ⟨⟨e, rfl⟩, fun hm => ?_⟩
    simpa [hd, Except.toOption] using (hc ch).mpr hm

/-- A text is read if all of its characters are, with a byte for every eight bits. -/
theorem decodeFrom_cases (input : Bytes) : ∀ (buffer : UInt16) (bits : ℕ), bits < 8 →
    (∃ out, decodeFrom buffer bits input = .ok out ∧ out.length = (bits + 5 * input.length) / 8 ∧
      ∀ ch ∈ input, lowercaseByte ch ∈ accepted) ∨
    ∃ e, decodeFrom buffer bits input = .error e ∧ ∃ ch ∈ input, lowercaseByte ch ∉ accepted := by
  induction input with
  | nil =>
    intro buffer bits hb
    exact .inl ⟨[], rfl, by simp; omega, by simp⟩
  | cons ch rest ih =>
    intro buffer bits hb
    obtain ⟨⟨value, hv⟩, ha⟩ | ⟨⟨_, hv⟩, ha⟩ := decodeChar_cases ch
    · simp only [decodeFrom, hv, ok_bind]
      generalize buffer <<< 5 ||| value.toUInt16 = next
      split
      · obtain ⟨out, ho, hl, hr⟩ | ⟨e, he, bad, hm, hb⟩ := ih next (bits + 5 - 8) (by omega)
        · rw [ho]
          refine .inl ⟨_, rfl, ?_, forall_mem_cons.mpr ⟨ha, hr⟩⟩
          rw [length_cons, length_cons, hl]
          omega
        · rw [he]
          exact .inr ⟨e, rfl, bad, mem_cons_of_mem ch hm, hb⟩
      · obtain ⟨out, ho, hl, hr⟩ | ⟨e, he, bad, hm, hb⟩ := ih next (bits + 5) (by omega)
        · refine .inl ⟨out, ho, ?_, forall_mem_cons.mpr ⟨ha, hr⟩⟩
          rw [length_cons, hl]
          omega
        · exact .inr ⟨e, he, bad, mem_cons_of_mem ch hm, hb⟩
    · rw [decodeFrom, hv]
      exact .inr ⟨_, rfl, ch, mem_cons_self, ha⟩

end Base32

/-! ## Key addresses -/

theorem stripStart_eq_some {start text rest : Bytes} :
    stripStart start text = some rest ↔ text = start ++ rest := by
  constructor
  · intro h
    rw [stripStart, Option.ite_none_right_eq_some] at h
    obtain ⟨hp, hd⟩ := h
    cases hd
    rw [List.isPrefixOf_iff_prefix] at hp
    exact (prefix_iff_eq_append.mp hp).symm
  · rintro rfl
    exact stripStart_append start rest

theorem Address.text_inj {a b : Address} : a.text = b.text ↔ a = b := by
  rw [mk.injEq]

/-- A text is an address if its body is read; the address is then that of the bytes read. -/
theorem Address.parse_eq_ok {input : Bytes} {address : Address} :
    parse input = .ok address ↔ ∃ body decoded, input = keyPrefix ++ body ∧
      body.length = addressChars ∧ decode body = .ok decoded ∧
      address.text = keyPrefix ++ encode (decoded.take addressBytes) := by
  simp only [parse, ok_iff, stripStart_eq_some, not_not]
  refine exists_congr fun body => ?_
  constructor
  · rintro ⟨rfl, hl, decoded, hd, h⟩
    split at h
    · cases h
    · cases h
      exact ⟨decoded, rfl, hl, hd, rfl⟩
  · rintro ⟨decoded, rfl, hl, hd, ht⟩
    refine ⟨rfl, hl, decoded, hd, ?_⟩
    obtain ⟨out, ho, hn, -⟩ | ⟨e, he, -⟩ := decodeFrom_cases body 0 0 (by omega)
    · cases hd.symm.trans ho
      rw [hl] at hn
      rw [dif_neg (by rw [hn]; decide)]
      exact congrArg Except.ok (text_inj.mp ht.symm)
    · cases hd.symm.trans he

theorem Address.accepted_of_parse {body : Bytes} {address : Address}
    (h : parse (keyPrefix ++ body) = .ok address) :
    body.length = addressChars ∧ ∀ ch ∈ body, lowercaseByte ch ∈ accepted := by
  obtain ⟨_, decoded, hb, hl, hd, -⟩ := parse_eq_ok.mp h
  cases append_cancel_left hb
  obtain ⟨-, -, -, ha⟩ | ⟨e, he, -⟩ := decodeFrom_cases body 0 0 (by omega)
  · exact ⟨hl, ha⟩
  · cases hd.symm.trans he

theorem Address.parse_text (address : Address) : parse address.text = .ok address := by
  obtain ⟨raw, hr, ht⟩ := address.canonical
  refine parse_eq_ok.mpr ⟨_, raw, ht, ?_, decode_encode raw, ?_⟩
  · rw [encode, length_encodeFrom 0 (by omega), hr]
    rfl
  · rw [ht, ← hr, take_length]

theorem address_canonical :
    (∀ bytes, Base32.decode (Base32.encode bytes) = .ok bytes) ∧
    (∀ input, (∃ address, Address.parse input = .ok address) ↔
      ∃ body, input = keyPrefix ++ body ∧ body.length = addressChars ∧
        ∀ ch ∈ body, lowercaseByte ch ∈ Base32.accepted) ∧
    (∀ input address, Address.parse input = .ok address →
      Address.parse address.text = .ok address) ∧
    ∀ body body' address address', Address.parse (keyPrefix ++ body) = .ok address →
      Address.parse (keyPrefix ++ body') = .ok address' →
      ∃ decoded decoded', Base32.decode body = .ok decoded ∧ Base32.decode body' = .ok decoded' ∧
        (address = address' ↔ decoded.take addressBytes = decoded'.take addressBytes) := by
  refine ⟨decode_encode, fun input => ⟨?_, ?_⟩,
    fun _ address _ => parse_text address, fun body body' address address' h h' => ?_⟩
  · rintro ⟨address, h⟩
    obtain ⟨body, -, rfl, -⟩ := parse_eq_ok.mp h
    exact ⟨body, rfl, accepted_of_parse h⟩
  · rintro ⟨body, rfl, hl, ha⟩
    obtain ⟨out, ho, hn, -⟩ | ⟨-, -, bad, hm, hb⟩ := decodeFrom_cases body 0 0 (by omega)
    · rw [hl] at hn
      exact ⟨.ofRaw (out.take addressBytes) (by rw [length_take, hn]; rfl),
        parse_eq_ok.mpr ⟨body, out, rfl, hl, ho, rfl⟩⟩
    · exact absurd (ha bad hm) hb
  · obtain ⟨_, decoded, hb, -, hd, ht⟩ := parse_eq_ok.mp h
    obtain ⟨_, decoded', hb', -, hd', ht'⟩ := parse_eq_ok.mp h'
    cases append_cancel_left hb
    cases append_cancel_left hb'
    refine ⟨decoded, decoded', hd, hd', ?_⟩
    rw [← text_inj, ht, ht', append_cancel_left_eq, encode_injective.eq_iff]

/-! ## Capability tokens -/

theorem hexDigit?_spec : ∀ b, ∀ value ∈ hexDigit? b,
    value < 16 ∧ hexChar value = lowercaseByte b ∧ isAsciiHexdigit b = true :=
  forall_byte (by decide +kernel)

theorem hex_of_decodeHexPairs {text bytes : Bytes} (hl : text.length % 2 = 0) (hp : 0x2b ∉ text)
    (h : decodeHexPairs text = some bytes) :
    hex bytes = toAsciiLowercase text ∧ ∀ b ∈ text, isAsciiHexdigit b = true := by
  induction text using hexPairs.induct generalizing bytes with
  | case1 hi lo rest ih =>
    simp only [mem_cons, not_or] at hp
    rw [decodeHexPairs, hexPair?, if_neg (Ne.symm hp.1)] at h
    simp only [bind, Option.bind_eq_some_iff, pure, Option.some.injEq] at h
    obtain ⟨_, ⟨high, hh, low, hlow, rfl⟩, bytes', hr, rfl⟩ := h
    obtain ⟨hhl, hhi, hha⟩ := hexDigit?_spec hi high hh
    obtain ⟨hll, hlo, hla⟩ := hexDigit?_spec lo low hlow
    obtain ⟨hd, hm⟩ := nibbles_of_lt hhl hll
    obtain ⟨htext, hall⟩ := ih (by simp at hl; omega) hp.2.2 hr
    rw [hex] at htext
    rw [hex, flatMap_cons, htext, hd, hm, hhi, hlo]
    exact ⟨rfl, forall_mem_cons.mpr ⟨hha, forall_mem_cons.mpr ⟨hla, hall⟩⟩⟩
  | case2 text hne =>
    rcases text with _ | ⟨hi, _ | ⟨lo, rest⟩⟩
    · cases h
      exact ⟨rfl, by simp⟩
    · simp at hl
    · exact absurd rfl (hne hi lo rest)

theorem toList_bytes32 {slice : Bytes} (h : slice.length = 32) :
    (bytes32 slice).toList = slice := by
  refine ext_getElem (by simp [h]) fun i _ hi => ?_
  simp [bytes32, getElem?_eq_getElem hi]

/-- A token is read back from its text; of an accepted text it is the text in lower case just if
no plus sign stands in it, and just then there are only digits in it. -/
theorem token_text_exact_iff (token : Bytes32) (text : Bytes) :
    Token.fromHex (Token.toHex token) = some token ∧ (Token.fromHex text = some token →
      text.length = 64 ∧ (Token.toHex token = toAsciiLowercase text ↔ 0x2b ∉ text) ∧
        ((∀ b ∈ text, isAsciiHexdigit b = true) ↔ 0x2b ∉ text)) := by
  constructor
  · rw [Token.fromHex, Token.toHex, if_neg (by simp), decodeHexPairs_hex]
    simp [bytes32]
  · intro h
    rw [Token.fromHex, Option.ite_none_left_eq_some, not_not, Option.map_eq_some_iff] at h
    obtain ⟨hl, bytes, hd, rfl⟩ := h
    have hread := fun hp => hex_of_decodeHexPairs (by omega) hp hd
    refine ⟨hl, ⟨fun heq hp => ?_, fun hp => ?_⟩, fun hall hp => ?_, fun hp => (hread hp).2⟩
    · have hm : (0x2b : UInt8) ∈ toAsciiLowercase text := mem_map.mpr ⟨0x2b, hp, rfl⟩
      rw [← heq] at hm
      cases isLowerHex_of_mem_hex hm
    · have hn := congrArg length (hread hp).1
      rw [length_hex, toAsciiLowercase, length_map, hl] at hn
      rw [Token.toHex, toList_bytes32 (by omega), (hread hp).1]
    · cases hall _ hp

theorem token_text_upper_case : Token.toHex (bytes32 (replicate 32 0xaa)) = replicate 64 0x61 :=
  ((token_text_exact_iff _ (replicate 64 0x41)).2 (by decide)).2.1.mpr (by decide)

/-- Thirty-two times `+0` is read as the token of zeros. -/
theorem token_text_signed :
    Token.fromHex (replicate 32 (ascii "+0")).flatten = some (bytes32 []) ∧
      Token.toHex (bytes32 []) ≠ toAsciiLowercase (replicate 32 (ascii "+0")).flatten := by
  decide

end Pigeonpost
