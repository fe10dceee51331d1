import BuildBrowser.Proofs.Text.Utf8
import BuildBrowser.Segment

/-!
# Segments — encoding keeps to its alphabet, and decoding undoes it

`encodeChars` writes the bytes of a text one by one, so both laws are proved for one byte and carried
over the bytes:

- `mem_encodeChars`: an encoded text has bare characters and percent signs only. A slash and the
  marks of a query or a fragment are neither, so they are in no encoded text (`not_mem_encodeChars`);
- `decodeChars_encodeChars_append`: decoding undoes encoding, also in front of other text. The step
  is `bytes_encodeByte_append`, and `Utf8.decodeLossy_encode_append` turns the bytes into text.

`decode_undoes_encode` says the second of strings. Of segments that nothing was encoded as,
`decodeChars_eq_nil` says that they are decoded as something.
-/

namespace BuildBrowser.Segment

open Utf8

theorem toNat_lt_of_isBare {c : Char} (h : isBare c = true) : c.toNat < 0x80 := by
  simp only [isBare, Bool.or_eq_true, Bool.and_eq_true, decide_eq_true_eq, List.contains_iff_mem,
    List.mem_cons, List.not_mem_nil, or_false] at h
  have below {d : Char} (hd : d ≤ '\x7f') : d.toNat < 0x80 :=
    Nat.lt_succ_of_le (UInt32.le_iff_toNat_le.mp hd)
  rcases h with ((h | h) | h) | h
  · exact below (Char.le_trans h.2 (by decide))
  · exact below (Char.le_trans h.2 (by decide))
  · exact below (Char.le_trans h.2 (by decide))
  · rcases h with rfl | rfl | rfl | rfl | rfl | rfl | rfl | rfl | rfl <;> decide

theorem isBare_hexDigit : ∀ n < 16, isBare (hexDigit n) = true := by decide

theorem hexValue?_hexDigit : ∀ n < 16, hexValue? (hexDigit n) = some n := by decide

theorem ne_of_isBare {c d : Char} (h : isBare c = true) (hd : isBare d = false) : c ≠ d := by
  rintro rfl
  rw [h] at hd
  cases hd

/-! ## The characters of an encoded text -/

theorem mem_encodeByte {c : Char} {b : UInt8} (h : c ∈ encodeByte b) : isBare c = true ∨ c = '%' := by
  have hb : b.toNat < 256 := b.toNat_lt
  unfold encodeByte at h
  dsimp only at h
  split at h
  · next hbare =>
    rw [List.mem_singleton.mp h]
    exact .inl hbare
  · simp only [List.mem_cons, List.not_mem_nil, or_false] at h
    rcases h with rfl | rfl | rfl
    · exact .inr rfl
    · exact .inl (isBare_hexDigit _ (by omega))
    · exact .inl (isBare_hexDigit _ (by omega))

theorem encodeByte_ne_nil (b : UInt8) : encodeByte b ≠ [] := by
  unfold encodeByte
  dsimp only
  split <;> exact List.cons_ne_nil _ _

/-- An encoded text has bare characters and percent signs only. -/
theorem mem_encodeChars {c : Char} {text : List Char} (h : c ∈ encodeChars text) :
    isBare c = true ∨ c = '%' := by
  obtain ⟨b, _, hb⟩ := List.mem_flatMap.mp h
  exact mem_encodeByte hb

/-- A character that is neither bare nor a percent sign is in no encoded text: a slash, say, or the
mark of a query. -/
theorem not_mem_encodeChars {c : Char} (hbare : isBare c = false) (hpercent : c ≠ '%')
    (text : List Char) : c ∉ encodeChars text := by
  intro h
  rcases mem_encodeChars h with h | h
  · exact ne_of_isBare h hbare rfl
  · exact hpercent h

/-- The characters of an encoded text are printable. -/
theorem printable_of_mem_encodeChars {c : Char} {text : List Char} (h : c ∈ encodeChars text) :
    0x20 < c.toNat ∧ c.toNat < 0x7F := by
  have hbare : ∀ n < 0x80, isBare (Char.ofNat n) = true → 0x20 < n ∧ n < 0x7F := by decide
  rcases mem_encodeChars h with h | rfl
  · have hc := hbare c.toNat (toNat_lt_of_isBare h)
    rw [Char.ofNat_toNat] at hc
    exact hc h
  · decide

theorem encodeChars_cons (c : Char) (text : List Char) :
    encodeChars (c :: text) = (String.utf8EncodeChar c).flatMap encodeByte ++ encodeChars text := by
  rw [encodeChars, Utf8.encode, List.flatMap_cons, List.flatMap_append]
  rfl

/-- A text that is put together is encoded part by part. -/
theorem encodeChars_append (text more : List Char) :
    encodeChars (text ++ more) = encodeChars text ++ encodeChars more := by
  rw [encodeChars, Utf8.encode_append, List.flatMap_append]
  rfl

/-- Only the empty text is encoded as nothing. -/
theorem encodeChars_eq_nil {text : List Char} : encodeChars text = [] ↔ text = [] := by
  cases text with
  | nil => exact iff_of_true rfl rfl
  | cons c text =>
    obtain ⟨b, bytes, hbytes⟩ := List.exists_cons_of_ne_nil (String.utf8EncodeChar_ne_nil (c := c))
    simp only [encodeChars_cons, hbytes, List.flatMap_cons, List.append_eq_nil_iff,
      encodeByte_ne_nil, false_and, reduceCtorEq]

theorem encodeByte_of_bare {c : Char} (h : isBare c = true) :
    encodeByte (UInt8.ofNat c.toNat) = [c] := by
  have hbyte : (UInt8.ofNat c.toNat).toNat = c.toNat := by
    have := toNat_lt_of_isBare h
    simp only [UInt8.toNat_ofNat']
    omega
  unfold encodeByte
  dsimp only
  rw [hbyte, Char.ofNat_toNat, if_pos h]

/-- A text of bare characters is encoded as itself. -/
theorem encodeChars_of_bare {text : List Char} (h : ∀ c ∈ text, isBare c = true) :
    encodeChars text = text := by
  induction text with
  | nil => rfl
  | cons c text ih =>
    have hc := h c List.mem_cons_self
    rw [encodeChars_cons, encodeChar_ascii (toNat_lt_of_isBare hc), List.flatMap_singleton,
      encodeByte_of_bare hc, ih fun d hd => h d (List.mem_cons_of_mem _ hd), List.singleton_append]

/-! ## Reading an encoded text -/

theorem bytes_cons_of_ne {c : Char} (h : c ≠ '%') (rest : List Char) :
    bytes (c :: rest) = String.utf8EncodeChar c ++ bytes rest := by
  rw [bytes]
  intro _ _ _ hc
  exact absurd hc h

theorem bytes_escape {high low : Char} {h l : Nat} (hhigh : hexValue? high = some h)
    (hlow : hexValue? low = some l) (rest : List Char) :
    bytes ('%' :: high :: low :: rest) = UInt8.ofNat (h * 16 + l) :: bytes rest := by
  simp only [bytes, hhigh, hlow]

theorem toNat_ofNat_byte {n : Nat} (h : n < 256) : (Char.ofNat n).toNat = n :=
  toNat_ofNat (.inl (by omega))

/-- An encoded byte is read back, in front of any text. -/
theorem bytes_encodeByte_append (b : UInt8) (rest : List Char) :
    bytes (encodeByte b ++ rest) = b :: bytes rest := by
  have hb : b.toNat < 256 := b.toNat_lt
  unfold encodeByte
  dsimp only
  split
  · next hbare =>
    rw [List.singleton_append, bytes_cons_of_ne (ne_of_isBare hbare (by decide)),
      encodeChar_ascii (toNat_lt_of_isBare hbare), toNat_ofNat_byte hb, UInt8.ofNat_toNat,
      List.singleton_append]
  · have hsplit : b.toNat / 16 * 16 + b.toNat % 16 = b.toNat := by omega
    rw [List.cons_append, List.cons_append, List.cons_append, List.nil_append,
      bytes_escape (hexValue?_hexDigit _ (by omega)) (hexValue?_hexDigit _ (by omega)), hsplit,
      UInt8.ofNat_toNat]

/-- An encoded text stands for its own bytes, in front of any text. -/
theorem bytes_encodeChars_append (text rest : List Char) :
    bytes (encodeChars text ++ rest) = Utf8.encode text ++ bytes rest := by
  unfold encodeChars
  induction Utf8.encode text with
  | nil => rfl
  | cons b bs ih =>
    rw [List.flatMap_cons, List.append_assoc, bytes_encodeByte_append, ih, List.cons_append]

/-- **Decoding undoes encoding, also in front of other text.** -/
theorem decodeChars_encodeChars_append (text rest : List Char) :
    decodeChars (encodeChars text ++ rest) = text ++ decodeChars rest := by
  rw [decodeChars, bytes_encodeChars_append, decodeLossy_encode_append, decodeChars]

/-- Decoding undoes encoding. -/
theorem decodeChars_encodeChars (text : List Char) : decodeChars (encodeChars text) = text := by
  have h := decodeChars_encodeChars_append text []
  rwa [List.append_nil, show decodeChars [] = [] from rfl, List.append_nil] at h

/-- A text of bare characters is the encoding of itself alone. -/
theorem encodeChars_eq_iff {text bare : List Char} (h : ∀ c ∈ bare, isBare c = true) :
    encodeChars text = bare ↔ text = bare := by
  constructor
  · intro heq
    rw [← encodeChars_of_bare h] at heq
    have hdecoded := congrArg decodeChars heq
    rwa [decodeChars_encodeChars, decodeChars_encodeChars] at hdecoded
  · rintro rfl
    exact encodeChars_of_bare h

/-- **Decoding a segment undoes encoding it, also in front of other text.** The text behind is decoded
as if it stood alone, be it a segment or not: neither an escape nor a character is read across the
place where the two meet. Encoding goes part by part as well. -/
theorem decode_undoes_encode (s t : String) :
    decode (encode s ++ t) = s ++ decode t ∧
      decode (encode s) = s ∧
      encode (s ++ t) = encode s ++ encode t := by
  refine ⟨?before, ?alone, ?parts⟩
  case before =>
    rw [decode, encode, String.toList_append, String.toList_ofList, decodeChars_encodeChars_append,
      String.ofList_append, String.ofList_toList]
    rfl
  case alone =>
    rw [decode, encode, String.toList_ofList, decodeChars_encodeChars, String.ofList_toList]
  case parts =>
    rw [encode, String.toList_append, encodeChars_append, String.ofList_append]
    rfl

/-- A text that looks like an escape is decoded as itself, and a continuation byte behind it does not
join its last character. -/
example : decode (encode "%41é" ++ "%A9") = "%41é\uFFFD" := by decide

/-! ## Reading any segment -/

/-- A segment that is not empty stands for some byte. -/
theorem bytes_ne_nil {segment : List Char} (h : segment ≠ []) : bytes segment ≠ [] := by
  unfold bytes
  split
  · exact absurd rfl h
  · -- an escape, or a percent sign that starts none
    split <;> exact List.cons_ne_nil _ _
  · exact List.append_ne_nil_of_left_ne_nil String.utf8EncodeChar_ne_nil _

/-- Only the empty segment is decoded as nothing, however ill-formed its escapes are. -/
theorem decodeChars_eq_nil {segment : List Char} : decodeChars segment = [] ↔ segment = [] := by
  constructor
  · intro h
    cases segment with
    | nil => rfl
    | cons c rest => exact absurd h (decodeLossy_ne_nil (bytes_ne_nil (List.cons_ne_nil c rest)))
  · rintro rfl
    rfl

end BuildBrowser.Segment
