import BuildBrowser.Proofs.Segment
import BuildBrowser.Proofs.Text.Utf8.WellFormed

/-!
# The segments that encoding writes

A canonical segment is described by its tokens, without the encoder: bare characters, and escapes in
upper case of bytes that no bare character has, which together stand for UTF-8. An encoded text is
such a segment, since a byte is written as one token (`Token.ofByte`); and a canonical segment is an
encoded text, since a well-formed token is how its byte is written (`Token.Valid.text_eq`) and only
written text is UTF-8 (`Utf8.decode?_eq_some_iff`).

**The law** (`encoded_iff_canonical`): the canonical segments are the encoded texts, and they are the
segments that decoding and encoding again gives back. An escape in lower case, the escape of a bare
character, a percent sign that starts no escape, a character that is not bare and bytes that are not
UTF-8 are thus never given back as they were.
-/

namespace BuildBrowser.Segment

/-! ## Tokens and bytes -/

namespace Token

/-- The token that a byte is written as. -/
def ofByte (b : UInt8) : Token :=
  if isBare (Char.ofNat b.toNat) then .bare (Char.ofNat b.toNat) else .escape b

theorem valid_ofByte (b : UInt8) : (ofByte b).Valid := by
  unfold ofByte
  split
  · next hbare => exact hbare
  · next hescaped => exact Bool.eq_false_iff.mpr hescaped

theorem byte_ofByte (b : UInt8) : (ofByte b).byte = b := by
  unfold ofByte
  split
  · change UInt8.ofNat (Char.ofNat b.toNat).toNat = b
    rw [toNat_ofNat_byte b.toNat_lt, UInt8.ofNat_toNat]
  · rfl

/-- A well-formed token is how its byte is written. -/
theorem Valid.text_eq {t : Token} (h : t.Valid) : t.text = encodeByte t.byte := by
  cases t with
  | bare c => exact (encodeByte_of_bare h).symm
  | escape b =>
    change ['%', hexDigit (b.toNat / 16), hexDigit (b.toNat % 16)] = encodeByte b
    rw [encodeByte, if_neg (Bool.eq_false_iff.mp h)]

/-- Well-formed tokens are how their bytes are written. -/
theorem flatMap_text {tokens : List Token} (h : ∀ t ∈ tokens, t.Valid) :
    tokens.flatMap text = (tokens.map byte).flatMap encodeByte := by
  induction tokens with
  | nil => rfl
  | cons t tokens ih =>
    obtain ⟨ht, htokens⟩ := List.forall_mem_cons.mp h
    rw [List.flatMap_cons, List.map_cons, List.flatMap_cons, ht.text_eq, ih htokens]

end Token

/-! ## Canonical segments -/

theorem canonical_encodeChars (text : List Char) : Canonical (encodeChars text) := by
  have hbytes : ((Utf8.encode text).map Token.ofByte).map Token.byte = Utf8.encode text := by
    rw [List.map_map]
    exact (List.map_congr_left fun b _ => Token.byte_ofByte b).trans (List.map_id _)
  have hvalid : ∀ t ∈ (Utf8.encode text).map Token.ofByte, t.Valid := by
    intro t ht
    obtain ⟨b, -, rfl⟩ := List.mem_map.mp ht
    exact Token.valid_ofByte b
  refine ⟨(Utf8.encode text).map Token.ofByte, hvalid, ?_, ?_⟩
  · rw [Token.flatMap_text hvalid, hbytes]
    rfl
  · rw [hbytes, Utf8.decode?_eq_some_iff.mpr rfl]
    rfl

theorem Canonical.exists_text {segment : List Char} (h : Canonical segment) :
    ∃ text, encodeChars text = segment := by
  obtain ⟨tokens, hvalid, hsegment, hread⟩ := h
  obtain ⟨text, htext⟩ := Option.isSome_iff_exists.mp hread
  refine ⟨text, ?_⟩
  rw [hsegment, Token.flatMap_text hvalid, Utf8.decode?_eq_some_iff.mp htext]
  rfl

/-- Canonical segments survive decoding and encoding again. -/
theorem Canonical.encodeChars_decodeChars {segment : List Char} (h : Canonical segment) :
    encodeChars (decodeChars segment) = segment := by
  obtain ⟨text, rfl⟩ := h.exists_text
  rw [decodeChars_encodeChars]

/-- **Canonical segments are the encoded texts**, and the segments that decoding and then encoding
gives back. -/
theorem encoded_iff_canonical (t : String) :
    (encode (decode t) = t ↔ Canonical t.toList) ∧ ((∃ s, encode s = t) ↔ Canonical t.toList) := by
  have hcanonical (s : String) : Canonical (encode s).toList := by
    rw [encode, String.toList_ofList]
    exact canonical_encodeChars s.toList
  have hagain (h : Canonical t.toList) : encode (decode t) = t := by
    rw [encode, decode, String.toList_ofList, h.encodeChars_decodeChars, String.ofList_toList]
  refine ⟨⟨fun h => ?_, hagain⟩, fun h => ?_, fun h => ⟨decode t, hagain h⟩⟩
  · rw [← h]
    exact hcanonical (decode t)
  · obtain ⟨s, rfl⟩ := h
    exact hcanonical s

/-- An escape in lower case, the escape of a bare character and bytes that are not UTF-8 are written
another way. -/
example : ["%2f", "%2F", "%41", "%E9"].map (fun t => encode (decode t)) =
    ["%2F", "%2F", "A", "%EF%BF%BD"] := by decide

end BuildBrowser.Segment
