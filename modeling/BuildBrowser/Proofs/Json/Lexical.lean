import BuildBrowser.Json.Writer
import BuildBrowser.Json.Lexical
import BuildBrowser.Proofs.Text.Utf8

/-!
# Strings are read back from their written form

A written string holds each character as its UTF-8 bytes or as an escape. The automaton is followed a
character at a time (`pieces_escapeChar`): a raw character comes out as raw pieces, an escape as one
escaped piece. Both make up the character again in the UTF-8 reading of the pieces
(`scan_writtenPieces`), whatever pieces follow. By induction on the text,

- `string_written`: a written string is read as the string, in front of any bytes.

The closing quote ends a string, so nothing is asked of those bytes.
-/

namespace BuildBrowser.Json

open Utf8

/-! ## Blanks -/

theorem skipBlanks_of_not_blank {b : UInt8} (h : isBlank b = false) (rest : Bytes) :
    skipBlanks (b :: rest) = b :: rest :=
  List.dropWhile_cons_of_neg (by simp [h])

/-- Blanks at the front make no difference. -/
theorem skipBlanks_append {blanks : Bytes} (h : ∀ b ∈ blanks, isBlank b = true) (rest : Bytes) :
    skipBlanks (blanks ++ rest) = skipBlanks rest :=
  List.dropWhile_append_of_pos h

/-! ## Pieces -/

/-- The pieces that a written character is read as. -/
def writtenPieces (c : Char) : List Piece :=
  if escapeChar c = [c] then (String.utf8EncodeChar c).map .raw else [.escaped c]

theorem pieces_go {scan next : Scan} {b : UInt8} {piece? : Option Piece} {rest after : Bytes}
    {found : List Piece} (hmove : scan.move true b = .go next piece?)
    (h : pieces next rest = .ok (found, after)) :
    pieces scan (b :: rest) = .ok (piece?.toList ++ found, after) := by
  simp only [pieces, hmove, h]

/-- A byte that is no quote, no backslash and no control character is a raw piece. -/
theorem move_raw {b : UInt8} (hquote : b ≠ 0x22) (hescape : b ≠ 0x5C) (hcontrol : ¬b < 0x20) :
    Scan.plain.move true b = .go .plain (some (.raw b)) := by
  simp only [Scan.move, if_neg hquote, if_neg hescape, if_neg hcontrol]

/-- Bytes that need no escape are raw pieces. -/
theorem pieces_raw {bytes : Bytes} (hbytes : ∀ b ∈ bytes, b ≠ 0x22 ∧ b ≠ 0x5C ∧ ¬b < 0x20)
    {rest after : Bytes} {found : List Piece} (h : pieces .plain rest = .ok (found, after)) :
    pieces .plain (bytes ++ rest) = .ok (bytes.map .raw ++ found, after) := by
  induction bytes with
  | nil => exact h
  | cons b bytes ih =>
    obtain ⟨hquote, hescape, hcontrol⟩ := hbytes b List.mem_cons_self
    exact pieces_go (move_raw hquote hescape hcontrol)
      (ih fun c hc => hbytes c (List.mem_cons_of_mem _ hc))

theorem move_backslash : Scan.plain.move true 0x5C = .go .letter none := by decide

/-- An escape of one letter is one escaped piece. -/
theorem pieces_letter {letter : UInt8} {c : Char} (hletter : escapeLetter? letter = some c)
    (hu : letter ≠ 0x75) {rest after : Bytes} {found : List Piece}
    (h : pieces .plain rest = .ok (found, after)) :
    pieces .plain (0x5C :: letter :: rest) = .ok (.escaped c :: found, after) := by
  have hmove : Scan.letter.move true letter = .go .plain (some (.escaped c)) := by
    simp only [Scan.move, if_neg hu, hletter]
  exact pieces_go move_backslash (pieces_go hmove h)

theorem hex4?_control : ∀ n < 0x20, hex4? 0x30 0x30 (UInt8.ofNat (hexDigit (n / 16)).toNat)
    (UInt8.ofNat (hexDigit (n % 16)).toNat) = some n := by
  decide

theorem single_control : ∀ n < 0x20,
    Scan.single true n = .go .plain (some (.escaped (Char.ofNat n))) := by
  decide

/-- The first three digits of an escape are only collected. -/
theorem move_digits {read : List UInt8} (hread : read.length < 3) (b : UInt8) :
    (Scan.digits read).move true b = .go (.digits (read ++ [b])) none := by
  match read with
  | [] | [_] | [_, _] => rfl
  | _ :: _ :: _ :: _ => simp at hread; omega

/-- The escape of a control character by its number is one escaped piece. -/
theorem pieces_control {n : Nat} (hn : n < 0x20) {rest after : Bytes} {found : List Piece}
    (h : pieces .plain rest = .ok (found, after)) :
    pieces .plain (0x5C :: 0x75 :: 0x30 :: 0x30 :: UInt8.ofNat (hexDigit (n / 16)).toNat ::
      UInt8.ofNat (hexDigit (n % 16)).toNat :: rest) = .ok (.escaped (Char.ofNat n) :: found, after) := by
  have hu : Scan.letter.move true 0x75 = .go (.digits []) none := by decide
  have hlast : (Scan.digits [0x30, 0x30, UInt8.ofNat (hexDigit (n / 16)).toNat]).move true
      (UInt8.ofNat (hexDigit (n % 16)).toNat) = .go .plain (some (.escaped (Char.ofNat n))) := by
    simp only [Scan.move, hex4?_control n hn, single_control n hn]
  exact pieces_go move_backslash <| pieces_go hu <| pieces_go (move_digits (by decide) _) <|
    pieces_go (move_digits (by decide) _) <| pieces_go (move_digits (by decide) _) <| pieces_go hlast h

/-! ## Written characters -/

/-- How a character stands in a written string: as itself, as a letter after a backslash, or as the
number of a control character. -/
theorem escapeChar_cases (c : Char) :
    (escapeChar c = [c] ∧ c ≠ '"' ∧ c ≠ '\\' ∧ 0x20 ≤ c.toNat) ∨
    (∃ letter : Char, escapeChar c = ['\\', letter] ∧ letter.toNat < 0x80 ∧ letter ≠ 'u' ∧
      escapeLetter? (UInt8.ofNat letter.toNat) = some c) ∨
    (c.toNat < 0x20 ∧ escapeChar c =
      ['\\', 'u', '0', '0', hexDigit (c.toNat / 16), hexDigit (c.toNat % 16)]) := by
  unfold escapeChar
  split
  · exact .inr (.inl ⟨'"', rfl, by decide⟩)
  · exact .inr (.inl ⟨'\\', rfl, by decide⟩)
  · exact .inr (.inl ⟨'b', rfl, by decide⟩)
  · exact .inr (.inl ⟨'f', rfl, by decide⟩)
  · exact .inr (.inl ⟨'n', rfl, by decide⟩)
  · exact .inr (.inl ⟨'r', rfl, by decide⟩)
  · exact .inr (.inl ⟨'t', rfl, by decide⟩)
  · next hquote hescape _ _ _ _ _ =>
    split
    · next hcontrol => exact .inr (.inr ⟨hcontrol, rfl⟩)
    · next hcontrol => exact .inl ⟨rfl, hquote, hescape, by omega⟩

/-- The bytes of a character that stands as itself need no escape. -/
theorem raw_of_mem_encodeChar {c : Char} (hquote : c ≠ '"') (hescape : c ≠ '\\')
    (hcontrol : 0x20 ≤ c.toNat) :
    ∀ b ∈ String.utf8EncodeChar c, b ≠ 0x22 ∧ b ≠ 0x5C ∧ ¬b < 0x20 := by
  intro b hb
  by_cases hascii : c.toNat < 0x80
  · rw [encodeChar_ascii hascii, List.mem_singleton] at hb
    have hbyte : b.toNat = c.toNat := by
      rw [hb, UInt8.toNat_ofNat', Nat.mod_eq_of_lt (by omega)]
    refine ⟨?_, ?_, ?_⟩
    · rintro rfl
      exact hquote (Char.toNat_inj.mp hbyte.symm)
    · rintro rfl
      exact hescape (Char.toNat_inj.mp hbyte.symm)
    · rw [UInt8.lt_iff_toNat_lt, hbyte]
      exact Nat.not_lt.mpr hcontrol
  · have hlow := UInt8.le_iff_toNat_le.mp (le_of_mem_encodeChar hb (Nat.not_lt.mp hascii))
    refine ⟨?_, ?_, ?_⟩
    · rintro rfl
      exact absurd hlow (by decide)
    · rintro rfl
      exact absurd hlow (by decide)
    · rw [UInt8.lt_iff_toNat_lt]
      exact Nat.not_lt.mpr (Nat.le_trans (by decide) hlow)

theorem hexDigit_ascii : ∀ n < 16, (hexDigit n).toNat < 0x80 := by decide

/-- **A written character is read as its pieces**, in front of anything that can be read. -/
theorem pieces_escapeChar (c : Char) {rest after : Bytes} {found : List Piece}
    (h : pieces .plain rest = .ok (found, after)) :
    pieces .plain (encode (escapeChar c) ++ rest) = .ok (writtenPieces c ++ found, after) := by
  obtain ⟨hself, hquote, hescape, hcontrol⟩ | ⟨letter, heq, hascii, hu, hletter⟩ | ⟨hcontrol, heq⟩ :=
    escapeChar_cases c
  · have hraw := raw_of_mem_encodeChar hquote hescape hcontrol
    rw [writtenPieces, if_pos hself, hself, encode_cons, show encode [] = [] from rfl,
      List.append_nil]
    exact pieces_raw hraw h
  · have hletter' : UInt8.ofNat letter.toNat ≠ 0x75 := by
      intro heq
      have := congrArg UInt8.toNat heq
      rw [UInt8.toNat_ofNat', Nat.mod_eq_of_lt (by omega)] at this
      exact hu (Char.toNat_inj.mp this)
    rw [writtenPieces, if_neg (by simp [heq]), heq, encode_ascii (by decide), encode_ascii hascii]
    exact pieces_letter hletter hletter' h
  · have hhigh := hexDigit_ascii (c.toNat / 16) (by omega)
    have hlow := hexDigit_ascii (c.toNat % 16) (by omega)
    have hread := pieces_control hcontrol h
    rw [Char.ofNat_toNat] at hread
    rw [writtenPieces, if_neg (by simp [heq]), heq, encode_ascii (by decide), encode_ascii (by decide),
      encode_ascii (by decide), encode_ascii (by decide), encode_ascii hhigh, encode_ascii hlow]
    exact hread

/-! ## Written strings -/

/-- Raw pieces are read as the bytes that they are. -/
theorem scan_raw (open? : Option Partial) (bytes : Bytes) (rest : List Piece) :
    Piece.scan open? (bytes.map .raw ++ rest) =
      (feed open? bytes).1 ++ Piece.scan (feed open? bytes).2 rest := by
  induction bytes generalizing open? with
  | nil => rfl
  | cons b bytes ih => rw [List.map_cons, List.cons_append, Piece.scan, ih, feed, List.append_assoc]

/-- The pieces of a written character make it up, whatever pieces follow. -/
theorem scan_writtenPieces (c : Char) (rest : List Piece) :
    Piece.scan none (writtenPieces c ++ rest) = some c :: Piece.scan none rest := by
  unfold writtenPieces
  split
  · rw [scan_raw, feed_encodeChar, List.singleton_append]
  · rfl

theorem scan_flatMap_writtenPieces (text : List Char) :
    Piece.scan none (text.flatMap writtenPieces) = text.map some := by
  induction text with
  | nil => rfl
  | cons c text ih => rw [List.flatMap_cons, scan_writtenPieces, ih, List.map_cons]

theorem pieces_written (text : List Char) (rest : Bytes) :
    pieces .plain (encode (text.flatMap escapeChar) ++ 0x22 :: rest) =
      .ok (text.flatMap writtenPieces, rest) := by
  induction text with
  | nil => rfl
  | cons c text ih =>
    rw [List.flatMap_cons, List.flatMap_cons, encode_append, List.append_assoc]
    exact pieces_escapeChar c ih

/-- **A written string is read as the string**, in front of any bytes. -/
theorem string_written (s : String) (rest : Bytes) :
    string (encode (s.toList.flatMap escapeChar) ++ 0x22 :: rest) = .ok (s, rest) := by
  have hread : (s.toList.map some).mapM id = some s.toList := mapM_id_eq_some_iff.mpr rfl
  rw [string, pieces_written]
  simp only [scan_flatMap_writtenPieces, hread, String.ofList_toList]

/-- A written string starts with a quote. -/
theorem encode_writeString (s : String) (rest : Bytes) :
    encode (writeString s) ++ rest =
      0x22 :: (encode (s.toList.flatMap escapeChar) ++ 0x22 :: rest) := by
  rw [writeString, encode_append, List.append_assoc, encode_ascii (by decide), List.cons_append]
  rfl

end BuildBrowser.Json
