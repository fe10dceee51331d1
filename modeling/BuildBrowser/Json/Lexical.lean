import BuildBrowser.Json.Fault

/-!
# JSON tokens — blanks, words and strings

Every reader takes the bytes that are left and returns what it read with the bytes after it. A
string is read by an automaton over its bytes (`Scan`), which yields the raw bytes and the escapes in
it as pieces. Whether the raw bytes are UTF-8 is asked when the closing quote has been seen. The same
automaton, told not to pair surrogates, passes over a string that nobody keeps.
-/

namespace BuildBrowser.Json

/-- What a reader gives: a value and the bytes after it, or a fault. -/
abbrev Outcome (α : Type) := Except Fault (α × Bytes)

/-- The blanks of the format: space, tab, line feed and carriage return. -/
def isBlank (b : UInt8) : Bool :=
  b == 0x20 || b == 0x09 || b == 0x0A || b == 0x0D

/-- The bytes after the blanks. -/
def skipBlanks (input : Bytes) : Bytes :=
  input.dropWhile isBlank

/-- A decimal digit. -/
def isDigit (b : UInt8) : Bool :=
  0x30 ≤ b && b ≤ 0x39

/-- The bytes after a word, of which the first letter has been read. -/
def word : (expected input : Bytes) → Except Fault Bytes
  | [], rest => .ok rest
  | _ :: _, [] => .error (.here .endInValue [])
  | e :: expected, b :: rest =>
    if b = e then word expected rest else .error (.here .expectedIdent rest)

/-- The letters of `null` after the first. -/
def nullTail : Bytes := [0x75, 0x6C, 0x6C]

/-- The letters of `true` after the first. -/
def trueTail : Bytes := [0x72, 0x75, 0x65]

/-- The letters of `false` after the first. -/
def falseTail : Bytes := [0x61, 0x6C, 0x73, 0x65]

/-! ## Strings -/

/-- The value of a hexadecimal digit, of either case. -/
def hexDigit? (b : UInt8) : Option Nat :=
  if 0x30 ≤ b && b ≤ 0x39 then some (b.toNat - 0x30)
  else if 0x41 ≤ b && b ≤ 0x46 then some (b.toNat - 0x41 + 10)
  else if 0x61 ≤ b && b ≤ 0x66 then some (b.toNat - 0x61 + 10)
  else none

/-- The number that four hexadecimal digits write. -/
def hex4? (a b c d : UInt8) : Option Nat := do
  return (((← hexDigit? a) * 16 + (← hexDigit? b)) * 16 + (← hexDigit? c)) * 16 + (← hexDigit? d)

/-- The character that a letter stands for after a backslash. -/
def escapeLetter? (b : UInt8) : Option Char :=
  match b with
  | 0x22 => some '"'
  | 0x5C => some '\\'
  | 0x2F => some '/'
  | 0x62 => some '\x08'
  | 0x66 => some '\x0C'
  | 0x6E => some '\n'
  | 0x72 => some '\r'
  | 0x74 => some '\t'
  | _ => none

/-- A piece of a string: one raw byte, or the character of an escape. -/
inductive Piece where
  | raw (b : UInt8)
  | escaped (c : Char)
  deriving DecidableEq, Repr

/-- The bytes of a piece in the text that the string stands for. -/
def Piece.bytes : Piece → Bytes
  | .raw b => [b]
  | .escaped c => String.utf8EncodeChar c

/-- The place within a string: between pieces, after a backslash, among the four digits of an
escape, or between the two escapes of a surrogate pair. -/
inductive Scan where
  | plain
  | letter
  | digits (read : List UInt8)
  | pair (high : Nat)
  | pairLetter (high : Nat)
  | pairDigits (high : Nat) (read : List UInt8)
  deriving DecidableEq, Repr

/-- What the next byte of a string does. -/
inductive Scan.Move where
  | go (next : Scan) (piece? : Option Piece)
  | close
  | fail (cause : Cause)
  deriving DecidableEq, Repr

/-- A leading surrogate. -/
def isHighSurrogate (n : Nat) : Bool :=
  0xD800 ≤ n && n ≤ 0xDBFF

/-- A trailing surrogate. -/
def isLowSurrogate (n : Nat) : Bool :=
  0xDC00 ≤ n && n ≤ 0xDFFF

/-- The move at the last digit of an escape that no leading surrogate came before. Surrogates are
looked at only if pairs are wanted. -/
def Scan.single (pairs : Bool) (n : Nat) : Move :=
  if pairs && isLowSurrogate n then .fail .loneSurrogate
  else if pairs && isHighSurrogate n then .go (.pair n) none
  else .go .plain (some (.escaped (Char.ofNat n)))

/-- The move at the last digit of the escape after a leading surrogate. -/
def Scan.paired (high n : Nat) : Move :=
  if isLowSurrogate n then
    .go .plain (some (.escaped (Char.ofNat ((high - 0xD800) * 0x400 + (n - 0xDC00) + 0x10000))))
  else .fail .loneSurrogate

/-- The move of the automaton at a byte. -/
def Scan.move (pairs : Bool) (scan : Scan) (b : UInt8) : Move :=
  match scan with
  | .plain =>
    if b = 0x22 then .close
    else if b = 0x5C then .go .letter none
    else if b < 0x20 then .fail .controlCharacter
    else .go .plain (some (.raw b))
  | .letter =>
    if b = 0x75 then .go (.digits []) none
    else
      match escapeLetter? b with
      | some c => .go .plain (some (.escaped c))
      | none => .fail .invalidEscape
  | .digits [x, y, z] =>
    match hex4? x y z b with
    | some n => Scan.single pairs n
    | none => .fail .invalidEscape
  | .digits read => .go (.digits (read ++ [b])) none
  | .pair high => if b = 0x5C then .go (.pairLetter high) none else .fail .unpairedEscape
  | .pairLetter high => if b = 0x75 then .go (.pairDigits high []) none else .fail .unpairedEscape
  | .pairDigits high [x, y, z] =>
    match hex4? x y z b with
    | some n => Scan.paired high n
    | none => .fail .invalidEscape
  | .pairDigits high read => .go (.pairDigits high (read ++ [b])) none

/-- The pieces of a string up to its closing quote. -/
def pieces (scan : Scan) : Bytes → Outcome (List Piece)
  | [] => .error (.here .endInString [])
  | b :: rest =>
    match scan.move true b with
    | .close => .ok ([], rest)
    | .fail cause => .error (.here cause rest)
    | .go next piece? =>
      match pieces next rest with
      | .ok (found, rest) => .ok (piece?.toList ++ found, rest)
      | .error fault => .error fault

/-- The scalar values and ill-formed runs of bytes that pieces make up, after a state of the UTF-8
decoder. An escape ends a scalar value that is still open. -/
def Piece.scan (open? : Option Utf8.Partial) : List Piece → List (Option Char)
  | [] => Utf8.finish open?
  | .raw b :: rest => (Utf8.step open? b).1 ++ Piece.scan (Utf8.step open? b).2 rest
  | .escaped c :: rest => Utf8.finish open? ++ some c :: Piece.scan none rest

/-- The pieces from the first ill-formed run of bytes on. A scalar value that is still open comes
with the pieces from its first byte on. -/
def Piece.fromIllFormed (open? : Option (Utf8.Partial × List Piece)) : List Piece → List Piece
  | [] => (open?.map (·.2)).getD []
  | .escaped _ :: rest =>
    match open? with
    | some (_, first) => first
    | none => fromIllFormed none rest
  | .raw b :: rest =>
    match open? with
    | some (p, first) =>
      if p.admits b then
        match p.push b with
        | .inl _ => fromIllFormed none rest
        | .inr q => fromIllFormed (some (q, first)) rest
      else first
    | none =>
      match Utf8.lead b with
      | .scalar _ => fromIllFormed none rest
      | .opens p => fromIllFormed (some (p, .raw b :: rest)) rest
      | .stray => .raw b :: rest

/-- The text of a string, of which the opening quote has been read. Where its bytes are not UTF-8,
the place is as far before the end of the string as the first ill-formed run is before the end of the
text, so an escape counts as the bytes of its character. -/
def string (input : Bytes) : Outcome String :=
  match pieces .plain input with
  | .error fault => .error fault
  | .ok (found, rest) =>
    match (Piece.scan none found).mapM id with
    | some text => .ok (String.ofList text, rest)
    | none =>
      let bad := (Piece.fromIllFormed none found).flatMap Piece.bytes
      .error ⟨.invalidUnicode, bad.length + rest.length⟩

/-- The bytes after a string that nobody keeps, from a place within it. Its bytes need not be UTF-8,
and surrogates need not be paired. A control character is reported at the place before it, where a
kept string reports it after it. -/
def skipString (scan : Scan) : Bytes → Except Fault Bytes
  | [] => .error (.here .endInString [])
  | b :: rest =>
    match scan.move false b with
    | .close => .ok rest
    | .fail .controlCharacter => .error (.here .controlCharacter (b :: rest))
    | .fail cause => .error (.here cause rest)
    | .go next _ => skipString next rest

end BuildBrowser.Json
