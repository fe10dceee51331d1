import BuildBrowser.Text.Utf8

/-!
# Path segments — any text as one segment of a path

`encode` writes each byte of a text as itself if it is the code of a bare character, and as `%` and
two upper-case hexadecimal digits otherwise; no slash is bare, so the result is one segment. `decode`
reads every `%` with two hexadecimal digits of either case as a byte and all other characters as
themselves, and puts U+FFFD where the bytes are not UTF-8. `Canonical` describes the encoded texts
without the encoder.
-/

namespace BuildBrowser.Segment

/-- The characters that stand for themselves: ASCII letters and digits and `-_.!~*'()`. -/
def isBare (c : Char) : Bool :=
  ('A' ≤ c && c ≤ 'Z') || ('a' ≤ c && c ≤ 'z') || ('0' ≤ c && c ≤ '9') ||
    ['-', '_', '.', '!', '~', '*', '\x27', '(', ')'].contains c

/-- A hexadecimal digit in upper case. -/
def hexDigit (n : Nat) : Char :=
  if n < 10 then Char.ofNat (n + 0x30) else Char.ofNat (n - 10 + 0x41)

/-- The value of a hexadecimal digit of either case. -/
def hexValue? (c : Char) : Option Nat :=
  if '0' ≤ c && c ≤ '9' then some (c.toNat - 0x30)
  else if 'A' ≤ c && c ≤ 'F' then some (c.toNat - 0x41 + 10)
  else if 'a' ≤ c && c ≤ 'f' then some (c.toNat - 0x61 + 10)
  else none

/-- A byte as it stands in a segment. -/
def encodeByte (b : UInt8) : List Char :=
  let c := Char.ofNat b.toNat
  if isBare c then [c] else ['%', hexDigit (b.toNat / 16), hexDigit (b.toNat % 16)]

/-- A text as it stands in a segment. -/
def encodeChars (text : List Char) : List Char :=
  (Utf8.encode text).flatMap encodeByte

/-- The bytes that a segment stands for. -/
def bytes : List Char → Bytes
  | [] => []
  | '%' :: high :: low :: rest =>
    match hexValue? high, hexValue? low with
    | some h, some l => UInt8.ofNat (h * 16 + l) :: bytes rest
    | _, _ => 0x25 :: bytes (high :: low :: rest)
  | c :: rest => String.utf8EncodeChar c ++ bytes rest

/-- The text that a segment stands for. -/
def decodeChars (segment : List Char) : List Char :=
  Utf8.decodeLossy (bytes segment)

/-- A text as one segment of a path. -/
def encode (text : String) : String :=
  String.ofList (encodeChars text.toList)

/-- The text that a segment stands for. -/
def decode (segment : String) : String :=
  String.ofList (decodeChars segment.toList)

/-! ## Canonical segments -/

/-- A token of a canonical segment: a bare character, or the escape of a byte. -/
inductive Token where
  | bare (c : Char)
  | escape (b : UInt8)
  deriving DecidableEq, Repr

/-- A token is well-formed if its character is bare, or its byte is not the code of a bare one. -/
def Token.Valid : Token → Prop
  | .bare c => isBare c = true
  | .escape b => isBare (Char.ofNat b.toNat) = false

/-- The characters of a token. -/
def Token.text : Token → List Char
  | .bare c => [c]
  | .escape b => ['%', hexDigit (b.toNat / 16), hexDigit (b.toNat % 16)]

/-- The byte that a token stands for. -/
def Token.byte : Token → UInt8
  | .bare c => UInt8.ofNat c.toNat
  | .escape b => b

/-- A segment is canonical if it is a sequence of well-formed tokens whose bytes are UTF-8. -/
def Canonical (segment : List Char) : Prop :=
  ∃ tokens : List Token,
    (∀ t ∈ tokens, t.Valid) ∧ segment = tokens.flatMap Token.text ∧
      (Utf8.decode? (tokens.map Token.byte)).isSome

end BuildBrowser.Segment
