/-!
# UTF-8 — bytes of a text, and the text of bytes

`encode` writes every scalar value in its shortest form. Reading goes through one transducer, `step`,
which takes a byte at a time and knows how many continuation bytes are due and between which bounds
the next one must lie. Its output is a list in which `some c` is a scalar value and `none` stands
for one maximal ill-formed piece: the longest start of a scalar value that its next byte does not
continue, or a byte that starts none. Both readings are views of that list: `decode?` demands that
every entry is a scalar value, and `decodeLossy` puts U+FFFD in place of each ill-formed piece.
-/

namespace BuildBrowser

/-- A run of octets, such as the body of a reply or the content of a file. -/
abbrev Bytes := List UInt8

namespace Utf8

/-- The bytes of a text. -/
def encode (text : List Char) : Bytes :=
  text.flatMap String.utf8EncodeChar

/-- A scalar value of which the first bytes are known: its leading bits, the number of continuation
bytes due after the next one, and the bounds of the next one. -/
structure Partial where
  bits : Nat
  due : Nat
  low : UInt8
  high : UInt8
  deriving DecidableEq, Repr

/-- What a byte means where a scalar value may start. -/
inductive Lead where
  | scalar (c : Char)
  | opens (p : Partial)
  | stray
  deriving DecidableEq, Repr

/-- The reading of a first byte. The bounds of the second byte keep overlong forms, surrogates and
values above U+10FFFF out. -/
def lead (b : UInt8) : Lead :=
  if b < 0x80 then .scalar (Char.ofNat b.toNat)
  else if b < 0xC2 then .stray
  else if b < 0xE0 then .opens ⟨b.toNat - 0xC0, 0, 0x80, 0xBF⟩
  else if b = 0xE0 then .opens ⟨0x0, 1, 0xA0, 0xBF⟩
  else if b = 0xED then .opens ⟨0xD, 1, 0x80, 0x9F⟩
  else if b < 0xF0 then .opens ⟨b.toNat - 0xE0, 1, 0x80, 0xBF⟩
  else if b = 0xF0 then .opens ⟨0x0, 2, 0x90, 0xBF⟩
  else if b < 0xF4 then .opens ⟨b.toNat - 0xF0, 2, 0x80, 0xBF⟩
  else if b = 0xF4 then .opens ⟨0x4, 2, 0x80, 0x8F⟩
  else .stray

/-- Whether a byte continues the scalar value. -/
def Partial.admits (p : Partial) (b : UInt8) : Bool :=
  decide (p.low ≤ b ∧ b ≤ p.high)

/-- The scalar value with one more continuation byte: complete, or still partial. -/
def Partial.push (p : Partial) (b : UInt8) : Char ⊕ Partial :=
  let bits := p.bits * 64 + (b.toNat - 0x80)
  match p.due with
  | 0 => .inl (Char.ofNat bits)
  | due + 1 => .inr ⟨bits, due, 0x80, 0xBF⟩

/-- One byte read where a scalar value may start: what is decided, and what is left open. -/
def start (b : UInt8) : List (Option Char) × Option Partial :=
  match lead b with
  | .scalar c => ([some c], none)
  | .opens p => ([], some p)
  | .stray => ([none], none)

/-- One byte read in a state. A byte that does not continue an open scalar value ends it as an
ill-formed piece and is then read anew. -/
def step (open? : Option Partial) (b : UInt8) : List (Option Char) × Option Partial :=
  match open? with
  | none => start b
  | some p =>
    if p.admits b then
      match p.push b with
      | .inl c => ([some c], none)
      | .inr q => ([], some q)
    else
      (none :: (start b).1, (start b).2)

/-- What is decided when the input ends in a state. -/
def finish : Option Partial → List (Option Char)
  | none => []
  | some _ => [none]

/-- The scalar values and ill-formed pieces of the bytes that follow a state. -/
def scan (open? : Option Partial) : Bytes → List (Option Char)
  | [] => finish open?
  | b :: rest => (step open? b).1 ++ scan (step open? b).2 rest

/-- The text of well-formed bytes. -/
def decode? (bytes : Bytes) : Option (List Char) :=
  (scan none bytes).mapM id

/-- The text of any bytes, with U+FFFD for each ill-formed piece. -/
def decodeLossy (bytes : Bytes) : List Char :=
  (scan none bytes).map (·.getD '\uFFFD')

end Utf8

/-- The UTF-8 bytes of a string. -/
def utf8 (s : String) : Bytes :=
  Utf8.encode s.toList

end BuildBrowser
