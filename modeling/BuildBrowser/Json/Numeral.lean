import BuildBrowser.Json.Lexical

/-!
# JSON numerals — reading a number that is kept

The digits of a numeral join a significand of 64 bits for as long as it holds them. A numeral of
digits alone whose significand held all of them is an integer; any other numeral becomes a binary64:
its significand, rounded, times or over a power of ten. Digits of the integer part that the
significand does not hold raise the power; those of the fraction are dropped.
-/

namespace BuildBrowser.Json

/-- The value of a digit. -/
def digitValue (b : UInt8) : Nat :=
  b.toNat - 0x30

/-- Whether the next byte is a digit. -/
def digitAhead : Bytes → Bool
  | [] => false
  | b :: _ => isDigit b

/-- The significand with the digits ahead that it holds, and the bytes after them. -/
def gather (significand : Nat) : Bytes → Nat × Bytes
  | [] => (significand, [])
  | b :: rest =>
    if isDigit b ∧ significand * 10 + digitValue b < UInt64.size then
      gather (significand * 10 + digitValue b) rest
    else (significand, b :: rest)

/-- The first digits of a numeral: a zero alone, or digits that do not start with zero. -/
def leadingDigits : Bytes → Except Fault (Nat × Bytes)
  | [] => .error (.here .endInValue [])
  | b :: rest =>
    if b = 0x30 then
      if digitAhead rest then .error (.ahead .invalidNumber rest) else .ok (0, rest)
    else if isDigit b then .ok (gather (digitValue b) rest)
    else .error (.here .invalidNumber rest)

/-! ## Binary64 -/

/-- The power of ten, rounded to binary64. -/
def powerOfTen (e : Nat) : Float :=
  Float.ofScientific 1 false e

/-- A binary64 over a power of ten, by divisors that binary64 holds. -/
def overPowerOfTen (blocks : Nat) (f : Float) (e : Nat) : Float :=
  match blocks with
  | 0 => f / powerOfTen e
  | blocks + 1 =>
    if e ≤ 308 then f / powerOfTen e else overPowerOfTen blocks (f / powerOfTen 308) (e - 308)

/-- The bits of `significand · 10^exponent`, unless it is too large for binary64. Three divisions by
10^308 bring every significand of 64 bits to zero. -/
def binary64? (negative : Bool) (significand : Nat) (exponent : Int) : Option UInt64 :=
  let f := significand.toUInt64.toFloat
  let scaled? : Option Float :=
    match exponent with
    | .ofNat e =>
      if significand = 0 then some f
      else if e ≤ 308 then
        let scaled := f * powerOfTen e
        if scaled.isInf then none else some scaled
      else none
    | .negSucc e => some (overPowerOfTen 3 f (min (e + 1) 1232))
  scaled?.map fun scaled => (if negative then -scaled else scaled).toBits

/-- A number that is kept as a binary64. -/
def binary64 (negative : Bool) (significand : Nat) (exponent : Int) (rest : Bytes) : Outcome Number :=
  match binary64? negative significand exponent with
  | some bits => .ok (.binary64 bits, rest)
  | none => .error (.here .numberOutOfRange rest)

/-! ## Exponent and fraction -/

/-- The digits of an exponent up to one that 31 bits do not hold: the exponent, whether they held
it, and the bytes after the last digit read. -/
def exponentDigits (e : Nat) : Bytes → Nat × Bool × Bytes
  | [] => (e, true, [])
  | b :: rest =>
    if isDigit b then
      if e * 10 + digitValue b < 0x80000000 then exponentDigits (e * 10 + digitValue b) rest
      else (e, false, rest)
    else (e, true, b :: rest)

/-- The sign of an exponent: whether it is negative, and the bytes after it. -/
def exponentSign : Bytes → Bool × Bytes
  | [] => (false, [])
  | b :: rest => if b = 0x2B then (false, rest) else if b = 0x2D then (true, rest) else (false, b :: rest)

/-- The rest of a numeral after its exponent mark. An exponent that does not fit makes the number
zero if it is negative or there is nothing to scale. -/
def afterMark (negative : Bool) (significand : Nat) (exponent : Int) (input : Bytes) :
    Outcome Number :=
  let (down, input) := exponentSign input
  match input with
  | [] => .error (.here .endInValue [])
  | b :: rest =>
    if isDigit b then
      match exponentDigits (digitValue b) rest with
      | (e, true, rest) =>
        binary64 negative significand (if down then exponent - e else exponent + e) rest
      | (_, false, rest) =>
        if significand ≠ 0 ∧ !down then .error (.here .numberOutOfRange rest)
        else binary64 negative 0 0 (rest.dropWhile isDigit)
    else .error (.here .invalidNumber rest)

/-- The rest of a numeral that has no more digits before an exponent. -/
def exponent? (negative : Bool) (significand : Nat) (exponent : Int) (input : Bytes) :
    Outcome Number :=
  match input with
  | [] => binary64 negative significand exponent []
  | b :: rest =>
    if b = 0x65 ∨ b = 0x45 then afterMark negative significand exponent rest
    else binary64 negative significand exponent (b :: rest)

/-- The rest of a numeral after its decimal point. -/
def afterPoint (negative : Bool) (significand : Nat) (exponent : Int) (input : Bytes) :
    Outcome Number :=
  let (gathered, rest) := gather significand input
  if digitAhead input then
    exponent? negative gathered (exponent - (input.length - rest.length : Nat))
      (rest.dropWhile isDigit)
  else if input.isEmpty then .error (.here .endInValue [])
  else .error (.ahead .invalidNumber input)

/-- The integer that digits write, with its sign. Zero with a minus sign and integers beyond 64 bits
are kept as binary64. -/
def integer (negative : Bool) (significand : Nat) (rest : Bytes) : Outcome Number :=
  if !negative then .ok (.nat significand.toUInt64, rest)
  else
    match significand with
    | 0 => binary64 true 0 0 rest
    | n + 1 => if h : n < 0x8000000000000000 then .ok (.negSucc ⟨n, h⟩, rest) else binary64 true (n + 1) 0 rest

/-- A number of which the sign, if any, has been read. -/
def number (negative : Bool) (input : Bytes) : Outcome Number :=
  match leadingDigits input with
  | .error fault => .error fault
  | .ok (significand, rest) =>
    let dropped := (rest.takeWhile isDigit).length
    match rest.dropWhile isDigit with
    | 0x2E :: after => afterPoint negative significand dropped after
    | 0x65 :: after => afterMark negative significand dropped after
    | 0x45 :: after => afterMark negative significand dropped after
    | after =>
      if dropped = 0 then integer negative significand after
      else binary64 negative significand dropped after

/-! ## Numbers that nobody keeps -/

/-- The bytes after an exponent mark's digits. -/
def skipAfterMark (input : Bytes) : Except Fault Bytes :=
  match (exponentSign input).2 with
  | [] => .error (.here .invalidNumber [])
  | b :: rest =>
    if isDigit b then .ok (rest.dropWhile isDigit) else .error (.here .invalidNumber rest)

/-- The bytes after an exponent, if there is one. -/
def skipExponent? : Bytes → Except Fault Bytes
  | [] => .ok []
  | b :: rest => if b = 0x65 ∨ b = 0x45 then skipAfterMark rest else .ok (b :: rest)

/-- The bytes after a fraction, if there is one, and an exponent, if there is one. -/
def skipFraction? : Bytes → Except Fault Bytes
  | [] => .ok []
  | b :: rest =>
    if b = 0x2E then
      if digitAhead rest then skipExponent? (rest.dropWhile isDigit)
      else .error (.ahead .invalidNumber rest)
    else skipExponent? (b :: rest)

/-- The bytes after a number that nobody keeps, of which the sign, if any, has been read: only its
grammar is looked at. -/
def skipNumber : Bytes → Except Fault Bytes
  | [] => .error (.here .invalidNumber [])
  | b :: rest =>
    if b = 0x30 then
      if digitAhead rest then .error (.ahead .invalidNumber rest) else skipFraction? rest
    else if isDigit b then skipFraction? (rest.dropWhile isDigit)
    else .error (.here .invalidNumber rest)

end BuildBrowser.Json
