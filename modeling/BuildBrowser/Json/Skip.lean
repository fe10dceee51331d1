import BuildBrowser.Json.Numeral

/-!
# Skipping — passing over a value that nobody keeps

A member whose name is not a field of the record being read is passed over. The value is checked for
its grammar alone: numbers may be of any size, strings need not be UTF-8, and since the open brackets
are kept in a list (`skipFrom`) nesting has no limit.
-/

namespace BuildBrowser.Json

/-- An open bracket. -/
inductive Bracket where
  | list
  | object
  deriving DecidableEq, Repr

/-- The byte that closes a bracket. -/
def Bracket.close : Bracket → UInt8
  | .list => 0x5D
  | .object => 0x7D

/-- The fault of an input that ends within a bracket. -/
def Bracket.ended : Bracket → Fault
  | .list => .here .endInList []
  | .object => .here .endInObject []

/-- The fault of a byte that neither continues nor closes a bracket. -/
def Bracket.unclosed : Bracket → Bytes → Fault
  | .list => .ahead .expectedCommaOrBracket
  | .object => .ahead .expectedCommaOrBrace

/-- The bytes after a name and its colon. -/
def skipName (input : Bytes) : Except Fault Bytes :=
  match skipBlanks input with
  | [] => .error (.here .endInObject [])
  | b :: rest =>
    if b = 0x22 then
      match skipString .plain rest with
      | .error fault => .error fault
      | .ok rest =>
        match skipBlanks rest with
        | [] => .error (.here .endInObject [])
        | b :: rest => if b = 0x3A then .ok rest else .error (.ahead .expectedColon (b :: rest))
    else .error (.ahead .keyNotString (b :: rest))

/-- The bytes where the next value within a bracket starts: in an object, after a name. -/
def Bracket.enter (bracket : Bracket) (input : Bytes) : Except Fault Bytes :=
  match bracket with
  | .list => .ok input
  | .object => skipName input

/-- What the start of a value is: a bracket, or a value that has been passed over. -/
def skipStart (input : Bytes) : Except Fault (Option Bracket × Bytes) :=
  match skipBlanks input with
  | [] => .error (.here .endInValue [])
  | b :: rest =>
    let scalar (after : Except Fault Bytes) := after.map fun rest => (none, rest)
    if b = 0x6E then scalar (word nullTail rest)
    else if b = 0x74 then scalar (word trueTail rest)
    else if b = 0x66 then scalar (word falseTail rest)
    else if b = 0x2D then scalar (skipNumber rest)
    else if isDigit b then scalar (skipNumber (b :: rest))
    else if b = 0x22 then scalar (skipString .plain rest)
    else if b = 0x5B then .ok (some .list, rest)
    else if b = 0x7B then .ok (some .object, rest)
    else .error (.ahead .expectedValue (b :: rest))

/-- The place among brackets: where a value starts, right after a bracket, or after a value. -/
inductive Place where
  | value
  | opened
  | after
  deriving DecidableEq, Repr

/-- The bytes after the value at a place within open brackets, the innermost first. Two steps take at
least one byte, so twice the number of bytes, and two more, are steps enough. -/
def skipFrom : (steps : Nat) → Place → List Bracket → Bytes → Except Fault Bytes
  | 0, _, _, input => .error (.here .endInValue input)
  | steps + 1, .value, brackets, input =>
    match skipStart input with
    | .error fault => .error fault
    | .ok (some bracket, rest) => skipFrom steps .opened (bracket :: brackets) rest
    | .ok (none, rest) => skipFrom steps .after brackets rest
  | _ + 1, .opened, [], input => .ok input
  | _ + 1, .after, [], input => .ok input
  | steps + 1, .opened, bracket :: brackets, input =>
    match skipBlanks input with
    | [] => .error bracket.ended
    | b :: rest =>
      if b = bracket.close then skipFrom steps .after brackets rest
      else
        match bracket.enter (b :: rest) with
        | .error fault => .error fault
        | .ok rest => skipFrom steps .value (bracket :: brackets) rest
  | steps + 1, .after, bracket :: brackets, input =>
    match skipBlanks input with
    | [] => .error bracket.ended
    | b :: rest =>
      if b = bracket.close then skipFrom steps .after brackets rest
      else if b = 0x2C then
        match bracket.enter rest with
        | .error fault => .error fault
        | .ok rest => skipFrom steps .value (bracket :: brackets) rest
      else .error (bracket.unclosed (b :: rest))

/-- The bytes after a value that nobody keeps. -/
def skip (input : Bytes) : Except Fault Bytes :=
  skipFrom (2 * input.length + 3) .value [] input

end BuildBrowser.Json
