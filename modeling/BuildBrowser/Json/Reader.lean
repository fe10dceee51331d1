import BuildBrowser.Json.Skip
import BuildBrowser.Json.Value

/-!
# Reading values

A `Decoder` reads one value at an allowance of open brackets, and returns it with the bytes after
it. Lists and objects are read by two loops, `items` and `members`, that leave the reading of what
stands in them to an argument; `value` ties them to a reader of any value, and the decoders of typed
documents use the same loops. A document may have 127 brackets open at once.

A repeated name in an object keeps its first place and its last value.
-/

namespace BuildBrowser.Json

/-- A reader of one value, given how many more brackets may be open. -/
abbrev Decoder (α : Type) := (allowance : Nat) → Bytes → Outcome α

/-- How many brackets of a document may be open at once. -/
def maxDepth : Nat := 127

/-! ## Lists and objects -/

/-- What stands at a place in a list or an object: its end, with the bytes after the bracket, or the
start of an item. -/
inductive Next where
  | close (rest : Bytes)
  | item (start : Bytes)
  deriving DecidableEq, Repr

/-- What stands next in a list, before or after its first item. -/
def nextItem (first : Bool) (input : Bytes) : Except Fault Next :=
  match skipBlanks input with
  | [] => .error (.here .endInList [])
  | b :: rest =>
    if b = 0x5D then .ok (.close rest)
    else if first then .ok (.item (b :: rest))
    else if b = 0x2C then
      match skipBlanks rest with
      | [] => .error (.here .endInValue [])
      | c :: rest =>
        if c = 0x5D then .error (.ahead .trailingComma (c :: rest)) else .ok (.item (c :: rest))
    else .error (.ahead .expectedCommaOrBracket (b :: rest))

/-- What stands next in an object, before or after its first member. An item starts after the quote
of its name. -/
def nextMember (first : Bool) (input : Bytes) : Except Fault Next :=
  match skipBlanks input with
  | [] => .error (.here .endInObject [])
  | b :: rest =>
    if b = 0x7D then .ok (.close rest)
    else if first then
      if b = 0x22 then .ok (.item rest) else .error (.ahead .keyNotString (b :: rest))
    else if b = 0x2C then
      match skipBlanks rest with
      | [] => .error (.here .endInValue [])
      | c :: rest =>
        if c = 0x22 then .ok (.item rest)
        else if c = 0x7D then .error (.ahead .trailingComma (c :: rest))
        else .error (.ahead .keyNotString (c :: rest))
    else .error (.ahead .expectedCommaOrBrace (b :: rest))

/-- The bytes after the colon between a name and its value. -/
def colon (input : Bytes) : Except Fault Bytes :=
  match skipBlanks input with
  | [] => .error (.here .endInObject [])
  | b :: rest => if b = 0x3A then .ok rest else .error (.ahead .expectedColon (b :: rest))

variable {α σ : Type}

/-- The items of a list up to its end. Each takes at least a byte, so the number of bytes is steps
enough. -/
def itemsFrom (item : Bytes → Outcome α) : (steps : Nat) → (first : Bool) → Bytes → Outcome (List α)
  | 0, _, input => .error (.here .endInList input)
  | steps + 1, first, input =>
    match nextItem first input with
    | .error fault => .error fault
    | .ok (.close rest) => .ok ([], rest)
    | .ok (.item start) =>
      match item start with
      | .error fault => .error fault
      | .ok (a, rest) =>
        match itemsFrom item steps false rest with
        | .error fault => .error fault
        | .ok (as, rest) => .ok (a :: as, rest)

/-- The items of a list whose bracket has been read. -/
def items (item : Bytes → Outcome α) (input : Bytes) : Outcome (List α) :=
  itemsFrom item (input.length + 1) true input

/-- What the members of an object up to its end make of a state. `member` is given the state, the
name of a member and the bytes after the name. -/
def membersFrom (member : σ → String → Bytes → Outcome σ) :
    (steps : Nat) → (first : Bool) → σ → Bytes → Outcome σ
  | 0, _, _, input => .error (.here .endInObject input)
  | steps + 1, first, s, input =>
    match nextMember first input with
    | .error fault => .error fault
    | .ok (.close rest) => .ok (s, rest)
    | .ok (.item start) =>
      match string start with
      | .error fault => .error fault
      | .ok (name, rest) =>
        match member s name rest with
        | .error fault => .error fault
        | .ok (s, rest) => membersFrom member steps false s rest

/-- What the members of an object whose bracket has been read make of a state. -/
def members (member : σ → String → Bytes → Outcome σ) (s : σ) (input : Bytes) : Outcome σ :=
  membersFrom member (input.length + 1) true s input

/-- A member that is kept: its value is read and written to the members so far. -/
def keepMember (value : Bytes → Outcome α) (kept : Members α) (name : String) (input : Bytes) :
    Outcome (Members α) :=
  match colon input with
  | .error fault => .error fault
  | .ok rest =>
    match value rest with
    | .error fault => .error fault
    | .ok (a, rest) => .ok (Members.insert name a kept, rest)

/-! ## Any value -/

/-- A value whose list or object, if it is one, is read by an argument after its bracket. -/
def valueWith (list object : Bytes → Outcome Value) (input : Bytes) : Outcome Value :=
  match skipBlanks input with
  | [] => .error (.here .endInValue [])
  | b :: rest =>
    if b = 0x6E then (word nullTail rest).map fun rest => (.null, rest)
    else if b = 0x74 then (word trueTail rest).map fun rest => (.bool true, rest)
    else if b = 0x66 then (word falseTail rest).map fun rest => (.bool false, rest)
    else if b = 0x2D then (number true rest).map fun (n, rest) => (.number n, rest)
    else if isDigit b then (number false (b :: rest)).map fun (n, rest) => (.number n, rest)
    else if b = 0x22 then (string rest).map fun (s, rest) => (.string s, rest)
    else if b = 0x5B then list rest
    else if b = 0x7B then object rest
    else .error (.ahead .expectedValue (b :: rest))

/-- Any value. -/
def value : Decoder Value
  | 0 => valueWith (fun rest => .error (.here .tooDeep rest)) fun rest => .error (.here .tooDeep rest)
  | allowance + 1 =>
    valueWith
      (fun rest => (items (value allowance) rest).map fun (vs, rest) => (.array vs, rest))
      fun rest =>
        (members (keepMember (value allowance)) [] rest).map fun (ms, rest) => (.object ms, rest)

/-! ## Wanted kinds -/

/-- The fault of a value that is not of the wanted kind. A scalar is read first, and its own faults
come before; a list or an object is reported at its bracket. -/
def mismatch (wanted : Wanted) : Bytes → Fault
  | [] => .here .endInValue []
  | b :: rest =>
    let scalar (after : Except Fault Bytes) (found : Found) : Fault :=
      match after with
      | .error fault => fault
      | .ok rest => .here (.wrongType found wanted) rest
    let numeric (outcome : Outcome Number) : Fault :=
      match outcome with
      | .error fault => fault
      | .ok (.nat n, rest) => .here (.wrongType (.integer n.toNat) wanted) rest
      | .ok (.negSucc n, rest) => .here (.wrongType (.integer (.negSucc n)) wanted) rest
      | .ok (.binary64 bits, rest) => .here (.wrongType (.binary64 bits) wanted) rest
    if b = 0x6E then scalar (word nullTail rest) .null
    else if b = 0x74 then scalar (word trueTail rest) (.bool true)
    else if b = 0x66 then scalar (word falseTail rest) (.bool false)
    else if b = 0x2D then numeric (number true rest)
    else if isDigit b then numeric (number false (b :: rest))
    else if b = 0x22 then
      match string rest with
      | .error fault => fault
      | .ok (s, rest) => .here (.wrongType (.string s) wanted) rest
    else if b = 0x5B then .here (.wrongType .sequence wanted) (b :: rest)
    else if b = 0x7B then .here (.wrongType .map wanted) (b :: rest)
    else .ahead .expectedValue (b :: rest)

/-- A string. -/
def text : Decoder String := fun _ input =>
  match skipBlanks input with
  | 0x22 :: rest => string rest
  | start => .error (mismatch .string start)

/-- A number that is an integer of 64 bits without sign. -/
def asUnsigned : Outcome Number → Outcome UInt64
  | .error fault => .error fault
  | .ok (.nat n, rest) => .ok (n, rest)
  | .ok (.negSucc n, rest) => .error (.here (.wrongValue (.negSucc n) .unsigned) rest)
  | .ok (.binary64 bits, rest) => .error (.here (.wrongType (.binary64 bits) .unsigned) rest)

/-- An integer of 64 bits without sign. -/
def unsigned : Decoder UInt64 := fun _ input =>
  match skipBlanks input with
  | 0x2D :: rest => asUnsigned (number true rest)
  | b :: rest =>
    if isDigit b then asUnsigned (number false (b :: rest)) else .error (mismatch .unsigned (b :: rest))
  | [] => .error (mismatch .unsigned [])

/-- A list of items of one kind. -/
def list (item : Decoder α) : Decoder (List α) := fun allowance input =>
  match skipBlanks input with
  | 0x5B :: rest =>
    match allowance with
    | 0 => .error (.here .tooDeep rest)
    | allowance + 1 => items (item allowance) rest
  | start => .error (mismatch .sequence start)

/-- An object whose members are folded into a state; `wanted` is what a fault names. -/
def fold (wanted : Wanted) (member : (allowance : Nat) → σ → String → Bytes → Outcome σ) (s : σ) :
    Decoder σ := fun allowance input =>
  match skipBlanks input with
  | 0x7B :: rest =>
    match allowance with
    | 0 => .error (.here .tooDeep rest)
    | allowance + 1 => members (member allowance) s rest
  | start => .error (mismatch wanted start)

/-- An object with members of one kind. -/
def object (item : Decoder α) : Decoder (Members α) :=
  fold .map (fun allowance => keepMember (item allowance)) []

/-- A value or `null`. -/
def nullable (item : Decoder α) : Decoder (Option α) := fun allowance input =>
  match skipBlanks input with
  | 0x6E :: rest => (word nullTail rest).map fun rest => (none, rest)
  | start => (item allowance start).map fun (a, rest) => (some a, rest)

/-! ## Whole documents -/

/-- A value with nothing but blanks after it. -/
def whole (decoder : Decoder α) (input : Bytes) : Except Fault α :=
  match decoder maxDepth input with
  | .error fault => .error fault
  | .ok (a, rest) =>
    match skipBlanks rest with
    | [] => .ok a
    | rest => .error (.ahead .trailingCharacters rest)

/-- The value that a document holds. -/
def decode (decoder : Decoder α) (input : Bytes) : Except Error α :=
  (whole decoder input).mapError (Fault.locate input)

end BuildBrowser.Json
