import BuildBrowser.Json.Value

/-!
# Writing values

One writer serves both forms of a document. A `Style` says what stands before an item, before a
closing bracket and after a colon; the compact style puts nothing there, the pretty style a line
feed with two spaces for each open bracket, and one space. Strings are written in the same way in
both, so no line feed of theirs ever shows.
-/

namespace BuildBrowser.Json

/-- The blanks that a written document puts between its tokens. -/
structure Style where
  /-- Before an item, or a closing bracket, inside so many open brackets. -/
  lineStart : Nat → List Char
  /-- Between a colon and a value. -/
  afterColon : List Char

/-- No blanks. -/
def Style.compact : Style := ⟨fun _ => [], []⟩

/-- A line for each item, indented by two spaces for each open bracket. -/
def Style.pretty : Style := ⟨fun depth => '\n' :: List.replicate (2 * depth) ' ', [' ']⟩

/-- A hexadecimal digit in lower case. -/
def hexDigit (n : Nat) : Char :=
  Nat.digitChar n

/-- A character as it stands in a written string. -/
def escapeChar (c : Char) : List Char :=
  match c with
  | '"' => ['\\', '"']
  | '\\' => ['\\', '\\']
  | '\x08' => ['\\', 'b']
  | '\x0C' => ['\\', 'f']
  | '\n' => ['\\', 'n']
  | '\r' => ['\\', 'r']
  | '\t' => ['\\', 't']
  | c =>
    if c.toNat < 0x20 then
      ['\\', 'u', '0', '0', hexDigit (c.toNat / 16), hexDigit (c.toNat % 16)]
    else [c]

/-- A written string. -/
def writeString (s : String) : List Char :=
  '"' :: s.toList.flatMap escapeChar ++ ['"']

mutual

/-- A value, inside so many open brackets. -/
def write (style : Style) (depth : Nat) : Value → List Char
  | .null => ['n', 'u', 'l', 'l']
  | .bool true => ['t', 'r', 'u', 'e']
  | .bool false => ['f', 'a', 'l', 's', 'e']
  | .number n => n.text
  | .string s => writeString s
  | .array [] => ['[', ']']
  | .array (v :: vs) =>
    '[' :: style.lineStart (depth + 1) ++ write style (depth + 1) v ++ writeItems style depth vs
  | .object [] => ['\x7b', '\x7d']
  | .object ((name, v) :: ms) =>
    '\x7b' :: style.lineStart (depth + 1) ++ writeString name ++ ':' :: style.afterColon ++
      write style (depth + 1) v ++ writeMembers style depth ms

/-- The items of a list after the first, and its end. -/
def writeItems (style : Style) (depth : Nat) : List Value → List Char
  | [] => style.lineStart depth ++ [']']
  | v :: vs =>
    ',' :: style.lineStart (depth + 1) ++ write style (depth + 1) v ++ writeItems style depth vs

/-- The members of an object after the first, and its end. -/
def writeMembers (style : Style) (depth : Nat) : List (String × Value) → List Char
  | [] => style.lineStart depth ++ ['\x7d']
  | (name, v) :: ms =>
    ',' :: style.lineStart (depth + 1) ++ writeString name ++ ':' :: style.afterColon ++
      write style (depth + 1) v ++ writeMembers style depth ms

end

/-- The text of a value on one line. -/
def Value.compact (v : Value) : String :=
  String.ofList (write .compact 0 v)

/-- The text of a value with a line for each item. -/
def Value.pretty (v : Value) : String :=
  String.ofList (write .pretty 0 v)

end BuildBrowser.Json
