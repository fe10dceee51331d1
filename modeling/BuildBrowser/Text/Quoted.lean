import BuildBrowser.Text.Unprintable

/-!
# Quoted text — a string as a message shows it

A quoted text stands between double quotes and shows every character that a reader could miss or
misread by an escape: the quote and the backslash, the usual control characters by a letter, and
each other unprintable or combining character by its hexadecimal number in braces.
-/

namespace BuildBrowser.Text

/-- The hexadecimal digits of a number, in lower case. -/
def hexLower (n : Nat) : List Char :=
  Nat.toDigits 16 n

/-- A character as it stands in a quoted text. -/
def quotedChar (c : Char) : List Char :=
  match c with
  | '"' => ['\\', '"']
  | '\\' => ['\\', '\\']
  | '\n' => ['\\', 'n']
  | '\r' => ['\\', 'r']
  | '\t' => ['\\', 't']
  | '\x00' => ['\\', '0']
  | c => if isHidden c then ['\\', 'u', '\x7b'] ++ hexLower c.toNat ++ ['\x7d'] else [c]

/-- A string as a message shows it. -/
def quoted (s : String) : String :=
  String.ofList ('"' :: s.toList.flatMap quotedChar ++ ['"'])

end BuildBrowser.Text
