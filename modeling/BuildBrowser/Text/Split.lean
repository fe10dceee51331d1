/-!
# Splitting a text at a separator

`splitOn sep` cuts at every occurrence of a character, so there is always one piece more than there
are separators, and joining the pieces with the separator gives the text back. `lines` ends a line
at a line feed, which takes a carriage return right before it along.
-/

namespace BuildBrowser.Text

/-- The pieces of a text between the occurrences of a separator. -/
def splitOn (sep : Char) : List Char → List (List Char)
  | [] => [[]]
  | c :: rest =>
    if c = sep then [] :: splitOn sep rest
    else
      match splitOn sep rest with
      | [] => [[c]]
      | piece :: pieces => (c :: piece) :: pieces

/-- A line without a carriage return at its end. -/
def dropReturn (line : List Char) : List Char :=
  match line.reverse with
  | '\r' :: before => before.reverse
  | _ => line

/-- The lines among the pieces between line feeds. Every piece but the last was ended by a line
feed; a last piece that is empty is no line. -/
def linesOf : List (List Char) → List (List Char)
  | [] => []
  | [last] => if last.isEmpty then [] else [last]
  | piece :: pieces => dropReturn piece :: linesOf pieces

/-- The lines of a text. -/
def lines (text : List Char) : List (List Char) :=
  linesOf (splitOn '\n' text)

end BuildBrowser.Text
