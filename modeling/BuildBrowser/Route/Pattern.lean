import BuildBrowser.Members
import BuildBrowser.Segment
import BuildBrowser.Text.Blank
import BuildBrowser.Text.Split

/-!
# Path patterns

A path is cut at its first `?` or `#`, loses the slashes at both ends, and is split at the slashes
that are left. A pattern is a path some of whose segments start with a colon and a name: such a
segment captures any segment that is not empty, decoded, and all others match themselves alone, as
they are written.
-/

namespace BuildBrowser

/-- The segments of a path, as they are written. -/
def pathSegments (path : List Char) : List (List Char) :=
  let core := Text.strip (· = '/') (path.takeWhile fun c => c ≠ '?' && c ≠ '#')
  if core.isEmpty then [] else Text.splitOn '/' core

/-- A segment of a pattern. -/
inductive PatternSegment where
  | literal (text : List Char)
  | capture (name : String)
  deriving DecidableEq, Repr

/-- The pattern segment that a text is: a colon alone captures nothing. -/
def PatternSegment.ofText : List Char → PatternSegment
  | ':' :: c :: name => .capture (String.ofList (c :: name))
  | text => .literal text

/-- A pattern, with the text that it was made of. -/
structure Pattern where
  text : String
  segments : List PatternSegment
  deriving DecidableEq, Repr

namespace Pattern

/-- The pattern that a text describes. -/
def ofText (text : String) : Pattern :=
  ⟨text, (pathSegments text.toList).map .ofText⟩

/-- The captures of segments, each added to those before: a name captured twice keeps the later
value. Nothing, if some segment does not match. -/
def captures (captured : Members String) :
    List PatternSegment → List (List Char) → Option (Members String)
  | [], [] => some captured
  | .literal text :: pattern, segment :: path =>
    if text = segment then captures captured pattern path else none
  | .capture name :: pattern, segment :: path =>
    if segment.isEmpty then none
    else
      captures (Members.insert name (String.ofList (Segment.decodeChars segment)) captured) pattern path
  | _, _ => none

/-- The captures of a path, or nothing if the pattern does not match it. -/
def match? (pattern : Pattern) (path : String) : Option (Members String) :=
  captures [] pattern.segments (pathSegments path.toList)

end Pattern

end BuildBrowser
