import BuildBrowser.Json.Document
import BuildBrowser.Render.Paint
import BuildBrowser.Text.Split

/-!
# Output — texts and documents for the reader of a terminal

Everything that is shown has a text form and a JSON form; the JSON form is the pretty text of a
value, and a line feed.
-/

namespace BuildBrowser

/-- The form of output. -/
inductive Format where
  | text
  | json
  deriving DecidableEq, Repr

/-- What was rendered: a text, and whether it came to its end. Rendering stops where a text cannot be
laid out, and the browser stops with it; what stands before that has been written. -/
structure Rendering where
  text : String
  complete : Bool
  deriving DecidableEq, Repr

namespace Rendering

/-- A text that came to its end. -/
def whole (text : String) : Rendering :=
  ⟨text, true⟩

/-- A rendering with a text above it. -/
def under (above : String) (rendering : Rendering) : Rendering :=
  { rendering with text := above ++ rendering.text }

/-- Lines, each ended by a line feed, up to the first that cannot be laid out. -/
def ofLines (lines : List (Option (List Char))) : Rendering :=
  ⟨String.ofList ((lines.takeWhile Option.isSome).flatMap fun line => line.getD [] ++ ['\n']),
    lines.all Option.isSome⟩

end Rendering

/-- Something shown in a form: its value, or its text. -/
def present (format : Format) (value : Json.Value) (text : Rendering) : Rendering :=
  match format with
  | .json => .whole (value.pretty ++ "\n")
  | .text => text

/-- A text cut to a length, with dots where it was cut. -/
def shorten (length : Nat) (s : String) : String :=
  if s.length ≤ length then s else String.ofList (s.toList.take length ++ ['.', '.', '.'])

/-- A text painted as the label of a field. -/
def label (colour : Colour) (text : String) : String :=
  String.ofList (paint colour .label text.toList)

/-- The line of a field: its label, a space and its text. -/
def fieldLine (colour : Colour) (name text : String) : String :=
  label colour (name ++ ":") ++ " " ++ text ++ "\n"

/-- The pretty text of a value, each line indented by two spaces. -/
def indented (value : Json.Value) : String :=
  String.ofList
    ((Text.lines value.pretty.toList).flatMap fun line => [' ', ' '] ++ line ++ ['\n'])

end BuildBrowser
