import BuildBrowser.Program
import BuildBrowser.Render.Output

/-!
# Commands

A command asks the world what it needs, and writes what it has to show. It ends with success, or with
the error that it failed by, or the whole browser stops in the middle of what it writes.
-/

namespace BuildBrowser

/-- How a command is run: coloured or not, and the form of its output. -/
structure Presentation where
  colour : Colour
  format : Format
  deriving DecidableEq, Repr

/-- Why a command failed: a call, a file, or the content of a file. -/
inductive CommandError where
  | call (error : Api.Error)
  | unreadable (path : String) (fault : FileFault)
  | notText (path : String)
  | notJson (path : String) (error : Json.Error)
  | notObject (path : String)
  | unwritable (path : String) (fault : FileFault)
  deriving DecidableEq, Repr

namespace CommandError

/-- The words for a failed command. -/
def message : CommandError → String
  | .call error => error.message
  | .unreadable path fault => "failed to read " ++ path ++ ": " ++ fault.message
  | .notText path => "failed to read " ++ path ++ ": stream did not contain valid UTF-8"
  | .notJson path error => path ++ " is not valid JSON: " ++ error.message
  | .notObject path => path ++ " must contain a JSON object"
  | .unwritable path fault => "failed to write " ++ path ++ ": " ++ fault.message

end CommandError

/-- The exit code of a failed call: the server does not know what was asked for, no server could be
reached, or anything else. -/
def Api.Error.exitCode : Api.Error → Nat
  | .status _ code => if code = 404 then 2 else 1
  | .transport _ _ | .noFrontend => 3
  | .decode _ _ => 1

/-- The exit code of a failed command. -/
def CommandError.exitCode : CommandError → Nat
  | .call error => error.exitCode
  | _ => 1

/-- How a command ends. -/
inductive Ending where
  | success
  | failure (error : CommandError)
  | abort
  deriving DecidableEq, Repr

/-- The exit code of a program that was aborted, as a shell reports it. -/
def abortCode : Nat := 134

/-- The exit code after a command. -/
def Ending.exitCode : Ending → Nat
  | .success => 0
  | .failure error => error.exitCode
  | .abort => abortCode

/-- A command, from its start to its end. -/
abbrev Command := Program Ending

namespace Command

/-- Writes to the output. -/
def put (content : Bytes) : Command :=
  .write (.output content) (.done .success)

/-- How printing ends: rendering that stops takes the browser with it. -/
def ending (rendering : Rendering) : Ending :=
  if rendering.complete then .success else .abort

/-- Writes what was rendered. -/
def print (rendering : Rendering) : Command :=
  .write (.output (utf8 rendering.text)) (.done (ending rendering))

/-- Makes a call, and goes on with what it gives. -/
def calling {α : Type} (call : Program (Except Api.Error α)) (next : α → Command) : Command := do
  match ← call with
  | .ok a => next a
  | .error error => return .failure (.call error)

end Command

end BuildBrowser
