import BuildBrowser.Api.Client
import BuildBrowser.Command.Basic

/-!
# Commands on job configurations

One shows the configuration that the server keeps; the other reads a configuration from a file and
sends it, under the name of its job. A file that does not hold an object is refused before anything
is sent.
-/

namespace BuildBrowser

/-- The text of a configuration. -/
def JobConfig.text (colour : Colour) (c : JobConfig) : String :=
  fieldLine colour "Job" c.job.text ++ String.ofList (paint colour .header "Config:".toList) ++ "\n" ++
    indented c.config

namespace Command

/-- Shows the configuration of a job. -/
def showJob (p : Presentation) (job : JobId) : Command :=
  calling (Api.getJob job) fun c =>
    print (present p.format (Json.Document.toValue c) (.whole (c.text p.colour)))

/-- The object that the content of a file holds. -/
def configOfFile (path : String) (content : Except FileFault Bytes) :
    Except CommandError (Members Json.Value) :=
  match content with
  | .error fault => .error (.unreadable path fault)
  | .ok bytes =>
    if (Utf8.decode? bytes).isNone then .error (.notText path)
    else
      match Json.read Json.Value bytes with
      | .error error => .error (.notJson path error)
      | .ok (.object members) => .ok members
      | .ok _ => .error (.notObject path)

/-- Shows that a configuration has been stored. -/
def showStored (p : Presentation) (stored : JobConfig) : Command :=
  print
    (present p.format (Json.Document.toValue stored)
      (.whole ("Job '" ++ stored.job.text ++ "' configuration saved\n")))

/-- Sends the configuration in a file. -/
def setJob (p : Presentation) (job : JobId) (path : String) : Command :=
  .load path fun content =>
    match configOfFile path content with
    | .error error => .done (.failure error)
    | .ok config => calling (Api.setJob job config) (showStored p)

end Command

end BuildBrowser
