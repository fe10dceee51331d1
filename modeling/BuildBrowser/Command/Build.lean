import BuildBrowser.Api.Client
import BuildBrowser.Command.Basic
import BuildBrowser.Decimal.Natural

/-!
# Commands on what a build leaves behind

The console log is shown with a line feed at its end; an artifact is written as it is, to the output
or to a file.
-/

namespace BuildBrowser.Command

/-- A console log with a line feed at its end, unless it is empty. -/
def endLine (log : String) : String :=
  if log.toList.isEmpty || log.toList.getLast? = some '\n' then log else log ++ "\n"

/-- The value of a console log. -/
def consoleValue (job : JobId) (build log : String) : Json.Value :=
  .object [("jobid", .string job.text), ("build", .string build), ("console", .string log)]

/-- Shows the console log of a build. -/
def console (p : Presentation) (job : JobId) (build : String) : Command :=
  calling (Api.consoleLog job build) fun log =>
    print (present p.format (consoleValue job build log) (.whole (endLine log)))

/-- The notice of an artifact that was written to a file. -/
def savedNotice (path : String) (content : Bytes) : String :=
  "Saved " ++ Decimal.numeral content.length ++ " bytes to " ++ path ++ "\n"

/-- Writes an artifact to a file, or to the output if no file is named. -/
def artifact (job : JobId) (build : String) (id : ArtifactId) (file : Option String) : Command :=
  calling (Api.artifact job build id) fun content =>
    match file with
    | none => put content
    | some path =>
      .save path content fun
        | .ok () => .write (.notice (savedNotice path content)) (.done .success)
        | .error fault => .done (.failure (.unwritable path fault))

end BuildBrowser.Command
