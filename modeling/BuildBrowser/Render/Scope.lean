import BuildBrowser.Render.Output
import BuildBrowser.Render.Table
import BuildBrowser.View.Scope

/-!
# Scopes on a terminal

The text of a scope lists what its view shows, with the path that opens each job and build. Data that
was never received and data that is empty read the same.
-/

namespace BuildBrowser

/-- The longest text of a field that is a list or an object. -/
def maxFieldLength : Nat := 60

/-- The longest name of an artifact in a listing. -/
def maxIdLength : Nat := 40

/-- The text of a state field. -/
def fieldText : Json.Value → String
  | .string s => s
  | .null => "-"
  | .bool b => (Json.Value.bool b).compact
  | .number n => (Json.Value.number n).compact
  | .array items => shorten maxFieldLength (Json.Value.array items).compact
  | .object members => shorten maxFieldLength (Json.Value.object members).compact

/-- The text of the job list. -/
def JobListScope.text (colour : Colour) (scope : JobListScope) : Rendering :=
  match scope.jobs.getD [] with
  | [] => .whole "No jobs\n"
  | jobs =>
    let row (job : JobId) := [job.text.toList, (Route.jobBuilds job).path.toList]
    Table.render colour ⟨[.left "JOB", .secondary "VIEW"], jobs.map row⟩

/-- The text of a job's builds. -/
def JobBuildsScope.text (colour : Colour) (scope : JobBuildsScope) : Rendering :=
  .under (fieldLine colour "Job" scope.job.text)
    (match scope.builds.getD [] with
    | [] => .whole "No builds\n"
    | builds =>
      let row (build : BuildNumber) :=
        [build.text.toList, (Route.buildState scope.job build.text).path.toList]
      .under "\n" (Table.render colour ⟨[.right "BUILD", .secondary "VIEW"], builds.map row⟩))

/-- The text of listed artifacts. -/
def artifactsText (colour : Colour) : List ArtifactRecord → Rendering
  | [] => .whole "No artifacts\n"
  | records =>
    let row (r : ArtifactRecord) :=
      [r.id.text.toList, (r.fileName.getD "-").toList, r.fullName.toList]
    Table.render colour
      ⟨[(Column.left "ID").withCap maxIdLength, .left "FILE", .secondary "PATH"], records.map row⟩

/-- The text of a build's state and artifacts. -/
def BuildStateScope.text (colour : Colour) (scope : BuildStateScope) : Rendering :=
  .under (fieldLine colour "Job" scope.job.text ++ fieldLine colour "Build" scope.build)
    (match scope.state with
    | none => .whole "No build state\n"
    | some state =>
      let fields := state.fields.map fun (name, value) => fieldLine colour name (fieldText value)
      .under (String.join fields ++ "\n") (artifactsText colour (scope.artifacts.getD [])))

namespace Scope

/-- The text of a scope. -/
def text (colour : Colour) : Scope → Rendering
  | .jobList s => s.text colour
  | .jobBuilds s => s.text colour
  | .buildState s => s.text colour

/-- A scope in a form of output. -/
def render (colour : Colour) (format : Format) (scope : Scope) : Rendering :=
  present format scope.toValue (scope.text colour)

end Scope

end BuildBrowser
