import BuildBrowser.Identifier
import BuildBrowser.Segment

/-!
# Endpoints — the calls of the server's interface

An endpoint holds its identifiers as they are; its path encodes each as one segment. The method and
the path together are the request line, by which a server tells calls apart.
-/

namespace BuildBrowser

/-- The methods that calls use. -/
inductive Method where
  | get
  | post
  | put
  deriving DecidableEq, Repr

/-- The name of a method. -/
def Method.text : Method → String
  | .get => "GET"
  | .post => "POST"
  | .put => "PUT"

/-- One call that a server answers. Writing a job's configuration is the call that carries a body. -/
inductive Endpoint where
  | listJobs
  | getJob (job : JobId)
  | setJob (job : JobId)
  | listBuilds (job : JobId)
  | triggerBuild (job : JobId)
  | getBuild (job : JobId) (build : String)
  | getConsole (job : JobId) (build : String)
  | getArtifact (job : JobId) (build : String) (artifact : ArtifactId)
  | listTasks
  | getTask (task : TaskId)
  deriving DecidableEq, Repr

namespace Endpoint

/-- The method of a call. -/
def method : Endpoint → Method
  | .triggerBuild _ => .post
  | .setJob _ => .put
  | _ => .get

/-- The segments of a call's path, not encoded. -/
def segments : Endpoint → List String
  | .listJobs => ["distci", "jobs"]
  | .getJob job | .setJob job => ["distci", "jobs", job.text]
  | .listBuilds job | .triggerBuild job => ["distci", "jobs", job.text, "builds"]
  | .getBuild job build => ["distci", "jobs", job.text, "builds", build]
  | .getConsole job build => ["distci", "jobs", job.text, "builds", build, "console"]
  | .getArtifact job build artifact =>
    ["distci", "jobs", job.text, "builds", build, "artifacts", artifact.text]
  | .listTasks => ["distci", "tasks"]
  | .getTask task => ["distci", "tasks", task.text]

end Endpoint

/-- The absolute path of segments: each encoded, after a slash. -/
def absolutePath (segments : List String) : String :=
  String.ofList (segments.flatMap fun s => '/' :: Segment.encodeChars s.toList)

/-- The path of a call. -/
def Endpoint.path (endpoint : Endpoint) : String :=
  absolutePath endpoint.segments

/-- The method and the path of a call. -/
def Endpoint.requestLine (endpoint : Endpoint) : String :=
  endpoint.method.text ++ " " ++ endpoint.path

end BuildBrowser
