import BuildBrowser.Endpoint
import BuildBrowser.Route.Pattern

/-!
# Routes and route tables

A route is a view with the identifiers that the view needs, and has one canonical path. A route
table lists patterns with views. A path resolves to the route of the first entry whose pattern
matches and captures the names that its view needs; an entry that matches but lacks a name is passed
over. A path that no entry yields a route for is redirected, once.
-/

namespace BuildBrowser

/-- The views. -/
inductive View where
  | jobList
  | jobBuilds
  | buildState
  deriving DecidableEq, Repr

/-- The name of a view in documents. -/
def View.name : View → String
  | .jobList => "job_list"
  | .jobBuilds => "job_builds"
  | .buildState => "build_state"

/-- The title of a view. -/
def View.title : View → String
  | .jobList => "job list"
  | .jobBuilds => "job builds"
  | .buildState => "build state"

/-- A view with the identifiers that it needs. -/
inductive Route where
  | jobs
  | jobBuilds (job : JobId)
  | buildState (job : JobId) (build : String)
  deriving DecidableEq, Repr

namespace Route

/-- The view of a route. -/
def view : Route → View
  | .jobs => .jobList
  | .jobBuilds _ => .jobBuilds
  | .buildState _ _ => .buildState

/-- The segments of a route's path, not encoded. -/
def segments : Route → List String
  | .jobs => ["jobs"]
  | .jobBuilds job => ["jobs", job.text]
  | .buildState job build => ["jobs", job.text, "builds", build]

/-- The canonical path of a route. -/
def path (route : Route) : String :=
  absolutePath route.segments

/-- The identifiers of a route. -/
def identifiers : Route → List String
  | .jobs => []
  | .jobBuilds job => [job.text]
  | .buildState job build => [job.text, build]

/-- The route of a view with captured names, if those that it needs are there. -/
def ofView? (view : View) (captured : Members String) : Option Route :=
  match view with
  | .jobList => some .jobs
  | .jobBuilds => (Members.find? "jobid" captured).map fun job => .jobBuilds ⟨job⟩
  | .buildState =>
    match Members.find? "jobid" captured, Members.find? "build" captured with
    | some job, some build => some (.buildState ⟨job⟩ build)
    | _, _ => none

/-- The value of a route: its kind, and its identifiers. -/
def toValue : Route → Json.Value
  | .jobs => .object [("view", .string "jobs")]
  | .jobBuilds job => .object [("view", .string "job_builds"), ("jobid", .string job.text)]
  | .buildState job build =>
    .object
      [("view", .string "build_state"), ("jobid", .string job.text), ("build", .string build)]

end Route

/-- A row of a route table. -/
structure RouteEntry where
  pattern : Pattern
  view : View
  deriving DecidableEq, Repr

/-- The route that an entry yields for a path. -/
def RouteEntry.route? (entry : RouteEntry) (path : String) : Option Route :=
  (entry.pattern.match? path).bind (Route.ofView? entry.view)

/-- Patterns with their views, in order, and the path that all other paths are sent to. -/
structure RouteTable where
  entries : List RouteEntry
  otherwise : String
  deriving DecidableEq, Repr

/-- What a table says of a path. -/
inductive Resolution where
  | matched (route : Route)
  | redirect (target : String)
  deriving DecidableEq, Repr

namespace RouteTable

/-- The table without entries. -/
def empty (otherwise : String) : RouteTable :=
  ⟨[], otherwise⟩

/-- The table with one more entry, after all others. -/
def when (table : RouteTable) (pattern : String) (view : View) : RouteTable :=
  { table with entries := table.entries ++ [⟨.ofText pattern, view⟩] }

/-- The browser's own table. -/
def standard : RouteTable :=
  (((empty "/jobs").when "/jobs" .jobList).when "/jobs/:jobid" .jobBuilds).when
    "/jobs/:jobid/builds/:build" .buildState

/-- The route that the table's entries yield for a path. -/
def route? (table : RouteTable) (path : String) : Option Route :=
  table.entries.findSome? fun entry => entry.route? path

/-- What the table says of a path. -/
def resolve (table : RouteTable) (path : String) : Resolution :=
  match table.route? path with
  | some route => .matched route
  | none => .redirect table.otherwise

/-- The route of a path: its own, or that of the path that it is sent to, or the job list. -/
def navigate (table : RouteTable) (path : String) : Route :=
  match table.resolve path with
  | .matched route => route
  | .redirect target =>
    match table.resolve target with
    | .matched route => route
    | .redirect _ => .jobs

end RouteTable

end BuildBrowser
