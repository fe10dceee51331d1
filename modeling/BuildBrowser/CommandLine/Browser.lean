import BuildBrowser.Command.Build
import BuildBrowser.Command.Job
import BuildBrowser.Command.Route
import BuildBrowser.Command.Task
import BuildBrowser.Command.View
import BuildBrowser.CommandLine.Parse

/-!
# The browser's command line

The verbs of the browser, what each says, and the command that it runs.
-/

namespace BuildBrowser.CommandLine

/-- The option that names frontends. -/
def urlFlag : Flag :=
  ⟨none, "url", "URL", "Frontend base URL, or a comma-separated list (overrides DISTCI_URL)", .any, none⟩

/-- The option that chooses the form of output. -/
def outputFlag : Flag :=
  ⟨some 'o', "output", "OUTPUT", "Output format", .oneOf ["text", "json"], some "text"⟩

/-- The option that names the file of an artifact. -/
def fileFlag : Flag :=
  ⟨some 'O', "output-file", "FILE", "Write to this file instead of stdout", .file, none⟩

/-- The argument that names a job. -/
def jobArgument : Argument := ⟨"JOB", "Job identifier", .any⟩

/-- The argument that names a build. -/
def buildArgument : Argument := ⟨"BUILD", "Build number", .any⟩

/-- The argument that is a path. -/
def pathArgument : Argument := ⟨"PATH", "Browser-style path", .any⟩

/-- A verb with arguments and nothing after them. -/
def simpleVerb (name about : String) (arguments : List Argument) : Verb :=
  ⟨name, about, [], arguments, [], false⟩

/-- The verbs about job configurations. -/
def jobVerbs : List Verb :=
  [simpleVerb "show" "Show a job's configuration" [jobArgument],
    simpleVerb "set" "Create or replace a job's configuration from a JSON file"
      [⟨"JOB", "Job identifier (overrides any job_id in the file)", .any⟩,
        ⟨"CONFIG_FILE", "JSON object with the job configuration", .file⟩]]

/-- The verbs about tasks. -/
def taskVerbs : List Verb :=
  [simpleVerb "list" "List task identifiers" [],
    simpleVerb "get" "Show one task's description" [⟨"TASK", "Task identifier", .any⟩]]

/-- The verbs of the browser. -/
def verbs : List Verb :=
  [simpleVerb "open" "Open a path such as /jobs/nightly and render the view it routes to"
      [pathArgument],
    simpleVerb "route" "Show which view a path routes to (no network access)" [pathArgument],
    simpleVerb "jobs" "List jobs" [],
    simpleVerb "builds" "List builds of a job, newest first" [jobArgument],
    simpleVerb "trigger" "Trigger a new build, then list the job's builds" [jobArgument],
    simpleVerb "build" "Show a build's state and artifacts" [jobArgument, buildArgument],
    ⟨"job", "Show or replace a job's configuration", [], [], jobVerbs, true⟩,
    ⟨"task", "Inspect worker tasks", [], [], taskVerbs, true⟩,
    simpleVerb "console" "Print a build's console log" [jobArgument, buildArgument],
    ⟨"artifact", "Download a build artifact", [fileFlag],
      [jobArgument, buildArgument, ⟨"ARTIFACT", "Artifact identifier", .any⟩], [], false⟩]

/-- The browser's command line. -/
def browser : Program where
  version := "0.2.0"
  shared := [urlFlag, outputFlag]
  root :=
    ⟨"distci", "Browse jobs, builds and artifacts on a DistCI server", [], [], verbs, false⟩

/-- The help of the browser. -/
def browserHelp : String :=
  (⟨browser, [], browser.root⟩ : Place).help

/-- A command that a command line names. -/
inductive Invocation where
  | open (path : String)
  | route (path : String)
  | show (target : Route)
  | trigger (job : JobId)
  | showJob (job : JobId)
  | setJob (job : JobId) (file : String)
  | listTasks
  | getTask (task : TaskId)
  | console (job : JobId) (build : String)
  | artifact (job : JobId) (build : String) (id : ArtifactId) (file : Option String)
  deriving DecidableEq, Repr

/-- The command that verbs with options and arguments name, if they name one. -/
def Matches.invocation? (m : Matches) : Option Invocation :=
  match m.verbs.drop 1, m.arguments with
  | ["open"], [path] => some (.open path)
  | ["route"], [path] => some (.route path)
  | ["jobs"], [] => some (.show .jobs)
  | ["builds"], [job] => some (.show (.jobBuilds ⟨job⟩))
  | ["trigger"], [job] => some (.trigger ⟨job⟩)
  | ["build"], [job, build] => some (.show (.buildState ⟨job⟩ build))
  | ["job", "show"], [job] => some (.showJob ⟨job⟩)
  | ["job", "set"], [job, file] => some (.setJob ⟨job⟩ file)
  | ["task", "list"], [] => some .listTasks
  | ["task", "get"], [task] => some (.getTask ⟨task⟩)
  | ["console"], [job, build] => some (.console ⟨job⟩ build)
  | ["artifact"], [job, build, id] =>
    some (.artifact ⟨job⟩ build ⟨id⟩ (m.options.lookup "output-file"))
  | _, _ => none

/-- The form of output that options choose. -/
def Matches.format (m : Matches) : Format :=
  if m.options.lookup "output" = some "json" then .json else .text

/-- The command of an invocation. -/
def Invocation.command (p : Presentation) : Invocation → Command
  | .open path => .openPath .standard p path
  | .route path => .route .standard p path
  | .show target => .showRoute p target
  | .trigger job => .trigger p job
  | .showJob job => .showJob p job
  | .setJob job file => .setJob p job file
  | .listTasks => .listTasks p
  | .getTask task => .getTask p task
  | .console job build => .console p job build
  | .artifact job build id file => .artifact job build id file

end BuildBrowser.CommandLine
