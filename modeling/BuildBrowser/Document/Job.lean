import BuildBrowser.Identifier
import BuildBrowser.BuildNumber
import BuildBrowser.Document.BuildState

/-!
# Documents about jobs

The listing of jobs, a job's configuration, the listing of its builds, the report of one build, and
the receipt for a build that has been triggered.
-/

namespace BuildBrowser

/-- The jobs of a server, in its order. -/
structure JobListing where
  jobs : List JobId
  deriving DecidableEq, Repr

/-- The configuration that a server keeps of a job. -/
structure JobConfig where
  job : JobId
  config : Json.Value
  deriving DecidableEq, Repr

/-- The builds of a job, in the order of the server, and the number of the last one, which is there
if the job has been built. -/
structure BuildListing where
  builds : List BuildNumber
  last : Option BuildNumber
  deriving DecidableEq, Repr

/-- The state of a build, with the job and the number that it belongs to if the server names them. -/
structure BuildReport where
  job : Option JobId
  build : Option BuildNumber
  state : BuildState
  deriving DecidableEq, Repr

/-- What a server answers to a trigger: the job, the number of its new build, and a state. -/
structure TriggerReceipt where
  job : JobId
  build : BuildNumber
  state : Json.Value
  deriving DecidableEq, Repr

namespace JobListing

/-- The fields of a listing of jobs. -/
def schema : Json.Schema JobListing where
  name := "JobsBody"
  fields := [.required "jobs" (Json.list (Json.Document.decoder (α := JobId)))]
  build := fun (jobs, ()) => ⟨jobs⟩

instance : Json.Document JobListing where
  decoder := schema.decoder
  toValue l := .object [("jobs", Json.Document.toValue l.jobs)]

end JobListing

namespace JobConfig

/-- The fields of a configuration. -/
def schema : Json.Schema JobConfig where
  name := "JobConfig"
  fields :=
    [.required "job_id" (Json.Document.decoder (α := JobId)),
      .withDefault "config" Json.value .null]
  build := fun (job, config, ()) => ⟨job, config⟩

instance : Json.Document JobConfig where
  decoder := schema.decoder
  toValue c := .object [("job_id", .string c.job.text), ("config", c.config)]

end JobConfig

namespace BuildListing

/-- The fields of a listing of builds. -/
def schema : Json.Schema BuildListing where
  name := "BuildsBody"
  fields :=
    [.required "builds" (Json.list (Json.Document.decoder (α := BuildNumber))),
      .withDefault "last_build_number" (Json.nullable (Json.Document.decoder (α := BuildNumber))) none]
  build := fun (builds, last, ()) => ⟨builds, last⟩

instance : Json.Document BuildListing where
  decoder := schema.decoder
  toValue l :=
    .object
      (("builds", Json.Document.toValue l.builds) :: Json.memberIfSome "last_build_number" l.last)

end BuildListing

namespace BuildReport

/-- The fields of a report. -/
def schema : Json.Schema BuildReport where
  name := "BuildBody"
  fields :=
    [.withDefault "job_id" (Json.nullable (Json.Document.decoder (α := JobId))) none,
      .withDefault "build_number" (Json.nullable (Json.Document.decoder (α := BuildNumber))) none,
      .required "state" BuildState.decoder]
  build := fun (job, build, state, ()) => ⟨job, build, state⟩

instance : Json.Document BuildReport where
  decoder := schema.decoder
  toValue r :=
    .object
      (Json.memberIfSome "job_id" r.job ++ Json.memberIfSome "build_number" r.build ++
        [("state", Json.Document.toValue r.state)])

end BuildReport

namespace TriggerReceipt

/-- The fields of a receipt. -/
def schema : Json.Schema TriggerReceipt where
  name := "TriggeredBuild"
  fields :=
    [.required "job_id" (Json.Document.decoder (α := JobId)),
      .required "build_number" (Json.Document.decoder (α := BuildNumber)),
      .withDefault "state" Json.value .null]
  build := fun (job, build, state, ()) => ⟨job, build, state⟩

instance : Json.Document TriggerReceipt where
  decoder := schema.decoder
  toValue r :=
    .object
      [("job_id", .string r.job.text), ("build_number", Json.Document.toValue r.build),
        ("state", r.state)]

end TriggerReceipt

end BuildBrowser
