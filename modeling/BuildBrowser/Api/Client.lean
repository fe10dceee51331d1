import BuildBrowser.Document.Job
import BuildBrowser.Document.Task
import BuildBrowser.Program

/-!
# Calls — typed questions to the server

Each call is one request. Calls that want a document fail if the reply's body does not hold it; the
receipt of a trigger is read if it can be, since any body says that the build was accepted.
-/

namespace BuildBrowser.Api

/-- The outcome of a call: a value, or why it failed. -/
abbrev Call (α : Type) := Program (Except Error α)

/-- The call whose reply's body is read by a function. -/
def call {α : Type} (endpoint : Endpoint) (body : Option Bytes) (read : Bytes → Except Error α) :
    Call α :=
  .send ⟨endpoint, body⟩ fun reply => .done ((reply.toExcept endpoint).bind read)

/-- The document that the body of a reply holds. -/
def readReply (α : Type) [Json.Document α] (endpoint : Endpoint) (body : Bytes) : Except Error α :=
  (Json.read α body).mapError (.decode endpoint)

/-- The call for a document. -/
def callFor (α : Type) [Json.Document α] (endpoint : Endpoint) (body : Option Bytes) : Call α :=
  call endpoint body (readReply α endpoint)

/-- The jobs, in the order of the server. -/
def listJobs : Call (List JobId) :=
  call .listJobs none fun body => (readReply JobListing .listJobs body).map JobListing.jobs

/-- The configuration of a job. -/
def getJob (job : JobId) : Call JobConfig :=
  callFor JobConfig (.getJob job) none

/-- A configuration with the name of its job, as it is sent. -/
def namedConfig (job : JobId) (config : Members Json.Value) : Members Json.Value :=
  Members.insert "job_id" (.string job.text) config

/-- Writes the configuration of a job, which the server answers with what it keeps. -/
def setJob (job : JobId) (config : Members Json.Value) : Call JobConfig :=
  callFor JobConfig (.setJob job) (some (utf8 (Json.Value.object (namedConfig job config)).compact))

/-- The builds of a job, in the order of the server. -/
def listBuilds (job : JobId) : Call BuildListing :=
  callFor BuildListing (.listBuilds job) none

/-- Starts a build of a job. Every body is a success, and a body that is no receipt tells nothing
more. -/
def triggerBuild (job : JobId) : Call (Option TriggerReceipt) :=
  call (.triggerBuild job) none fun body => .ok (Json.read TriggerReceipt body).toOption

/-- The state of a build. -/
def getBuild (job : JobId) (build : String) : Call BuildState :=
  call (.getBuild job build) none fun body =>
    (readReply BuildReport (.getBuild job build) body).map BuildReport.state

/-- The console log of a build, with U+FFFD where it is not UTF-8. -/
def consoleLog (job : JobId) (build : String) : Call String :=
  call (.getConsole job build) none fun body => .ok (String.ofList (Utf8.decodeLossy body))

/-- The content of an artifact. -/
def artifact (job : JobId) (build : String) (artifact : ArtifactId) : Call Bytes :=
  call (.getArtifact job build artifact) none .ok

/-- The open tasks, in the order of the server. -/
def listTasks : Call (List TaskId) :=
  call .listTasks none fun body => (readReply TaskListing .listTasks body).map TaskListing.tasks

/-- A task with its description. -/
def getTask (task : TaskId) : Call WorkerTask :=
  callFor WorkerTask (.getTask task) none

end BuildBrowser.Api
