import BuildBrowser.CommandLine.Browser
import BuildBrowser.Proofs.Command.SetJob
import BuildBrowser.Proofs.Render.Fits

/-!
# How commands fail that open no view

The commands on configurations, tasks, logs and artifacts each make one request at most, and report it
if it fails, or if a file does (`Contract`). What they owe is said of the events of a run alone: a
reader of the events knows whether the command failed and by which code the browser ends, whatever the
command was. Nothing is written before all that can fail has been done, so a command that fails has
written nothing.

A contract is proved once for the call that a command makes (`Contract.of_calling`), where a call that is
refused ends it, and then for what can follow a reply that is accepted: it is shown, or saved to a file.
A file that is read before the request changes nothing if it holds a configuration.
-/

namespace BuildBrowser

/-- A command that opens no view. -/
inductive Supplement where
  | showJob (job : JobId)
  | setJob (job : JobId) (file : String)
  | listTasks
  | getTask (task : TaskId)
  | console (job : JobId) (build : String)
  | artifact (job : JobId) (build : String) (id : ArtifactId) (file : Option String)

/-- What the command line calls it. -/
def Supplement.invocation : Supplement → CommandLine.Invocation
  | .showJob job => .showJob job
  | .setJob job file => .setJob job file
  | .listTasks => .listTasks
  | .getTask task => .getTask task
  | .console job build => .console job build
  | .artifact job build id file => .artifact job build id file

/-- The call that the command makes. -/
def Supplement.endpoint : Supplement → Endpoint
  | .showJob job => .getJob job
  | .setJob job _ => .setJob job
  | .listTasks => .listTasks
  | .getTask task => .getTask task
  | .console job build => .getConsole job build
  | .artifact job build id _ => .getArtifact job build id

/-- The bodies that a command can use: the text of the document that it asks for, or any bytes. -/
def Supplement.Accepts : Supplement → Bytes → Prop
  | .showJob _, body | .setJob _ _, body => ∃ config, Json.read JobConfig body = .ok config
  | .listTasks, body => ∃ tasks, Json.read TaskListing body = .ok tasks
  | .getTask _, body => ∃ task, Json.read WorkerTask body = .ok task
  | .console _ _, _ | .artifact _ _ _ _, _ => True

/-! ## Failures, as events show them -/

section

variable (accepts : Bytes → Prop) (events : List Event)

/-- A request failed: there was no answer, none of success, or one with a body of no use. -/
def RequestFailed : Prop :=
  ∃ request reply, Event.sent request reply ∈ events ∧
    match reply with
    | .failure _ | .status _ => True
    | .body content => ¬accepts content

/-- A file held no configuration. -/
def ConfigMissing : Prop :=
  ∃ path content, Event.loaded path content ∈ events ∧ Unusable content

/-- A file failed: no configuration was found in one, or one could not be written. -/
def FileFailed : Prop :=
  ConfigMissing events ∨ ∃ path content fault, Event.saved path content (.error fault) ∈ events

/-- What is owed to whoever runs a command that makes a call. -/
structure Contract (endpoint : Endpoint) (ending : Ending) : Prop where
  /-- At most one request is made. -/
  once : (requests events).length ≤ 1
  /-- The request is that of the call, and it is made unless no configuration was found to send. -/
  asks : ConfigMissing events ∧ requests events = [] ∨
    ¬ConfigMissing events ∧ ∃ body, requests events = [⟨endpoint, body⟩]
  /-- The browser is not aborted. -/
  finishes : ending ≠ .abort
  /-- The command fails if the request or a file did, and for no other reason. -/
  fails_iff : (∃ error, ending = .failure error) ↔ RequestFailed accepts events ∨ FileFailed events
  /-- A command that fails has written nothing. -/
  silent : (∃ error, ending = .failure error) → (∀ what, Event.wrote what ∉ events) ∧
    (CommandLine.finishOf (written events) ending).output = []
  /-- No file is written to if the request failed. -/
  untouched : RequestFailed accepts events → ∀ path content answer,
    Event.saved path content answer ∉ events
  /-- The code is 2 if the server does not know what was asked for. -/
  unknown_iff : (CommandLine.finishOf (written events) ending).code = 2 ↔
    ∃ request, Event.sent request (.status 404) ∈ events
  /-- The code is 3 if there was no answer. -/
  unreachable_iff : (CommandLine.finishOf (written events) ending).code = 3 ↔
    ∃ request message, Event.sent request (.failure message) ∈ events
  /-- The code is 1 for every other failure. -/
  otherwise : (∃ error, ending = .failure error) →
    (CommandLine.finishOf (written events) ending).code ≠ 2 →
    (CommandLine.finishOf (written events) ending).code ≠ 3 →
      (CommandLine.finishOf (written events) ending).code = 1

end

namespace Contract

variable {accepts : Bytes → Prop} {events : List Event} {endpoint : Endpoint}

/-- Without failures the contract is kept by success. -/
theorem of_success (body : Option Bytes) (hasked : requests events = [⟨endpoint, body⟩])
    (hrequest : ¬RequestFailed accepts events) (hfile : ¬FileFailed events) :
    Contract accepts events endpoint .success := by
  have hending : ¬∃ error, Ending.success = .failure error := by
    rintro ⟨error, h⟩
    cases h
  have hcode : (CommandLine.finishOf (written events) .success).code = 0 := rfl
  exact {
    once := by rw [hasked]; exact Nat.le.refl
    asks := .inr ⟨fun h => hfile (.inl h), body, hasked⟩
    finishes := Ending.noConfusion
    fails_iff := ⟨fun h => absurd h hending, fun h => (h.elim hrequest hfile).elim⟩
    silent := fun h => absurd h hending
    untouched := fun h => absurd h hrequest
    unknown_iff := ⟨fun h => absurd (hcode.symm.trans h) (by decide),
      fun ⟨request, h⟩ => absurd ⟨request, _, h, trivial⟩ hrequest⟩
    unreachable_iff := ⟨fun h => absurd (hcode.symm.trans h) (by decide),
      fun ⟨request, _, h⟩ => absurd ⟨request, _, h, trivial⟩ hrequest⟩
    otherwise := fun h => absurd h hending }

/-- What has not been written is not in the output. -/
theorem output_of_silent {ending : Ending} (h : ∀ what, Event.wrote what ∉ events) :
    (∀ what, Event.wrote what ∉ events) ∧
      (CommandLine.finishOf (written events) ending).output = [] := by
  have hquestions : questions events = events := by
    refine List.filter_eq_self.mpr fun event hevent => ?_
    cases event with
    | sent | loaded | saved => rfl
    | wrote what => exact absurd hevent (h what)
  have hwritten : written events = .empty := by
    have happend := written_append_of_questions hquestions []
    rwa [List.append_nil] at happend
  exact ⟨h, congrArg Streams.output hwritten⟩

/-- A failure of a file keeps the contract by code 1, if the request did not fail. -/
theorem of_file {error : CommandError} (hcode : error.exitCode = 1)
    (hasks : ConfigMissing events ∧ requests events = [] ∨
      ¬ConfigMissing events ∧ ∃ body, requests events = [⟨endpoint, body⟩])
    (hsilent : ∀ what, Event.wrote what ∉ events) (hrequest : ¬RequestFailed accepts events)
    (hfile : FileFailed events) : Contract accepts events endpoint (.failure error) where
  once := by
    obtain ⟨-, hasked⟩ | ⟨-, body, hasked⟩ := hasks <;> simp [hasked]
  asks := hasks
  finishes := Ending.noConfusion
  fails_iff := ⟨fun _ => .inr hfile, fun _ => ⟨error, rfl⟩⟩
  silent _ := output_of_silent hsilent
  untouched h := absurd h hrequest
  unknown_iff := ⟨fun h => absurd (hcode.symm.trans h) (by decide),
    fun ⟨request, h⟩ => absurd ⟨request, _, h, trivial⟩ hrequest⟩
  unreachable_iff := ⟨fun h => absurd (hcode.symm.trans h) (by decide),
    fun ⟨request, _, h⟩ => absurd ⟨request, _, h, trivial⟩ hrequest⟩
  otherwise _ _ _ := hcode

/-! ## One call -/

section

variable {body : Option Bytes} {reply : Api.Reply} {content : Bytes}

/-- A failure of the request keeps the contract by the code that says how it failed. -/
theorem of_request {error : CommandError}
    (hrequest : RequestFailed accepts [.sent ⟨endpoint, body⟩ reply])
    (hunknown : error.exitCode = 2 ↔ reply = .status 404)
    (hunreachable : error.exitCode = 3 ↔ ∃ message, reply = .failure message)
    (hother : error.exitCode = 1 ∨ error.exitCode = 2 ∨ error.exitCode = 3) :
    Contract accepts [.sent ⟨endpoint, body⟩ reply] endpoint (.failure error) where
  once := Nat.le.refl
  asks := .inr ⟨by simp [ConfigMissing], body, rfl⟩
  finishes := Ending.noConfusion
  fails_iff := ⟨fun _ => .inl hrequest, fun _ => ⟨error, rfl⟩⟩
  silent _ := output_of_silent (by simp)
  untouched _ := by simp
  unknown_iff := by simpa [CommandLine.finishOf, Ending.exitCode, eq_comm] using hunknown
  unreachable_iff := by simpa [CommandLine.finishOf, Ending.exitCode, eq_comm] using hunreachable
  otherwise _ htwo hthree := hother.resolve_right fun h => h.elim htwo hthree

/-- What is shown of a body that is accepted. -/
theorem of_shown {what : Written} (haccepted : accepts content) :
    Contract accepts [.sent ⟨endpoint, body⟩ (.body content), .wrote what] endpoint .success := by
  refine of_success body rfl ?_ ?_
  · simpa [RequestFailed] using haccepted
  · simp [FileFailed, ConfigMissing]

/-- **A command that makes a call keeps the contract** if the call reads the bodies that it accepts and
fails by code 1 on others, and if what follows an accepted body keeps it. -/
theorem of_calling {α : Type} {read : Bytes → Except Api.Error α} {next : α → Command} {ending : Ending}
    (haccepts : ∀ body, accepts body ↔ ∃ a, read body = .ok a)
    (hdecode : ∀ body error, read body = .error error → error.exitCode = 1)
    (hnext : ∀ content a rest ending, accepts content → Run (next a) rest ending →
      Contract accepts (.sent ⟨endpoint, body⟩ (.body content) :: rest) endpoint ending)
    (run : Run (Command.calling (Api.call endpoint body read) next) events ending) :
    Contract accepts events endpoint ending := by
  obtain ⟨reply, rest, rfl, goesOn⟩ := Command.run_calling.mp run
  cases reply with
  | failure message =>
    obtain ⟨rfl, rfl⟩ := goesOn
    exact of_request ⟨_, _, List.mem_cons_self, trivial⟩
      (by simp [CommandError.exitCode, Api.Error.exitCode])
      (by simp [CommandError.exitCode, Api.Error.exitCode]) (.inr (.inr rfl))
  | status code =>
    obtain ⟨rfl, rfl⟩ := goesOn
    have hcode : (CommandError.call (.status endpoint code)).exitCode = if code = 404 then 2 else 1 :=
      rfl
    refine of_request ⟨_, _, List.mem_cons_self, trivial⟩ ?_ ?_ ?_ <;> rw [hcode] <;> split <;> simp [*]
  | body content =>
    have hbody : ((Api.Reply.body content).toExcept endpoint).bind read = read content := rfl
    rw [hbody] at goesOn
    cases hread : read content with
    | ok a =>
      rw [hread] at goesOn
      exact hnext content a rest ending ((haccepts content).mpr ⟨a, hread⟩) goesOn
    | error error =>
      rw [hread] at goesOn
      obtain ⟨rfl, rfl⟩ := goesOn
      have hcode : (CommandError.call error).exitCode = 1 := hdecode content error hread
      refine of_request ⟨_, _, List.mem_cons_self, fun haccepted => ?_⟩ (by simp [hcode])
        (by simp [hcode]) (.inl hcode)
      obtain ⟨a, hok⟩ := (haccepts content).mp haccepted
      cases hread.symm.trans hok

/-- A command that prints what it reads keeps the contract if it prints that to its end. -/
theorem of_printing {α : Type} {read : Bytes → Except Api.Error α} {rendering : α → Rendering}
    {ending : Ending} (haccepts : ∀ body, accepts body ↔ ∃ a, read body = .ok a)
    (hdecode : ∀ body error, read body = .error error → error.exitCode = 1)
    (hcomplete : ∀ a, (rendering a).complete = true)
    (run : Run (Command.calling (Api.call endpoint body read) fun a => Command.print (rendering a))
      events ending) : Contract accepts events endpoint ending := by
  refine of_calling haccepts hdecode (fun content a rest ending haccepted printed => ?_) run
  obtain ⟨rfl, rfl⟩ := Command.run_print.mp printed
  rw [Command.ending_eq_success_iff.mpr (hcomplete a)]
  exact of_shown haccepted

end

/-! ## Files around a call -/

section

variable {path : String} {content : Except FileFault Bytes}

theorem requestFailed_loaded :
    RequestFailed accepts (.loaded path content :: events) ↔ RequestFailed accepts events := by
  simp [RequestFailed]

theorem configMissing_loaded (husable : ¬Unusable content) :
    ConfigMissing (.loaded path content :: events) ↔ ConfigMissing events := by
  constructor
  · rintro ⟨path', content', hmem, hunusable⟩
    obtain heq | hmem := List.mem_cons.mp hmem
    · cases heq
      exact absurd hunusable husable
    · exact ⟨path', content', hmem, hunusable⟩
  · rintro ⟨path', content', hmem, hunusable⟩
    exact ⟨path', content', List.mem_cons_of_mem _ hmem, hunusable⟩

/-- A file that holds a configuration changes nothing. -/
theorem cons_loaded {ending : Ending} (h : Contract accepts events endpoint ending)
    (husable : ¬Unusable content) :
    Contract accepts (.loaded path content :: events) endpoint ending where
  once := h.once
  asks := by rw [configMissing_loaded husable]; exact h.asks
  finishes := h.finishes
  fails_iff := by
    rw [requestFailed_loaded, FileFailed, configMissing_loaded husable, h.fails_iff, FileFailed]
    simp
  silent hfailed := output_of_silent (by simpa using (h.silent hfailed).1)
  untouched hfailed path content answer hmem := by
    obtain heq | hmem := List.mem_cons.mp hmem
    · cases heq
    · exact h.untouched (requestFailed_loaded.mp hfailed) path content answer hmem
  unknown_iff := h.unknown_iff.trans (by simp)
  unreachable_iff := h.unreachable_iff.trans (by simp)
  otherwise := h.otherwise

/-- A file that holds no configuration ends a command before its request. -/
theorem of_unusable {error : CommandError} (hcode : error.exitCode = 1)
    (hunusable : Unusable content) :
    Contract accepts [.loaded path content] endpoint (.failure error) := by
  have hmissing : ConfigMissing [.loaded path content] := ⟨path, content, List.mem_cons_self, hunusable⟩
  refine of_file hcode (.inl ⟨hmissing, rfl⟩) (by simp) ?_ (.inl hmissing)
  rintro ⟨_, _, hmem, -⟩
  cases List.mem_singleton.mp hmem

end

/-- A body that was received is written to a file, and only that can fail then. -/
theorem of_saved {body : Option Bytes} {path : String} {received content : Bytes} {rest : List Event}
    {ending : Ending} (haccepted : accepts received)
    (run : Run (.save path content fun
      | .ok () => .write (.notice (Command.savedNotice path content)) (.done .success)
      | .error fault => .done (.failure (.unwritable path fault))) rest ending) :
    Contract accepts (.sent ⟨endpoint, body⟩ (.body received) :: rest) endpoint ending := by
  obtain ⟨answer, said, rfl, goesOn⟩ := run_save.mp run
  cases answer with
  | ok _ =>
    obtain ⟨rfl, rfl⟩ := run_write_done.mp goesOn
    refine of_success body rfl ?_ ?_
    · simpa [RequestFailed] using haccepted
    · simp [FileFailed, ConfigMissing]
  | error fault =>
    obtain ⟨rfl, rfl⟩ := run_pure.mp goesOn
    refine of_file rfl (.inr ⟨by simp [ConfigMissing], body, rfl⟩) (by simp) ?_
      (.inr ⟨path, content, fault, List.mem_cons_of_mem _ List.mem_cons_self⟩)
    simpa [RequestFailed] using haccepted

end Contract

/-! ## Every command -/

section

variable {α : Type} [Json.Document α] {endpoint : Endpoint} {body : Bytes}

/-- A reply is read if its body is the document. -/
theorem readReply_ok {a : α} : Api.readReply α endpoint body = .ok a ↔ Json.read α body = .ok a :=
  Json.mapError_ok

/-- A body that is not the document is a failure of code 1. -/
theorem exitCode_readReply {error : Api.Error} (h : Api.readReply α endpoint body = .error error) :
    error.exitCode = 1 := by
  unfold Api.readReply at h
  cases hread : Json.read α body with
  | ok a =>
    rw [hread] at h
    cases h
  | error fault =>
    rw [hread] at h
    cases h
    rfl

/-- A call for a part of a document reads the same bodies as one for the document. -/
theorem readReply_part_ok {β : Type} (part : α → β) :
    (∃ a, Json.read α body = .ok a) ↔ ∃ b, (Api.readReply α endpoint body).map part = .ok b := by
  constructor
  · rintro ⟨a, h⟩
    exact ⟨_, Json.map_ok.mpr ⟨a, readReply_ok.mpr h, rfl⟩⟩
  · rintro ⟨b, h⟩
    obtain ⟨a, h, -⟩ := Json.map_ok.mp h
    exact ⟨a, readReply_ok.mp h⟩

theorem exitCode_readReply_part {β : Type} {part : α → β} {error : Api.Error}
    (h : (Api.readReply α endpoint body).map part = .error error) : error.exitCode = 1 := by
  cases hreply : Api.readReply α endpoint body with
  | ok a =>
    rw [hreply] at h
    cases h
  | error fault =>
    rw [hreply] at h
    cases h
    exact exitCode_readReply hreply

end

/-- **Every command that opens no view keeps the contract**, in every run. -/
theorem supplement_contract {s : Supplement} {p : Presentation} {events : List Event}
    {ending : Ending} (run : Run (s.invocation.command p) events ending) :
    Contract s.Accepts events s.endpoint ending := by
  have hdocument {α : Type} [Json.Document α] {endpoint : Endpoint} (body : Bytes) :
      (∃ a, Json.read α body = .ok a) ↔ ∃ a, Api.readReply α endpoint body = .ok a :=
    exists_congr fun _ => readReply_ok.symm
  have hany {α : Type} (f : Bytes → α) (body : Bytes) :
      True ↔ ∃ a, (Except.ok (f body) : Except Api.Error α) = .ok a :=
    ⟨fun _ => ⟨_, rfl⟩, fun _ => trivial⟩
  have hnever {α : Type} (f : Bytes → α) (body : Bytes) (error : Api.Error)
      (h : (Except.ok (f body) : Except Api.Error α) = .error error) : error.exitCode = 1 := by
    cases h
  cases s with
  | showJob job =>
    exact .of_printing hdocument (fun _ _ => exitCode_readReply)
      (fun _ => Command.complete_present _ _ rfl) run
  | setJob job file =>
    obtain ⟨content, ⟨error, hconfig, rfl, rfl⟩ | ⟨m, rest, hconfig, rfl, called⟩⟩ :=
      Command.run_setJob.mp run
    · obtain ⟨hunusable, hcode⟩ := Command.configOfFile_error hconfig
      exact .of_unusable hcode hunusable
    · have contract : Contract (Supplement.Accepts (.setJob job file)) rest (.setJob job) ending :=
        .of_printing hdocument (fun _ _ => exitCode_readReply)
          (fun _ => Command.complete_present _ _ rfl) called
      exact contract.cons_loaded (Command.configOfFile_ok hconfig).1
  | listTasks =>
    exact .of_printing (fun _ => readReply_part_ok _) (fun _ _ => exitCode_readReply_part)
      (fun tasks => Command.complete_present _ _ (complete_tasksText _ tasks)) run
  | getTask task =>
    exact .of_printing hdocument (fun _ _ => exitCode_readReply)
      (fun _ => Command.complete_present _ _ rfl) run
  | console job build =>
    exact .of_printing (hany _) (hnever _) (fun _ => Command.complete_present _ _ rfl) run
  | artifact job build id file =>
    refine .of_calling (hany fun content => content) (hnever fun content => content) ?_ run
    intro content content' rest ending _ goesOn
    cases file with
    | none =>
      obtain ⟨rfl, rfl⟩ := Command.run_put.mp goesOn
      exact .of_shown trivial
    | some path => exact .of_saved trivial goesOn

/-- An artifact that the server does not know: the browser ends with code 2 and leaves the file that
was named for it alone. -/
theorem unknown_artifact_leaves_file :
    ∃ events ending,
      Run ((Supplement.artifact ⟨"web"⟩ "7" ⟨"log"⟩ (some "log.txt")).invocation.command ⟨.off, .text⟩)
        events ending ∧
      requests events = [⟨.getArtifact ⟨"web"⟩ "7" ⟨"log"⟩, none⟩] ∧
      (CommandLine.finishOf (written events) ending).code = 2 ∧
      (∀ what, Event.wrote what ∉ events) ∧ ∀ path content answer, Event.saved path content answer ∉ events := by
  have run : Run
      ((Supplement.artifact ⟨"web"⟩ "7" ⟨"log"⟩ (some "log.txt")).invocation.command ⟨.off, .text⟩)
      [.sent ⟨.getArtifact ⟨"web"⟩ "7" ⟨"log"⟩, none⟩ (.status 404)]
      (.failure (.call (.status (.getArtifact ⟨"web"⟩ "7" ⟨"log"⟩) 404))) :=
    .send (.status 404) (.done _)
  have contract := supplement_contract run
  exact ⟨_, _, run, rfl, contract.unknown_iff.mpr ⟨_, List.mem_cons_self⟩, (contract.silent ⟨_, rfl⟩).1,
    contract.untouched ⟨_, _, List.mem_cons_self, trivial⟩⟩

end BuildBrowser
