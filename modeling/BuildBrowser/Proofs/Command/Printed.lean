import BuildBrowser.Command.Build
import BuildBrowser.Command.Task
import BuildBrowser.Command.View
import BuildBrowser.Proofs.Command.Open
import BuildBrowser.Proofs.Command.SetJob
import BuildBrowser.Proofs.Command.Trigger
import BuildBrowser.Proofs.View.Reachable

/-!
# JSON output loses nothing

A command with JSON output writes one JSON text and a line feed, and the text is read as the value that
it was made of (`Json.Prints`). Commands that open views print the value of the scope that their view
comes to by the replies of the run (`PrintsScope`); the others print a value that is made of the body of a
reply (`PrintsReply`). All that has to be seen for each is that its value fits the reader: a document that
is printed as it was read does, and the text form plays no part.

The JSON form keeps apart what the text form merges: a listing that was never received and an empty
one have the same text, but no two reachable scopes have the same JSON.
-/

namespace BuildBrowser

open Json

/-! ## Documents that were read fit -/

/-- A field of any kind of value was read, or is null because it was absent. -/
theorem fits_of_obtained {name : String} {n : Nat} {v : Value}
    (h : (Field.withDefault name value .null).Obtained n v) : v.Fits n := by
  obtain ⟨input, rest, hread⟩ | habsent | habsent := h
  · exact fits_of_value hread
  · cases habsent
  · cases habsent
    exact Value.fits_null

/-- An identifier and a value of any kind. -/
theorem fits_pair {first second : String} (hne : first ≠ second) (s : String) {n : Nat} {v : Value}
    (h : v.Fits n) : (Value.object [(first, .string s), (second, v)]).Fits (n + 1) := by
  refine Value.fits_object ?_ ?_
  · show [first, second].Nodup
    simpa using hne
  · exact List.forall_mem_cons.mpr ⟨Value.fits_string s, List.forall_mem_singleton.mpr h⟩

theorem JobConfig.fits_toValue {body : Bytes} {c : JobConfig} (h : read JobConfig body = .ok c) :
    (Document.toValue c).Fits maxDepth := by
  obtain ⟨rest, hdecoder, -⟩ := decode_ok.mp h
  obtain ⟨m, ⟨job, config, ⟨⟩⟩, hm, rfl, -, hconfig, -⟩ := Schema.obtained_of_decoder hdecoder
  rw [hm]
  exact fits_pair (by decide) job.text (fits_of_obtained hconfig)

theorem WorkerTask.fits_toValue {body : Bytes} {t : WorkerTask} (h : read WorkerTask body = .ok t) :
    (Document.toValue t).Fits maxDepth := by
  obtain ⟨rest, hdecoder, -⟩ := decode_ok.mp h
  obtain ⟨m, ⟨id, data, ⟨⟩⟩, hm, rfl, -, hdata, -⟩ := Schema.obtained_of_decoder hdecoder
  rw [hm]
  exact fits_pair (by decide) id.text (fits_of_obtained hdata)

namespace Command

theorem fits_consoleValue (job : JobId) (build log : String) :
    (consoleValue job build log).Fits 1 := by
  refine Value.fits_object (by show ["jobid", "build", "console"].Nodup; decide) ?_
  intro m hm
  simp only [List.mem_cons, List.not_mem_nil, or_false] at hm
  obtain rfl | rfl | rfl := hm <;> exact Value.fits_string _

/-! ## What a command prints -/

/-- Every run of the command succeeds, and prints the value of the scope that its view comes to by the
same questions with the same replies. -/
def PrintsScope (command : Command) (view : Program Scope) : Prop :=
  ∀ ⦃events : List Event⦄ ⦃ending : Ending⦄, Run command events ending → ending = .success ∧
    ∃ scope : Scope, Run view (questions events) scope ∧ scope.Reachable ∧
      Prints (written events).output scope.toValue

/-- Every successful run of the command prints a value that is made of the body of a reply. -/
def PrintsReply (command : Command) (made : Bytes → Except Json.Error Value) : Prop :=
  ∀ ⦃events : List Event⦄, Run command events .success →
    ∃ request body v, .sent request (.body body) ∈ events ∧ made body = .ok v ∧
      Prints (written events).output v

variable {colour : Colour}

/-! ## Commands that open views -/

theorem prints_render (colour : Colour) {scope : Scope} (h : scope.Reachable) :
    Prints (utf8 (scope.render colour .json).text) scope.toValue := by
  rw [Scope.render]
  exact prints_present h.fits _

theorem printsScope_showRoute (route : Route) :
    PrintsScope (showRoute ⟨colour, .json⟩ route) route.activate := by
  intro events ending run
  obtain ⟨reply, rfl, rfl⟩ := run_showRoute.mp run
  have activated : Run route.activate [.sent ⟨route.question, none⟩ reply] (route.opened reply) := by
    rw [route.activate_eq]
    exact run_ask.mpr ⟨reply, rfl, rfl⟩
  have hscope := Route.reachable_of_activate activated
  refine ⟨ending_eq_success_iff.mpr ((Scope.complete_render _ _ _).mpr (.inl rfl)), _, activated,
    hscope, ?_⟩
  rw [written_sent, written_output]
  exact prints_render colour hscope

theorem printsScope_openPath (table : RouteTable) (path : String) :
    PrintsScope (openPath table ⟨colour, .json⟩ path) (table.open path) :=
  printsScope_showRoute (table.navigate path)

/-- The view of a job's builds as it is after a trigger. -/
def triggeredView (job : JobId) : Program Scope := do
  let scope ← JobBuildsScope.activate job
  let (_, scope) ← scope.trigger
  return .jobBuilds scope

/-- The scope after a trigger is that of a session of two steps. -/
theorem printsScope_trigger (job : JobId) :
    PrintsScope (trigger ⟨colour, .json⟩ job) (triggeredView job) := by
  intro events ending run
  obtain ⟨first, rest, outcome, after, rfl, triggered, rfl⟩ := run_trigger.mp run
  have hquestions := JobBuildsScope.questions_trigger triggered
  have opened : Run (JobBuildsScope.activate job) [.sent ⟨.listBuilds job, none⟩ first] _ :=
    run_ask.mpr ⟨first, rfl, rfl⟩
  have session : Session (JobBuildsScope.activate job) JobBuildsScope.operations
      ([.sent ⟨.listBuilds job, none⟩ first] ++ rest) after :=
    .continued (.opened opened) (List.mem_cons_of_mem _ List.mem_cons_self)
      (run_bind_pure.mpr ⟨_, triggered, rfl⟩)
  have hscope : Scope.Reachable (.jobBuilds after) := .jobBuilds session
  refine ⟨rfl, .jobBuilds after, ?view, hscope, ?printed⟩
  case view =>
    rw [questions_sent, questions_append, hquestions]
    refine run_bind.mpr ⟨_, _, _, rfl, opened, ?_⟩
    exact run_bind.mpr ⟨rest, [], (outcome, after), rfl, triggered, .done _⟩
  case printed =>
    rw [written_sent, written_append_of_questions hquestions, written_notice_output]
    exact prints_render colour hscope

/-! ## Commands that show a reply -/

section

variable {α : Type} {endpoint : Endpoint} {sent : Option Bytes} {read : Bytes → Except Api.Error α}
  {toValue : α → Value} {text : α → Rendering} {made : Bytes → Except Json.Error Value}

/-- A command that shows what it reads from a reply prints its value, if what is read fits. -/
theorem printsReply_calling
    (h : ∀ body a, read body = .ok a → made body = .ok (toValue a) ∧ (toValue a).Fits maxDepth) :
    PrintsReply (calling (Api.call endpoint sent read)
      fun a => print (present .json (toValue a) (text a))) made := by
  intro events run
  obtain ⟨reply, rest, rfl, goesOn⟩ := run_calling.mp run
  cases hread : (reply.toExcept endpoint).bind read with
  | error error =>
    rw [hread] at goesOn
    cases goesOn.2
  | ok a =>
    rw [hread] at goesOn
    obtain ⟨rfl, -⟩ := run_print.mp goesOn
    obtain ⟨body, rfl, hbody⟩ := Api.Reply.toExcept_bind_ok.mp hread
    obtain ⟨hmade, hfits⟩ := h body a hbody
    refine ⟨_, body, _, List.mem_cons_self, hmade, ?_⟩
    rw [written_sent, written_output]
    exact prints_present hfits _

end

theorem printsReply_showJob (job : JobId) :
    PrintsReply (showJob ⟨colour, .json⟩ job) fun body =>
      (read JobConfig body).map Document.toValue := by
  refine printsReply_calling fun body c hreply => ?_
  have hread := mapError_ok.mp hreply
  exact ⟨map_ok.mpr ⟨c, hread, rfl⟩, JobConfig.fits_toValue hread⟩

theorem printsReply_getTask (task : TaskId) :
    PrintsReply (getTask ⟨colour, .json⟩ task) fun body =>
      (read WorkerTask body).map Document.toValue := by
  refine printsReply_calling fun body t hreply => ?_
  have hread := mapError_ok.mp hreply
  exact ⟨map_ok.mpr ⟨t, hread, rfl⟩, WorkerTask.fits_toValue hread⟩

theorem printsReply_listTasks :
    PrintsReply (listTasks ⟨colour, .json⟩) fun body =>
      (read TaskListing body).map fun listing => Document.toValue listing.tasks := by
  refine printsReply_calling fun body tasks hreply => ?_
  obtain ⟨listing, hlisting, rfl⟩ := map_ok.mp hreply
  exact ⟨map_ok.mpr ⟨listing, mapError_ok.mp hlisting, rfl⟩, fits_list fun task _ => task.fits_toValue⟩

theorem printsReply_console (job : JobId) (build : String) :
    PrintsReply (console ⟨colour, .json⟩ job build) fun body =>
      .ok (consoleValue job build (String.ofList (Utf8.decodeLossy body))) := by
  refine printsReply_calling fun body log hreply => ?_
  obtain rfl := Except.ok.inj hreply
  exact ⟨rfl, (fits_consoleValue job build _).mono (by decide)⟩

/-- What is printed after a configuration was sent is what the server keeps. -/
theorem printsReply_setJob (job : JobId) (path : String) :
    PrintsReply (setJob ⟨colour, .json⟩ job path) fun body =>
      (read JobConfig body).map Document.toValue := by
  intro events run
  obtain ⟨content, ⟨error, -, -, hending⟩ | ⟨m, rest, -, rfl, called⟩⟩ := run_setJob.mp run
  · cases hending
  · have hprints : PrintsReply (calling (Api.setJob job m) (showStored ⟨colour, .json⟩)) fun body =>
        (read JobConfig body).map Document.toValue := by
      refine printsReply_calling fun body stored hreply => ?_
      have hread := mapError_ok.mp hreply
      exact ⟨map_ok.mpr ⟨stored, hread, rfl⟩, JobConfig.fits_toValue hread⟩
    obtain ⟨request, body, v, hmem, hmade, hprinted⟩ := hprints called
    exact ⟨request, body, v, List.mem_cons_of_mem _ hmem, hmade, hprinted⟩

end Command

/-! ## All output -/

/-- Two reachable scopes that print the same JSON are the same. -/
theorem Scope.Reachable.eq_of_render {a b : Scope} (ha : a.Reachable) (hb : b.Reachable)
    (haint : a.toValue.Integral) (hbint : b.toValue.Integral) {colour colour' : Colour}
    (h : (a.render colour .json).text = (b.render colour' .json).text) : a = b := by
  have hcontent : Prints (utf8 (a.render colour .json).text) b.toValue := by
    rw [h]
    exact Command.prints_render colour' hb
  exact Scope.toValue_injective ((Command.prints_render colour ha).unique hcontent haint hbint)

/-- **JSON output loses nothing.** Every reachable scope, and every document that a command shows, is
printed as one JSON text from which its value is read, as from the compact text. A command that opens a
view prints the scope that the view comes to by the replies of the run. The value of a scope determines the
scope, so that no two reachable scopes print the same JSON. -/
theorem json_output_lossless :
    (∀ colour (scope : Scope), scope.Reachable → (scope.render colour .json).complete = true ∧
      Prints (utf8 (scope.render colour .json).text) scope.toValue) ∧
    (∀ colour,
      (∀ table path, (Command.openPath table ⟨colour, .json⟩ path).PrintsScope (table.open path)) ∧
      (∀ route, (Command.showRoute ⟨colour, .json⟩ route).PrintsScope route.activate) ∧
      ∀ job, (Command.trigger ⟨colour, .json⟩ job).PrintsScope (Command.triggeredView job)) ∧
    (∀ colour,
      (∀ job, (Command.showJob ⟨colour, .json⟩ job).PrintsReply fun body =>
        (read JobConfig body).map Document.toValue) ∧
      (∀ job path, (Command.setJob ⟨colour, .json⟩ job path).PrintsReply fun body =>
        (read JobConfig body).map Document.toValue) ∧
      (∀ task, (Command.getTask ⟨colour, .json⟩ task).PrintsReply fun body =>
        (read WorkerTask body).map Document.toValue) ∧
      (Command.listTasks ⟨colour, .json⟩).PrintsReply (fun body =>
        (read TaskListing body).map fun listing => Document.toValue listing.tasks) ∧
      ∀ job build, (Command.console ⟨colour, .json⟩ job build).PrintsReply fun body =>
        .ok (Command.consoleValue job build (String.ofList (Utf8.decodeLossy body)))) ∧
    Function.Injective Scope.toValue ∧
    ∀ colour colour' (a b : Scope), a.Reachable → b.Reachable → a.toValue.Integral →
      b.toValue.Integral → a ≠ b → (a.render colour .json).text ≠ (b.render colour' .json).text := by
  refine ⟨?rendered, fun colour => ?scopes, fun colour => ?replies, Scope.toValue_injective, ?distinct⟩
  case rendered =>
    intro colour scope h
    exact ⟨(scope.complete_render colour .json).mpr (.inl rfl), Command.prints_render colour h⟩
  case scopes =>
    exact ⟨Command.printsScope_openPath, Command.printsScope_showRoute, Command.printsScope_trigger⟩
  case replies =>
    exact ⟨Command.printsReply_showJob, Command.printsReply_setJob, Command.printsReply_getTask,
      Command.printsReply_listTasks, Command.printsReply_console⟩
  case distinct =>
    intro colour colour' a b ha hb haint hbint hne hsame
    exact hne (ha.eq_of_render hb haint hbint hsame)

/-- A job list that was never received, and one without jobs: their text is the same, but their JSON is
not, and each is read back. -/
theorem unset_and_empty_print_apart :
    ∃ unset empty : Scope, unset.Reachable ∧ empty.Reachable ∧
      unset.text .off = empty.text .off ∧
      (unset.render .off .json).text ≠ (empty.render .off .json).text ∧
      read Value (utf8 unset.toValue.pretty) = .ok unset.toValue ∧
      read Value (utf8 empty.toValue.pretty) = .ok empty.toValue := by
  have hunset : Scope.Reachable (.jobList ⟨none⟩) :=
    .jobList (.opened (run_ask.mpr ⟨.status 500, rfl, rfl⟩))
  have hempty : Scope.Reachable (.jobList ⟨some []⟩) := by
    have hread : read JobListing (utf8 "[[]]") = .ok ⟨[]⟩ := by decide
    have run : Run JobListScope.activate _ _ :=
      (JobListScope.load_eq .start).symm ▸ run_ask.mpr ⟨.body (utf8 "[[]]"), rfl, rfl⟩
    rw [Api.Reply.document_ok.mpr ⟨_, rfl, hread⟩] at run
    have hsorted : JobListScope.start.receive (.ok []) = ⟨some []⟩ := by
      rw [JobListScope.receive, sortJobs, List.mergeSort_nil]
    exact .jobList (.opened (hsorted ▸ run))
  obtain ⟨hscopes, -, -, -, hapart⟩ := json_output_lossless
  have hunsetInt : (Scope.jobList ⟨none⟩).toValue.Integral := ⟨trivial, trivial, trivial⟩
  have hemptyInt : (Scope.jobList ⟨some []⟩).toValue.Integral := ⟨trivial, trivial, trivial⟩
  refine ⟨_, _, hunset, hempty, rfl, ?_, (hscopes .off _ hunset).2.read_pretty hunsetInt,
    (hscopes .off _ hempty).2.read_pretty hemptyInt⟩
  exact hapart .off .off _ _ hunset hempty hunsetInt hemptyInt (by decide)

end BuildBrowser
