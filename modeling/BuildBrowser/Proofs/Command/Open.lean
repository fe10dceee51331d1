import BuildBrowser.CommandLine.Browser
import BuildBrowser.Proofs.Command.Call
import BuildBrowser.Proofs.Document.RoundTrip
import BuildBrowser.Proofs.Render.Listing
import BuildBrowser.Proofs.Route.Standard
import BuildBrowser.Proofs.View.Order

/-!
# Opening a path

A route asks one question (`Route.question`), and its view opens with a scope that depends on nothing
but the reply (`Route.opened`). `Route.activate_eq` says so, and the rest follows: opening a path is
opening the route that it leads to, and a route without empty identifiers is where its canonical path
leads. So a path that a listing shows opens the view that it stands for.

A failed call leaves a scope that is printed as any other, so opening does not fail. But printing stops
at a name that a column is too wide for, and then the browser ends there: it comes to its end exactly if
the reply is `Showable`.

The path of a call and the path of a route are encoded alike, as paths of segments
(`path_question`); they differ in the segments alone.
-/

namespace BuildBrowser

/-! ## The question of a route -/

namespace Route

/-- The call by which a view asks for what it shows. -/
def question : Route → Endpoint
  | .jobs => .listJobs
  | .jobBuilds job => .listBuilds job
  | .buildState job build => .getBuild job build

/-- The scope of a view that opens, by the reply to its question. -/
def opened (reply : Api.Reply) : Route → Scope
  | .jobs =>
    .jobList (JobListScope.start.receive
      ((reply.document JobListing .listJobs).map JobListing.jobs))
  | .jobBuilds job =>
    .jobBuilds ((JobBuildsScope.start job).receive (reply.document BuildListing (.listBuilds job)))
  | .buildState job build =>
    .buildState ((BuildStateScope.start job build).receive
      ((reply.document BuildReport (.getBuild job build)).map BuildReport.state))

/-- **A view opens by one question**, without a body. -/
theorem activate_eq (r : Route) : r.activate = .ask ⟨r.question, none⟩ fun reply => r.opened reply := by
  cases r with
  | jobs =>
    rw [activate, JobListScope.activate, JobListScope.load_eq]
    rfl
  | jobBuilds job =>
    rw [activate, JobBuildsScope.activate, JobBuildsScope.update_eq]
    rfl
  | buildState job build =>
    rw [activate, BuildStateScope.activate, BuildStateScope.load_eq]
    rfl

/-- No name in the reply to the route's question is wider than a column can be padded. That can be the name
of a job, or of the file of an artifact; numbers of builds are short. -/
def Showable (reply : Api.Reply) : Route → Prop
  | .jobs => ∀ listing, reply.document JobListing .listJobs = .ok listing →
      ∀ job ∈ listing.jobs, job.text.length ≤ maxWidth
  | .jobBuilds _ => True
  | .buildState job build => ∀ report, reply.document BuildReport (.getBuild job build) = .ok report →
      ∀ r ∈ report.state.takeRecords.1, ∀ name ∈ r.fileName, name.length ≤ maxWidth

/-- A reply without a body has no names. -/
theorem showable_of_not_body {reply : Api.Reply} (h : ∀ content, reply ≠ .body content) (r : Route) :
    r.Showable reply := by
  have hnone (α : Type) [Json.Document α] (endpoint : Endpoint) (document : α) :
      reply.document α endpoint ≠ .ok document := by
    intro hdocument
    cases reply with
    | body content => exact h content rfl
    | status code => cases hdocument
    | failure message => cases hdocument
  cases r with
  | jobs => exact fun listing hlisting => absurd hlisting (hnone _ _ listing)
  | jobBuilds job => trivial
  | buildState job build => exact fun report hreport => absurd hreport (hnone _ _ report)

/-- **What a route opens with fits if the reply does.** Sorting moves names, and changes none. -/
theorem fits_opened {reply : Api.Reply} {r : Route} : (r.opened reply).Fits ↔ r.Showable reply := by
  cases r with
  | jobs =>
    rw [opened, Showable]
    cases reply.document JobListing .listJobs with
    | error error => exact iff_of_true (List.forall_mem_nil _) (by simp)
    | ok listing =>
      have hmem (job : JobId) : job ∈ sortJobs listing.jobs ↔ job ∈ listing.jobs :=
        (sortJobs_perm listing.jobs).mem_iff
      simp [Scope.Fits, JobListScope.receive, Except.map, hmem]
  | jobBuilds job => exact Iff.rfl
  | buildState job build =>
    rw [opened, Showable]
    cases reply.document BuildReport (.getBuild job build) with
    | error error => exact iff_of_true (.inl rfl) (by simp)
    | ok report => simp [Scope.Fits, BuildStateScope.receive, Except.map]

theorem method_question (r : Route) : r.question.method = .get := by
  cases r <;> rfl

/-- The path of a route's question: that of the route, in the server's directory. The builds of a job
are asked for in a directory of their own. -/
theorem path_question (r : Route) :
    r.question.path = match r with
      | .jobBuilds _ => "/distci" ++ r.path ++ "/builds"
      | .jobs | .buildState _ _ => "/distci" ++ r.path := by
  have hbuilds : absolutePath ["builds"] = "/builds" := by decide
  have hunder (segments : List String) :
      absolutePath ("distci" :: segments) = "/distci" ++ absolutePath segments := by
    rw [← List.singleton_append, absolutePath_append]
    exact congrArg (· ++ absolutePath segments) (by decide)
  cases r with
  | jobs => exact hunder _
  | jobBuilds job =>
    calc absolutePath ("distci" :: (["jobs", job.text] ++ ["builds"]))
      _ = "/distci" ++ absolutePath (["jobs", job.text] ++ ["builds"]) := hunder _
      _ = "/distci" ++ (absolutePath ["jobs", job.text] ++ "/builds") := by
        rw [absolutePath_append, hbuilds]
      _ = "/distci" ++ absolutePath ["jobs", job.text] ++ "/builds" :=
        (String.append_assoc ..).symm
  | buildState job build => exact hunder _

/-- The path of a route opens the view of the route, and the commands that open either are one. -/
def OpensItself (r : Route) : Prop :=
  RouteTable.standard.open r.path = r.activate ∧
    ∀ p, (CommandLine.Invocation.open r.path).command p = (CommandLine.Invocation.show r).command p

theorem opensItself {r : Route} (h : ∀ id ∈ r.identifiers, id ≠ "") : r.OpensItself := by
  have hroute : RouteTable.standard.navigate r.path = r :=
    RouteTable.navigate_of_route? (RouteTable.route?_path h)
  have hopen : RouteTable.standard.open r.path = r.activate := congrArg activate hroute
  refine ⟨hopen, fun p => ?_⟩
  rw [CommandLine.Invocation.command, CommandLine.Invocation.command, Command.openPath, hopen,
    Command.showRoute]

end Route

/-! ## Commands -/

namespace Command

variable {p : Presentation} {events : List Event} {ending : Ending}

/-- **A view is shown by one question**, whatever the reply is. -/
theorem run_showRoute {r : Route} :
    Run (showRoute p r) events ending ↔
      ∃ reply, events = [.sent ⟨r.question, none⟩ reply,
          .wrote (.output (utf8 ((r.opened reply).render p.colour p.format).text))] ∧
        ending = Command.ending ((r.opened reply).render p.colour p.format) := by
  rw [showRoute, Route.activate_eq, run_bind]
  constructor
  · rintro ⟨before, after, scope, rfl, asked, shown⟩
    obtain ⟨reply, rfl, rfl⟩ := run_ask.mp asked
    obtain ⟨rfl, rfl⟩ := run_print.mp shown
    exact ⟨reply, rfl, rfl⟩
  · rintro ⟨reply, rfl, rfl⟩
    exact ⟨[_], [_], _, rfl, run_ask.mpr ⟨reply, rfl, rfl⟩, run_print.mpr ⟨rfl, rfl⟩⟩

/-- A scope is printed with success, or stops the browser where its texts are too long. -/
theorem ending_render_iff {colour : Colour} {format : Format} {scope : Scope} :
    ending = Command.ending (scope.render colour format) ↔
      ending = .success ∧ (format = .json ∨ scope.Fits) ∨
        ending = .abort ∧ format = .text ∧ ¬scope.Fits := by
  have hcomplete := scope.complete_render colour format
  unfold Command.ending
  by_cases h : (scope.render colour format).complete = true
  · have hshown := hcomplete.mp h
    rw [if_pos h]
    refine ⟨fun hending => .inl ⟨hending, hshown⟩, ?_⟩
    rintro (⟨hending, -⟩ | ⟨-, rfl, hlong⟩)
    · exact hending
    · exact absurd (hshown.resolve_left Format.noConfusion) hlong
  · have hshown := mt hcomplete.mpr h
    obtain ⟨hformat, hlong⟩ := not_or.mp hshown
    rw [if_neg h]
    refine ⟨fun hending => .inr ⟨hending, ?_, hlong⟩, ?_⟩
    · cases format with
      | json => exact absurd rfl hformat
      | text => rfl
    · rintro (⟨-, hfits⟩ | ⟨hending, -⟩)
      · exact absurd hfits hshown
      · exact hending

end Command

theorem BuildNumber.text_ne_empty (n : BuildNumber) : n.text ≠ "" := by
  intro h
  exact Nat.toDigits_ne_nil (String.ofList_eq_empty_iff.mp h)

/-- A listing for a job that has a name lists routes without empty identifiers. -/
theorem Scope.ne_empty_of_links {scope : Scope} {link : String × Route} (h : link ∈ scope.links)
    (hjob : link.2.identifiers.head? ≠ some "") : ∀ id ∈ link.2.identifiers, id ≠ "" := by
  cases scope with
  | jobList scope =>
    obtain ⟨job, -, rfl⟩ := List.mem_map.mp h
    exact List.forall_mem_singleton.mpr fun hempty => hjob (congrArg some hempty)
  | jobBuilds scope =>
    obtain ⟨build, -, rfl⟩ := List.mem_map.mp h
    refine List.forall_mem_cons.mpr ⟨fun hempty => hjob (congrArg some hempty), ?_⟩
    exact List.forall_mem_singleton.mpr build.text_ne_empty
  | buildState scope => cases h

/-- **Opening a path makes the one request that its route names, and does not fail.** It shows what the
reply opens the view with, and comes to its end unless that has a name that is too long for a column,
which only a body can have; then the browser is aborted. It is the same as showing the route that the path
leads to. For a route without empty identifiers it does not matter whether the route is shown or its path
is opened, and every link of a listing is such a route if its job has a name. -/
theorem open_asks_once (table : RouteTable) (p : Presentation) (path : String) :
    (∀ (events : List Event) (ending : Ending), Run (Command.openPath table p path) events ending ↔
      ∃ reply, let r := table.navigate path
        events = [.sent ⟨r.question, none⟩ reply,
          .wrote (.output (utf8 ((r.opened reply).render p.colour p.format).text))] ∧
        (ending = .success ∧ (p.format = .json ∨ r.Showable reply) ∨
          ending = .abort ∧ p.format = .text ∧ ¬r.Showable reply)) ∧
    (∀ (r : Route) (reply : Api.Reply), (∀ content, reply ≠ .body content) → r.Showable reply) ∧
    (∀ r : Route, r.question.method = .get ∧ r.question.path = match r with
      | .jobBuilds _ => "/distci" ++ r.path ++ "/builds"
      | .jobs | .buildState _ _ => "/distci" ++ r.path) ∧
    (table.open path = (table.navigate path).activate ∧
      Command.openPath table p path = Command.showRoute p (table.navigate path)) ∧
    (∀ r : Route, (∀ id ∈ r.identifiers, id ≠ "") → r.OpensItself) ∧
    (∀ (r : Route) (reply : Api.Reply), r.Showable reply → (r.opened reply).links ≠ [] →
      ∃ above column width, (r.opened reply).render p.colour .text =
        .whole (String.ofList (above ++ linkLines p.colour column width (r.opened reply).links))) ∧
    (∀ scope : Scope, ∀ link ∈ scope.links, link.2.identifiers.head? ≠ some "" →
      link.2.OpensItself) := by
  refine ⟨?run, ?failed, ?request, ⟨rfl, rfl⟩, ?canonical, ?shown, ?links⟩
  case run =>
    intro events ending
    refine Command.run_showRoute.trans (exists_congr fun reply => and_congr_right fun _ => ?_)
    rw [Command.ending_render_iff, Route.fits_opened]
  case failed =>
    intro r reply h
    exact Route.showable_of_not_body h r
  case request =>
    intro r
    exact ⟨r.method_question, r.path_question⟩
  case canonical =>
    intro r h
    exact Route.opensItself h
  case shown =>
    intro r reply hshowable hlinks
    exact Scope.text_links hlinks (Route.fits_opened.mpr hshowable)
  case links =>
    intro scope link hlink hjob
    exact Route.opensItself (Scope.ne_empty_of_links hlink hjob)

/-- A server with one job, whose name is one character longer than a column can be padded: the job list is
not shown, and the browser is aborted. -/
theorem open_aborts_at_long_name :
    let listing : JobListing := ⟨[⟨String.ofList (List.replicate 65536 'a')⟩]⟩
    Run (Command.openPath .standard ⟨.off, .text⟩ "/jobs")
      [.sent ⟨.listJobs, none⟩ (.body (utf8 (Json.Document.toValue listing).compact)),
        .wrote (.output [])] .abort := by
  intro listing
  generalize hbody : utf8 (Json.Document.toValue listing).compact = body
  have hread : (Api.Reply.body body).document JobListing .listJobs = .ok listing := by
    rw [← hbody, Api.Reply.document, Api.Reply.toExcept, Except.bind, Api.readReply,
      JobListing.read_compact]
    rfl
  have hlong : ¬∀ job ∈ sortJobs listing.jobs, job.text.length ≤ maxWidth := by
    intro h
    have hlength := h _ ((sortJobs_perm listing.jobs).mem_iff.mpr (List.mem_singleton.mpr rfl))
    rw [String.length_ofList, List.length_replicate] at hlength
    exact absurd hlength (by decide)
  have hshown : (Route.jobs.opened (.body body)).render .off .text = ⟨"", false⟩ := by
    rw [Route.opened, hread]
    exact JobListScope.text_of_long .off hlong
  have hroute : RouteTable.standard.navigate "/jobs" = .jobs := by decide
  rw [Command.openPath, RouteTable.open, hroute]
  refine Command.run_showRoute.mpr ⟨.body body, ?_, ?_⟩ <;> rw [hshown] <;> rfl

end BuildBrowser
