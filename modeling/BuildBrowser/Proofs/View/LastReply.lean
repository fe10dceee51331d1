import BuildBrowser.Proofs.View.Operation

/-!
# A view shows the last document that it received

A session is a view that opens and then goes through its operations, in any order and any number, with
every request answered in any way. **The law**: what the view shows in the end is read off the last
reply that held the document of the view, and off nothing else. Calls that fail leave no trace, and a
document that is received again is shown as if it were the first.

A `Keeper` is what the three views have in common: the call for one kind of document, and the scope
with one. Each operation moves the scope to the last document that its own replies held (`Followed`),
and a session is then an induction on its operations.

What a call does beside changing the scope, such as the outcome of a trigger, is not told here.
-/

namespace BuildBrowser

/-! ## Received documents -/

/-- The document that an event brings in reply to a call without a body, if it does. -/
def Event.document? (α : Type) [Json.Document α] (endpoint : Endpoint) : Event → Option α
  | .sent request reply =>
    if request = ⟨endpoint, none⟩ then (reply.document α endpoint).toOption else none
  | _ => none

/-- The last document that was received in reply to a call. -/
def lastReceived (α : Type) [Json.Document α] (endpoint : Endpoint) (events : List Event) :
    Option α :=
  (events.filterMap (Event.document? α endpoint)).getLast?

section Received

variable {α : Type} [Json.Document α] {endpoint : Endpoint}

theorem lastReceived_append (before after : List Event) :
    lastReceived α endpoint (before ++ after) =
      (lastReceived α endpoint after).or (lastReceived α endpoint before) := by
  rw [lastReceived, List.filterMap_append, List.getLast?_append]
  rfl

theorem lastReceived_sent (reply : Api.Reply) :
    lastReceived α endpoint [.sent ⟨endpoint, none⟩ reply] =
      (reply.document α endpoint).toOption := by
  have hdocument : Event.document? α endpoint (.sent ⟨endpoint, none⟩ reply) =
      (reply.document α endpoint).toOption := if_pos rfl
  rw [lastReceived]
  cases h : (reply.document α endpoint).toOption with
  | none => rw [List.filterMap_cons_none (hdocument.trans h)]; rfl
  | some a => rw [List.filterMap_cons_some (hdocument.trans h)]; rfl

/-- The reply to another request brings nothing. -/
theorem lastReceived_sent_of_ne {request : Api.Request} (h : request ≠ ⟨endpoint, none⟩)
    (reply : Api.Reply) (events : List Event) :
    lastReceived α endpoint (.sent request reply :: events) = lastReceived α endpoint events := by
  have hdocument : Event.document? α endpoint (.sent request reply) = none := if_neg h
  rw [lastReceived, List.filterMap_cons_none hdocument, lastReceived]

end Received

/-! ## Sessions -/

/-- **A session**: a view opens, and does one operation after another. -/
inductive Session {σ : Type} (opening : Program σ) (operations : List (σ → Program σ)) :
    List Event → σ → Prop
  | opened {events : List Event} {scope : σ} (run : Run opening events scope) :
    Session opening operations events scope
  | continued {operation : σ → Program σ} {before after : List Event} {scope next : σ}
    (session : Session opening operations before scope) (known : operation ∈ operations)
    (run : Run (operation scope) after next) :
    Session opening operations (before ++ after) next

/-- A view that keeps one kind of document: the call that asks for one, and the scope with one. -/
structure Keeper (σ α : Type) where
  endpoint : σ → Endpoint
  keep : σ → α → σ
  endpoint_keep : ∀ scope a, endpoint (keep scope a) = endpoint scope
  keep_keep : ∀ scope a b, keep (keep scope a) b = keep scope b

namespace Keeper

variable {σ α : Type} (keeper : Keeper σ α)

/-- The scope after a document, or as it is if none came. -/
def after (scope : σ) : Option α → σ
  | none => scope
  | some a => keeper.keep scope a

theorem endpoint_after (scope : σ) (a? : Option α) :
    keeper.endpoint (keeper.after scope a?) = keeper.endpoint scope := by
  cases a? with
  | none => rfl
  | some a => exact keeper.endpoint_keep scope a

theorem after_after (scope : σ) (a? b? : Option α) :
    keeper.after (keeper.after scope a?) b? = keeper.after scope (b?.or a?) := by
  cases b? with
  | none => rfl
  | some b =>
    cases a? with
    | none => rfl
    | some a => exact keeper.keep_keep scope a b

variable [Json.Document α]

/-- An operation that moves the scope to the last document that it receives. -/
def Followed (operation : σ → Program σ) : Prop :=
  ∀ scope events next, Run (operation scope) events next →
    next = keeper.after scope (lastReceived α (keeper.endpoint scope) events)

variable {keeper} {operation : σ → Program σ}

/-- An operation that is one call for a document. -/
theorem followed_of_ask {make : σ → Api.Reply → σ}
    (hask : ∀ scope, operation scope = .ask ⟨keeper.endpoint scope, none⟩ (make scope))
    (hmake : ∀ scope reply,
      make scope reply =
        keeper.after scope (reply.document α (keeper.endpoint scope)).toOption) :
    keeper.Followed operation := by
  intro scope events next run
  rw [hask] at run
  obtain ⟨reply, rfl, rfl⟩ := run_ask.mp run
  rw [lastReceived_sent, hmake]

/-- An operation that receives nothing leaves the scope as it is. -/
theorem Followed.unchanged (h : keeper.Followed operation) {scope next : σ} {events : List Event}
    (run : Run (operation scope) events next)
    (hnone : lastReceived α (keeper.endpoint scope) events = none) : next = scope := by
  have hnext := h scope events next run
  rw [hnone] at hnext
  exact hnext

/-- **A session moves the scope to the last document that was received in all of it.** The induction
is on the operations, and the invariant is the statement itself. -/
theorem scope_of_session {operations : List (σ → Program σ)} {start scope : σ}
    {events : List Event} (hfirst : keeper.Followed operation)
    (hoperations : ∀ operation ∈ operations, keeper.Followed operation)
    (h : Session (operation start) operations events scope) :
    scope = keeper.after start (lastReceived α (keeper.endpoint start) events) := by
  induction h with
  | opened run => exact hfirst start _ _ run
  | continued _ known run ih =>
    have hstep := hoperations _ known _ _ _ run
    -- what this operation received comes after all that was received before it
    rw [ih, endpoint_after, after_after, ← lastReceived_append] at hstep
    exact hstep

end Keeper

/-! ## The three views -/

namespace JobListScope

/-- What can be done in the job list. -/
def operations : List (JobListScope → Program JobListScope) :=
  [load]

/-- The job list keeps a listing of the jobs. -/
def keeper : Keeper JobListScope JobListing where
  endpoint _ := .listJobs
  keep _ listing := ⟨some (sortJobs listing.jobs)⟩
  endpoint_keep _ _ := rfl
  keep_keep _ _ _ := rfl

theorem after_start (listing? : Option JobListing) :
    keeper.after start listing? = ⟨listing?.map (sortJobs ·.jobs)⟩ := by
  cases listing? <;> rfl

theorem load_followed : keeper.Followed load := by
  refine Keeper.followed_of_ask load_eq fun scope reply => ?_
  change _ = keeper.after scope (reply.document JobListing .listJobs).toOption
  cases reply.document JobListing .listJobs <;> rfl

theorem operations_followed : ∀ operation ∈ operations, keeper.Followed operation := by
  intro operation h
  obtain rfl := List.mem_singleton.mp h
  exact load_followed

end JobListScope

namespace JobBuildsScope

/-- What can be done in the view of a job's builds. The outcome of a trigger is not kept. -/
def operations : List (JobBuildsScope → Program JobBuildsScope) :=
  [update, fun scope => do return (← scope.trigger).2]

/-- The view of a job's builds keeps a listing of them. -/
def keeper : Keeper JobBuildsScope BuildListing where
  endpoint scope := .listBuilds scope.job
  keep scope listing := { scope with builds := some (sortNewestFirst listing.builds) }
  endpoint_keep _ _ := rfl
  keep_keep _ _ _ := rfl

theorem after_start (job : JobId) (listing? : Option BuildListing) :
    keeper.after (start job) listing? = ⟨job, listing?.map (sortNewestFirst ·.builds)⟩ := by
  cases listing? <;> rfl

theorem receive_document (scope : JobBuildsScope) (reply : Api.Reply) :
    scope.receive (reply.document BuildListing (.listBuilds scope.job)) =
      keeper.after scope (reply.document BuildListing (.listBuilds scope.job)).toOption := by
  cases reply.document BuildListing (.listBuilds scope.job) <;> rfl

theorem update_followed : keeper.Followed update :=
  Keeper.followed_of_ask update_eq receive_document

/-- The receipt of a trigger is not the document of the view, so only the refresh counts. -/
theorem trigger_followed : keeper.Followed fun scope => do return (← scope.trigger).2 := by
  intro scope events next run
  obtain ⟨⟨outcome, after⟩, triggered, rfl⟩ := run_bind_pure.mp run
  have hpost : (⟨.triggerBuild scope.job, none⟩ : Api.Request) ≠ ⟨keeper.endpoint scope, none⟩ :=
    fun h => Endpoint.noConfusion (congrArg Api.Request.endpoint h)
  obtain ⟨content, refresh, rfl, -, rfl⟩ | ⟨refusal, -, rfl, -, rfl⟩ := run_trigger.mp triggered
  · rw [lastReceived_sent_of_ne hpost]
    exact (receive_document scope refresh).trans (congrArg _ (lastReceived_sent refresh).symm)
  · rw [lastReceived_sent_of_ne hpost]
    rfl

theorem operations_followed : ∀ operation ∈ operations, keeper.Followed operation := by
  intro operation h
  obtain rfl | h := List.mem_cons.mp h
  · exact update_followed
  · obtain rfl := List.mem_singleton.mp h
    exact trigger_followed

end JobBuildsScope

namespace BuildStateScope

/-- What can be done in the view of a build. -/
def operations : List (BuildStateScope → Program BuildStateScope) :=
  [load]

/-- The view of a build keeps a report, as its state without file names and its artifacts. -/
def keeper : Keeper BuildStateScope BuildReport where
  endpoint scope := .getBuild scope.job scope.build
  keep scope report :=
    { scope with
      state := some report.state.takeRecords.2
      artifacts := some report.state.takeRecords.1 }
  endpoint_keep _ _ := rfl
  keep_keep _ _ _ := rfl

theorem after_start (job : JobId) (build : String) (report? : Option BuildReport) :
    keeper.after (start job build) report? =
      ⟨job, build, report?.map (·.state.takeRecords.2), report?.map (·.state.takeRecords.1)⟩ := by
  cases report? <;> rfl

theorem load_followed : keeper.Followed load := by
  refine Keeper.followed_of_ask load_eq fun scope reply => ?_
  change _ = keeper.after scope
    (reply.document BuildReport (.getBuild scope.job scope.build)).toOption
  cases reply.document BuildReport (.getBuild scope.job scope.build) <;> rfl

theorem operations_followed : ∀ operation ∈ operations, keeper.Followed operation := by
  intro operation h
  obtain rfl := List.mem_singleton.mp h
  exact load_followed

end BuildStateScope

/-! ## What the views show -/

/-- **What a view shows after any session is what its last document says**, and what it was opened
with. The state and the artifacts of a build come from one document, so neither is there without the
other. An operation that receives no document leaves every scope as it is. -/
theorem scope_after_session :
    ((∀ events scope, Session JobListScope.activate JobListScope.operations events scope →
        scope = ⟨(lastReceived JobListing .listJobs events).map (sortJobs ·.jobs)⟩) ∧
      ∀ operation ∈ JobListScope.operations, ∀ scope events next,
        Run (operation scope) events next →
          lastReceived JobListing .listJobs events = none → next = scope) ∧
    ((∀ job events scope,
        Session (JobBuildsScope.activate job) JobBuildsScope.operations events scope →
          scope = ⟨job, (lastReceived BuildListing (.listBuilds job) events).map
            (sortNewestFirst ·.builds)⟩) ∧
      ∀ operation ∈ JobBuildsScope.operations, ∀ scope events next,
        Run (operation scope) events next →
          lastReceived BuildListing (.listBuilds scope.job) events = none → next = scope) ∧
    (∀ job build events scope,
        Session (BuildStateScope.activate job build) BuildStateScope.operations events scope →
          scope = ⟨job, build,
            (lastReceived BuildReport (.getBuild job build) events).map (·.state.takeRecords.2),
            (lastReceived BuildReport (.getBuild job build) events).map (·.state.takeRecords.1)⟩ ∧
          scope.state.isSome = scope.artifacts.isSome) ∧
      ∀ operation ∈ BuildStateScope.operations, ∀ scope events next,
        Run (operation scope) events next →
          lastReceived BuildReport (.getBuild scope.job scope.build) events = none →
            next = scope := by
  refine ⟨⟨?jobs, ?jobsKept⟩, ⟨?builds, ?buildsKept⟩, ?build, ?buildKept⟩
  case jobs =>
    intro events scope session
    have hscope := Keeper.scope_of_session JobListScope.load_followed
      JobListScope.operations_followed session
    exact hscope.trans (JobListScope.after_start _)
  case builds =>
    intro job events scope session
    have hscope := Keeper.scope_of_session JobBuildsScope.update_followed
      JobBuildsScope.operations_followed session
    exact hscope.trans (JobBuildsScope.after_start job _)
  case build =>
    intro job build events scope session
    have hscope := Keeper.scope_of_session BuildStateScope.load_followed
      BuildStateScope.operations_followed session
    obtain rfl := hscope.trans (BuildStateScope.after_start job build _)
    exact ⟨rfl, Option.isSome_map.trans Option.isSome_map.symm⟩
  case jobsKept =>
    intro operation known scope events next run hnone
    exact (JobListScope.operations_followed operation known).unchanged run hnone
  case buildsKept =>
    intro operation known scope events next run hnone
    exact (JobBuildsScope.operations_followed operation known).unchanged run hnone
  case buildKept =>
    intro operation known scope events next run hnone
    exact (BuildStateScope.operations_followed operation known).unchanged run hnone

/-- A listing that fails, and then a trigger whose receipt is unreadable but whose refresh is not. -/
theorem scope_after_refresh :
    ∃ scope,
      Session (JobBuildsScope.activate ⟨"web"⟩) JobBuildsScope.operations
        [.sent ⟨.listBuilds ⟨"web"⟩, none⟩ (.status 500),
          .sent ⟨.triggerBuild ⟨"web"⟩, none⟩ (.body []),
          .sent ⟨.listBuilds ⟨"web"⟩, none⟩ (.body (utf8 "[[1,2]]"))] scope ∧
      scope = ⟨⟨"web"⟩, some (sortNewestFirst [⟨1⟩, ⟨2⟩])⟩ := by
  have opened : Session (JobBuildsScope.activate ⟨"web"⟩) JobBuildsScope.operations
      [.sent ⟨.listBuilds ⟨"web"⟩, none⟩ (.status 500)] ⟨⟨"web"⟩, none⟩ :=
    .opened (run_ask.mpr ⟨_, rfl, rfl⟩)
  have triggered := opened.continued (List.mem_cons_of_mem _ List.mem_cons_self)
    (run_bind_pure.mpr ⟨_, JobBuildsScope.run_trigger.mpr
      (.inl ⟨[], .body (utf8 "[[1,2]]"), rfl, rfl, rfl⟩), rfl⟩)
  have hlast : lastReceived BuildListing (.listBuilds ⟨"web"⟩)
      [.sent ⟨.listBuilds ⟨"web"⟩, none⟩ (.status 500),
        .sent ⟨.triggerBuild ⟨"web"⟩, none⟩ (.body []),
        .sent ⟨.listBuilds ⟨"web"⟩, none⟩ (.body (utf8 "[[1,2]]"))] =
      some ⟨[⟨1⟩, ⟨2⟩], none⟩ := by
    decide
  refine ⟨_, triggered, (scope_after_session.2.1.1 _ _ _ triggered).trans ?_⟩
  exact congrArg (JobBuildsScope.mk ⟨"web"⟩ ·) (congrArg _ hlast)

end BuildBrowser
