import BuildBrowser.Command.Route
import BuildBrowser.Proofs.Command.Call
import BuildBrowser.Proofs.Members

/-!
# The first entry that yields a route

Resolving a path interleaves two things that can fail: matching an entry's pattern, and making a route
of its view from what was captured. `RouteEntry.Yields` says when both succeed, and with which route,
without looking at how the captures are taken apart; **the law** is that the first entry for which they
do decides (`RouteTable.resolve_eq_matched`), and that a path for which there is none is redirected
(`RouteTable.resolve_eq_redirect`). So an entry that matches and lacks a name is passed over, and an
entry at the end of the table is looked at last.

A redirect is followed once. The target is a path like any other: it may have no route either, and may
even be the path that was redirected.
-/

namespace BuildBrowser

/-! ## What one entry yields -/

/-- The names that a view needs. -/
def View.needs : View → List String
  | .jobList => []
  | .jobBuilds => ["jobid"]
  | .buildState => ["jobid", "build"]

/-- An entry yields a route for a path: its pattern matches the path, every name that the view needs
was captured, and the route is that view with these captures. -/
def RouteEntry.Yields (entry : RouteEntry) (path : String) (r : Route) : Prop :=
  ∃ captured, entry.pattern.match? path = some captured ∧ r.view = entry.view ∧
    entry.view.needs.map (Members.find? · captured) = r.identifiers.map some

theorem Route.ofView?_eq_some {view : View} {captured : Members String} {r : Route} :
    Route.ofView? view captured = some r ↔
      r.view = view ∧ view.needs.map (Members.find? · captured) = r.identifiers.map some := by
  cases view with
  | jobList => cases r <;> simp [ofView?, Route.view, View.needs, identifiers]
  | jobBuilds =>
    cases hjob : Members.find? "jobid" captured with
    | none => cases r <;> simp [ofView?, Route.view, View.needs, identifiers, hjob]
    | some text =>
      rcases r with _ | ⟨⟨job⟩⟩ | _ <;> simp [ofView?, Route.view, View.needs, identifiers, hjob]
  | buildState =>
    cases hjob : Members.find? "jobid" captured with
    | none => cases r <;> simp [ofView?, Route.view, View.needs, identifiers, hjob]
    | some text =>
      cases hbuild : Members.find? "build" captured with
      | none => cases r <;> simp [ofView?, Route.view, View.needs, identifiers, hjob, hbuild]
      | some build =>
        rcases r with _ | _ | ⟨⟨job⟩, _⟩ <;>
          simp [ofView?, Route.view, View.needs, identifiers, hjob, hbuild]

theorem RouteEntry.route?_eq_some {entry : RouteEntry} {path : String} {r : Route} :
    entry.route? path = some r ↔ entry.Yields path r := by
  simp only [route?, Option.bind_eq_some_iff, Route.ofView?_eq_some, Yields]

theorem RouteEntry.route?_eq_none {entry : RouteEntry} {path : String} :
    entry.route? path = none ↔ ∀ r, ¬entry.Yields path r := by
  simp only [Option.eq_none_iff_forall_ne_some, ne_eq, route?_eq_some]

/-! ## What a table yields -/

namespace RouteTable

variable {table : RouteTable} {path : String} {r : Route}

/-- The first entry that yields a route for a path yields this one. -/
def FirstYields (table : RouteTable) (path : String) (r : Route) : Prop :=
  ∃ before entry after, table.entries = before ++ entry :: after ∧ entry.Yields path r ∧
    ∀ earlier ∈ before, ∀ other, ¬earlier.Yields path other

/-- No entry yields a route for a path. -/
def Unrouted (table : RouteTable) (path : String) : Prop :=
  ∀ entry ∈ table.entries, ∀ r, ¬entry.Yields path r

theorem route?_eq_some : table.route? path = some r ↔ table.FirstYields path r := by
  simp only [route?, List.findSome?_eq_some_iff, RouteEntry.route?_eq_some,
    RouteEntry.route?_eq_none, FirstYields]

theorem route?_eq_none : table.route? path = none ↔ table.Unrouted path := by
  simp only [route?, List.findSome?_eq_none_iff, RouteEntry.route?_eq_none, Unrouted]

theorem resolve_of_route? (h : table.route? path = some r) : table.resolve path = .matched r := by
  rw [resolve, h]

theorem resolve_of_unrouted (h : table.Unrouted path) :
    table.resolve path = .redirect table.otherwise := by
  rw [resolve, route?_eq_none.mpr h]

/-- **The first entry that yields a route decides.** -/
theorem resolve_eq_matched : table.resolve path = .matched r ↔ table.FirstYields path r := by
  rw [← route?_eq_some, resolve]
  cases table.route? path <;> simp

/-- **A path is redirected if no entry yields a route for it**, and to one path only. -/
theorem resolve_eq_redirect {target : String} :
    table.resolve path = .redirect target ↔ table.Unrouted path ∧ target = table.otherwise := by
  rw [← route?_eq_none, resolve]
  cases table.route? path <;> simp [eq_comm]

theorem navigate_of_route? (h : table.route? path = some r) : table.navigate path = r := by
  rw [navigate, resolve_of_route? h]

/-- A path without a route leads where the path leads that it is redirected to. -/
theorem navigate_of_unrouted (h : table.Unrouted path) :
    table.navigate path = table.navigate table.otherwise := by
  cases hroute : table.route? table.otherwise with
  | some r => simp only [navigate, resolve_of_unrouted h, resolve_of_route? hroute]
  | none => simp only [navigate, resolve_of_unrouted h, resolve_of_unrouted (route?_eq_none.mp hroute)]

/-- The redirect is followed once, and ends at the job list if its target has no route. -/
theorem navigate_otherwise_of_unrouted (h : table.Unrouted table.otherwise) :
    table.navigate table.otherwise = .jobs := by
  simp only [navigate, resolve_of_unrouted h]

theorem route?_when (pattern : String) (view : View) :
    (table.when pattern view).route? path =
      (table.route? path).or (RouteEntry.route? ⟨.ofText pattern, view⟩ path) := by
  rw [route?, when, List.findSome?_append, List.findSome?_singleton, route?]

/-- An entry at the end of a table takes no path from those before it. -/
theorem resolve_when_of_matched (h : table.resolve path = .matched r) (pattern : String)
    (view : View) : (table.when pattern view).resolve path = .matched r := by
  have hroute := route?_eq_some.mpr (resolve_eq_matched.mp h)
  exact resolve_of_route? (by rw [route?_when, hroute, Option.some_or])

/-- A path without a route gets one from a new entry only. -/
theorem resolve_when_of_unrouted (h : table.Unrouted path) (pattern : String) (view : View) :
    (table.when pattern view).resolve path = .matched r ↔
      RouteEntry.Yields ⟨.ofText pattern, view⟩ path r := by
  rw [resolve_eq_matched, ← route?_eq_some, route?_when, route?_eq_none.mpr h, Option.none_or,
    RouteEntry.route?_eq_some]

end RouteTable

/-! ## What is reported -/

namespace RouteReport

/-- The text of a report starts with a line for the redirect if there is one, and with that for the
view otherwise. -/
theorem redirect_prefix_text (colour : Colour) (report : RouteReport) :
    (label colour "Redirect:").toList <+: (report.text colour).toList ↔ report.redirect.isSome := by
  cases hredirect : report.redirect with
  | some target => cases colour <;> simp [text, hredirect, fieldLine]
  | none => cases colour <;> simp [text, hredirect, fieldLine, label, paint]

/-- The members of a report's value. -/
theorem toValue_eq (report : RouteReport) :
    ∃ members, report.toValue = .object members ∧
      ("redirected_to" ∈ Members.names members ↔ report.redirect.isSome) ∧
      Members.find? "route" members = some report.route.toValue := by
  refine ⟨_, rfl, ?_, ?_⟩ <;> cases report.redirect <;>
    simp [Json.memberIfSome, Members.names, Members.find?]

/-- A report tells where a path leads in a table. Its route is the one that the path leads to in the
end, in both forms; a redirect is told exactly if the path has no route of its own, in both forms. -/
structure Tells (report : RouteReport) (table : RouteTable) (path : String) : Prop where
  path_eq : report.path = path
  route_eq : report.route = table.navigate path
  redirect_eq : ∀ target,
    report.redirect = some target ↔ table.Unrouted path ∧ target = table.otherwise
  text_redirect : ∀ colour,
    (label colour "Redirect:").toList <+: (report.text colour).toList ↔ table.Unrouted path
  text_route : ∀ colour, ∃ above,
    report.text colour = above ++ fieldLine colour "Path" (table.navigate path).path
  value : ∃ members, report.toValue = .object members ∧
    ("redirected_to" ∈ Members.names members ↔ table.Unrouted path) ∧
    Members.find? "route" members = some (table.navigate path).toValue

/-- The report of a path tells where the path leads. -/
theorem tells_ofPath (table : RouteTable) (path : String) : (ofPath table path).Tells table path := by
  have hredirect (target : String) :
      (ofPath table path).redirect = some target ↔ table.Unrouted path ∧ target = table.otherwise := by
    rw [← RouteTable.resolve_eq_redirect, ofPath]
    cases table.resolve path <;> simp
  have hsome : (ofPath table path).redirect.isSome ↔ table.Unrouted path := by
    simp only [Option.isSome_iff_exists, hredirect, exists_and_left, exists_eq, and_true]
  refine ⟨rfl, rfl, hredirect, fun colour => ?_, fun colour => ⟨_, rfl⟩, ?_⟩
  · rw [redirect_prefix_text, hsome]
  · obtain ⟨members, hvalue, hnames, hroute⟩ := (ofPath table path).toValue_eq
    exact ⟨members, hvalue, hnames.trans hsome, hroute⟩

end RouteReport

/-- **The first usable entry wins, and a redirect is followed once.** A path resolves to the route that
the first entry yields of those that yield one, and to the redirect of its table if there is none. An
entry that is added at the end changes nothing for paths that had a route, and is alone in giving one
to others. Navigation goes on from the redirect, once, and ends at the job list if that has no route.
The route command reports both. -/
theorem first_usable_entry_wins :
    (∀ (table : RouteTable) (path : String),
      (∀ r, table.resolve path = .matched r ↔ table.FirstYields path r) ∧
      ∀ target, table.resolve path = .redirect target ↔
        table.Unrouted path ∧ target = table.otherwise) ∧
    (∀ (table : RouteTable) (pattern : String) (view : View) (path : String),
      (∀ r, table.resolve path = .matched r → (table.when pattern view).resolve path = .matched r) ∧
      (table.Unrouted path → ∀ r, (table.when pattern view).resolve path = .matched r ↔
        RouteEntry.Yields ⟨.ofText pattern, view⟩ path r)) ∧
    (∀ (table : RouteTable) (path : String),
      (∀ r, table.FirstYields path r → table.navigate path = r) ∧
      (table.Unrouted path → table.navigate path = table.navigate table.otherwise) ∧
      (table.Unrouted table.otherwise → table.navigate table.otherwise = .jobs)) ∧
    ∀ (table : RouteTable) (p : Presentation) (path : String), ∃ report : RouteReport,
      (∀ events ending, Run (Command.route table p path) events ending ↔
        events = [.wrote (.output
          (utf8 (present p.format report.toValue (.whole (report.text p.colour))).text))] ∧
        ending = .success) ∧
      report.Tells table path := by
  refine ⟨?resolve, ?grown, ?navigate, ?reported⟩
  case resolve =>
    intro table path
    exact ⟨fun r => RouteTable.resolve_eq_matched, fun target => RouteTable.resolve_eq_redirect⟩
  case grown =>
    intro table pattern view path
    refine ⟨fun r h => RouteTable.resolve_when_of_matched h pattern view, fun h r => ?_⟩
    exact RouteTable.resolve_when_of_unrouted h pattern view
  case navigate =>
    intro table path
    refine ⟨fun r h => ?_, RouteTable.navigate_of_unrouted,
      RouteTable.navigate_otherwise_of_unrouted⟩
    exact RouteTable.navigate_of_route? (RouteTable.route?_eq_some.mpr h)
  case reported =>
    intro table p path
    exact ⟨_, fun events ending => Command.run_print_present, RouteReport.tells_ofPath table path⟩

/-- An entry that matches and lacks the name that its view needs is passed over for one that has it,
and an entry that is added for the same paths is not looked at. A redirect to a path without a route
ends at the job list. -/
theorem first_usable_entry_wins_over_lacking :
    let table := ((RouteTable.empty "/nowhere").when "/:other/:build" .jobBuilds).when "/a/:jobid"
      .jobBuilds
    table.resolve "/a/b" = .matched (.jobBuilds ⟨"b"⟩) ∧
      (table.when "/a/b" .jobList).resolve "/a/b" = .matched (.jobBuilds ⟨"b"⟩) ∧
      table.resolve "/c" = .redirect "/nowhere" ∧ table.navigate "/c" = .jobs := by
  intro table
  have hmatched : table.resolve "/a/b" = .matched (.jobBuilds ⟨"b"⟩) := by decide
  have hredirect : table.resolve "/c" = .redirect "/nowhere" := by decide
  have hotherwise : table.resolve "/nowhere" = .redirect "/nowhere" := by decide
  have hunrouted {path : String} (h : table.resolve path = .redirect "/nowhere") :
      table.Unrouted path :=
    ((first_usable_entry_wins.1 table path).2 _).mp h |>.1
  obtain ⟨-, hfollow, hend⟩ := first_usable_entry_wins.2.2.1 table "/c"
  refine ⟨hmatched, (first_usable_entry_wins.2.1 table "/a/b" .jobList "/a/b").1 _ hmatched,
    hredirect, ?_⟩
  exact (hfollow (hunrouted hredirect)).trans (hend (hunrouted hotherwise))

end BuildBrowser
