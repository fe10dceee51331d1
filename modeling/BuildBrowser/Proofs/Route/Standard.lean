import BuildBrowser.Proofs.Route.Pattern
import BuildBrowser.Proofs.Route.Resolve

/-!
# Canonical paths in the browser's own table

`routeOf?` reads the browser's own table as a function of the segments of a path, and
`route?_standard` says that this is what matching the table's patterns comes to. A canonical path is a
path of encoded segments, whose own segments are known (`pathSegments_absolutePath`), so its route is
computed with no pattern in sight.

What comes of an empty identifier depends on where it is. At the end of a path, trimming takes its
segment away: the path of a job without a name is that of the job list, and the path of a build
without a name has a segment too few. Inside a path its segment stays and nothing captures it. In all
three cases the browser ends at the job list (`route?_path_of_empty`).
-/

namespace BuildBrowser

/-! ## Segments at the ends -/

namespace Text

theorem stripEmpty_concat_nil (pieces : List (List Char)) :
    stripEmpty (pieces ++ [[]]) = stripEmpty pieces := by
  rw [stripEmpty, stripEmpty, List.dropWhile_append]
  split
  · next h =>
    rw [List.isEmpty_iff.mp h]
    rfl
  · exact List.rdropWhile_concat_pos _ _ _ rfl

theorem stripEmpty_of_ends {first last : List Char} (middle : List (List Char))
    (hfirst : first ≠ []) (hlast : last ≠ []) :
    stripEmpty (first :: middle ++ [last]) = first :: middle ++ [last] := by
  have hdrop : (first :: (middle ++ [last])).dropWhile List.isEmpty = first :: (middle ++ [last]) :=
    List.dropWhile_cons_of_neg (by simpa using hfirst)
  rw [stripEmpty, List.cons_append, hdrop, ← List.cons_append]
  exact List.rdropWhile_concat_neg _ _ _ (by simpa using hlast)

end Text

namespace RouteTable

/-- The route that segments name in the browser's own table. -/
def routeOf? : List (List Char) → Option Route
  | [jobs] => if "jobs".toList = jobs then some .jobs else none
  | [jobs, job] =>
    if "jobs".toList = jobs then
      if job.isEmpty then none
      else some (.jobBuilds ⟨String.ofList (Segment.decodeChars job)⟩)
    else none
  | [jobs, job, builds, build] =>
    if "jobs".toList = jobs then
      if job.isEmpty then none
      else if "builds".toList = builds then
        if build.isEmpty then none
        else
          some (.buildState ⟨String.ofList (Segment.decodeChars job)⟩
            (String.ofList (Segment.decodeChars build)))
      else none
    else none
  | _ => none

theorem standard_entries : standard.entries =
    [⟨⟨"/jobs", [.literal "jobs".toList]⟩, .jobList⟩,
      ⟨⟨"/jobs/:jobid", [.literal "jobs".toList, .capture "jobid"]⟩, .jobBuilds⟩,
      ⟨⟨"/jobs/:jobid/builds/:build",
        [.literal "jobs".toList, .capture "jobid", .literal "builds".toList, .capture "build"]⟩,
        .buildState⟩] := by
  decide

theorem route?_standard (path : String) :
    standard.route? path = routeOf? (pathSegments path.toList) := by
  rw [route?, standard_entries]
  simp only [List.findSome?, RouteEntry.route?, Pattern.match?]
  generalize pathSegments path.toList = segments
  -- at most one pattern is as long as the path
  rcases segments with _ | ⟨jobs, _ | ⟨job, _ | ⟨builds, _ | ⟨build, _ | ⟨more, others⟩⟩⟩⟩⟩
  case nil => rfl
  case cons.nil =>
    simp (disch := simp) only [Pattern.captures_of_length_ne, Option.bind_none]
    rw [Pattern.captures_literal, routeOf?]
    by_cases hjobs : "jobs".toList = jobs
    · simp only [if_pos hjobs]
      rfl
    · simp only [if_neg hjobs]
      rfl
  case cons.cons.nil =>
    simp (disch := simp) only [Pattern.captures_of_length_ne, Option.bind_none]
    rw [Pattern.captures_literal, Pattern.captures_capture, routeOf?]
    by_cases hjobs : "jobs".toList = jobs
    · cases job <;> simp only [if_pos hjobs, List.isEmpty_nil, List.isEmpty_cons] <;> rfl
    · simp only [if_neg hjobs]
      rfl
  case cons.cons.cons.nil =>
    simp (disch := simp) only [Pattern.captures_of_length_ne, Option.bind_none, routeOf?]
  case cons.cons.cons.cons.nil =>
    simp (disch := simp) only [Pattern.captures_of_length_ne, Option.bind_none]
    rw [Pattern.captures_literal, Pattern.captures_capture, Pattern.captures_literal,
      Pattern.captures_capture, routeOf?]
    by_cases hjobs : "jobs".toList = jobs
    · by_cases hbuilds : "builds".toList = builds
      · cases job <;> cases build <;>
          simp only [if_pos hjobs, if_pos hbuilds, List.isEmpty_nil, List.isEmpty_cons] <;> rfl
      · cases job <;>
          simp only [if_pos hjobs, if_neg hbuilds, List.isEmpty_nil, List.isEmpty_cons] <;> rfl
    · simp only [if_neg hjobs]
      rfl
  case cons.cons.cons.cons.cons =>
    simp (disch := simp) only [Pattern.captures_of_length_ne, Option.bind_none, routeOf?]

/-- A path without a route leads to the job list. -/
theorem navigate_standard_of_none {path : String} (h : standard.route? path = none) :
    standard.navigate path = .jobs := by
  have hotherwise : standard.route? standard.otherwise = some .jobs := by decide
  rw [navigate_of_unrouted (route?_eq_none.mp h), navigate_of_route? hotherwise]

/-! ## Canonical paths -/

theorem encodeChars_ne_nil {s : String} (h : s ≠ "") : Segment.encodeChars s.toList ≠ [] := by
  rw [ne_eq, Segment.encodeChars_eq_nil, String.toList_eq_nil_iff]
  exact h

theorem ofList_decodeChars (s : String) :
    String.ofList (Segment.decodeChars (Segment.encodeChars s.toList)) = s := by
  rw [Segment.decodeChars_encodeChars, String.ofList_toList]

/-- The route of the path of segments. -/
theorem route?_absolutePath (segments : List String) :
    standard.route? (absolutePath segments) =
      routeOf? (Text.stripEmpty (segments.map fun s => Segment.encodeChars s.toList)) := by
  rw [route?_standard, pathSegments_absolutePath]

/-- **A route whose identifiers are not empty is the route of its canonical path.** -/
theorem route?_path {r : Route} (h : ∀ id ∈ r.identifiers, id ≠ "") :
    standard.route? r.path = some r := by
  rw [Route.path, route?_absolutePath]
  cases r with
  | jobs => rfl
  | jobBuilds job =>
    have hjob : Segment.encodeChars job.text.toList ≠ [] :=
      encodeChars_ne_nil (h _ List.mem_cons_self)
    have hsegments : Text.stripEmpty
        ((Route.jobBuilds job).segments.map fun s => Segment.encodeChars s.toList) =
        ["jobs".toList, Segment.encodeChars job.text.toList] :=
      Text.stripEmpty_of_ends [] (by decide) hjob
    rw [hsegments, routeOf?, if_pos rfl, if_neg (by simpa using hjob), ofList_decodeChars]
  | buildState job build =>
    have hjob : Segment.encodeChars job.text.toList ≠ [] :=
      encodeChars_ne_nil (h _ List.mem_cons_self)
    have hbuild : Segment.encodeChars build.toList ≠ [] :=
      encodeChars_ne_nil (h _ (List.mem_cons_of_mem _ List.mem_cons_self))
    have hsegments : Text.stripEmpty
        ((Route.buildState job build).segments.map fun s => Segment.encodeChars s.toList) =
        ["jobs".toList, Segment.encodeChars job.text.toList, "builds".toList,
          Segment.encodeChars build.toList] := by
      exact Text.stripEmpty_of_ends [_, _] (by decide) hbuild
    rw [hsegments, routeOf?, if_pos rfl, if_neg (by simpa using hjob), if_pos rfl,
      if_neg (by simpa using hbuild), ofList_decodeChars, ofList_decodeChars]

/-- The canonical path of a route with an empty identifier has another route, that of the job list,
or none. -/
theorem route?_path_of_empty {r : Route} (h : "" ∈ r.identifiers) :
    r ≠ .jobs ∧ (standard.route? r.path = some .jobs ∨ standard.route? r.path = none) := by
  rw [Route.path, route?_absolutePath]
  cases r with
  | jobs => cases h
  | jobBuilds job =>
    refine ⟨Route.noConfusion, .inl ?_⟩
    have hjob : job.text = "" := (List.mem_singleton.mp h).symm
    rw [Route.segments, hjob]
    rfl
  | buildState job build =>
    refine ⟨Route.noConfusion, .inr ?_⟩
    by_cases hbuild : build = ""
    · rw [hbuild]
      have hsegments : Text.stripEmpty
          ((Route.buildState job "").segments.map fun s => Segment.encodeChars s.toList) =
          ["jobs".toList, Segment.encodeChars job.text.toList, "builds".toList] := by
        refine (Text.stripEmpty_concat_nil [_, _, _]).trans ?_
        exact Text.stripEmpty_of_ends [_] (by decide) (by decide)
      rw [hsegments]
      rfl
    · have hjob : job.text = "" := by
        rcases List.mem_cons.mp h with hjob | hother
        · exact hjob.symm
        · exact absurd (List.mem_singleton.mp hother).symm hbuild
      have hsegments : Text.stripEmpty
          ((Route.buildState job build).segments.map fun s => Segment.encodeChars s.toList) =
          ["jobs".toList, [], "builds".toList, Segment.encodeChars build.toList] := by
        rw [Route.segments, hjob]
        exact Text.stripEmpty_of_ends [_, _] (by decide) (encodeChars_ne_nil hbuild)
      rw [hsegments]
      rfl

/-- **Canonical paths round-trip exactly when no identifier is empty.** With an empty identifier the
path does not resolve to its route, and the browser ends at the job list. -/
theorem navigate_canonical_path (r : Route) :
    ((∀ id ∈ r.identifiers, id ≠ "") →
        standard.resolve r.path = .matched r ∧ standard.navigate r.path = r) ∧
      ("" ∈ r.identifiers →
        standard.resolve r.path ≠ .matched r ∧ standard.navigate r.path = .jobs) ∧
      (standard.navigate r.path = r ↔ ∀ id ∈ r.identifiers, id ≠ "") := by
  have hnamed (h : ∀ id ∈ r.identifiers, id ≠ "") :
      standard.resolve r.path = .matched r ∧ standard.navigate r.path = r :=
    ⟨resolve_of_route? (route?_path h), navigate_of_route? (route?_path h)⟩
  have hempty (h : "" ∈ r.identifiers) :
      r ≠ .jobs ∧ standard.resolve r.path ≠ .matched r ∧ standard.navigate r.path = .jobs := by
    obtain ⟨hr, hroute | hroute⟩ := route?_path_of_empty h
    · refine ⟨hr, ?_, navigate_of_route? hroute⟩
      rw [resolve_of_route? hroute]
      exact fun heq => hr (Resolution.matched.inj heq).symm
    · refine ⟨hr, ?_, navigate_standard_of_none hroute⟩
      rw [resolve, hroute]
      exact Resolution.noConfusion
  refine ⟨hnamed, fun h => (hempty h).2, ?_, fun h => (hnamed h).2⟩
  intro hnavigate id hid hnil
  obtain ⟨hr, _, hjobs⟩ := hempty (hnil ▸ hid)
  exact hr (hnavigate.symm.trans hjobs)

example : standard.navigate (Route.buildState ⟨"a/b?%2F:"⟩ "..").path =
    .buildState ⟨"a/b?%2F:"⟩ ".." := by
  decide

end RouteTable

end BuildBrowser
