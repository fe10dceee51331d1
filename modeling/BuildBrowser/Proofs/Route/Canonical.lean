import BuildBrowser.Proofs.Route.Standard

/-!
# Every path has a canonical one

A path may be anything: with slashes too many, a query, escapes that are no escapes, or bytes that are
not UTF-8. The browser's own table still leads it to a route that has no empty identifier
(`ne_empty_of_navigate`), because a capture takes a segment that is not empty, and no such segment is
decoded as nothing. So the route has a canonical path that leads to it, which makes the canonical path
of a path its normal form.
-/

namespace BuildBrowser

namespace RouteTable

theorem ofList_decodeChars_ne_empty {segment : List Char} (h : ¬segment.isEmpty = true) :
    String.ofList (Segment.decodeChars segment) ≠ "" := by
  intro hempty
  have hdecoded := String.ofList_eq_empty_iff.mp hempty
  exact h (List.isEmpty_iff.mpr (Segment.decodeChars_eq_nil.mp hdecoded))

/-- A route that segments name has no empty identifier. -/
theorem ne_empty_of_routeOf? {segments : List (List Char)} {r : Route}
    (h : routeOf? segments = some r) : ∀ id ∈ r.identifiers, id ≠ "" := by
  unfold routeOf? at h
  split at h
  · simp only [Option.ite_none_right_eq_some, Option.some.injEq] at h
    obtain ⟨_, rfl⟩ := h
    exact List.forall_mem_nil _
  · simp only [Option.ite_none_right_eq_some, Option.ite_none_left_eq_some,
      Option.some.injEq] at h
    obtain ⟨_, hjob, rfl⟩ := h
    exact List.forall_mem_singleton.mpr (ofList_decodeChars_ne_empty hjob)
  · simp only [Option.ite_none_right_eq_some, Option.ite_none_left_eq_some,
      Option.some.injEq] at h
    obtain ⟨_, hjob, _, hbuild, rfl⟩ := h
    exact List.forall_mem_cons.mpr ⟨ofList_decodeChars_ne_empty hjob,
      List.forall_mem_singleton.mpr (ofList_decodeChars_ne_empty hbuild)⟩
  · cases h

/-- Whatever a path is, the route that it leads to has no empty identifier. -/
theorem ne_empty_of_navigate (path : String) :
    ∀ id ∈ (standard.navigate path).identifiers, id ≠ "" := by
  cases hroute : standard.route? path with
  | none =>
    rw [navigate_standard_of_none hroute]
    exact List.forall_mem_nil _
  | some r =>
    rw [navigate_of_route? hroute]
    rw [route?_standard] at hroute
    exact ne_empty_of_routeOf? hroute

/-- So the canonical path of that route has the route. -/
theorem route?_path_navigate (path : String) :
    standard.route? (standard.navigate path).path = some (standard.navigate path) :=
  route?_path (ne_empty_of_navigate path)

/-- **Every path canonicalizes.** The route that it leads to names everything that it shows, and is
the route of its own canonical path; so taking the canonical path twice is taking it once, and paths
that lead to different routes have different canonical paths. -/
theorem path_canonicalizes :
    (∀ path, (∀ id ∈ (standard.navigate path).identifiers, id ≠ "") ∧
      standard.resolve (standard.navigate path).path = .matched (standard.navigate path)) ∧
    (∀ path, (standard.navigate (standard.navigate path).path).path =
      (standard.navigate path).path) ∧
    (∀ path other, standard.navigate path ≠ standard.navigate other →
      (standard.navigate path).path ≠ (standard.navigate other).path) := by
  have hback (path : String) :
      standard.navigate (standard.navigate path).path = standard.navigate path :=
    navigate_of_route? (route?_path_navigate path)
  refine ⟨?matched, ?idempotent, ?separates⟩
  case matched =>
    intro path
    exact ⟨ne_empty_of_navigate path, resolve_of_route? (route?_path_navigate path)⟩
  case idempotent =>
    intro path
    rw [hback]
  case separates =>
    intro path other hroutes hpaths
    apply hroutes
    rw [← hback path, hpaths, hback]

example : (standard.navigate "//jobs/a%2/builds/%FF%zz/?x=/#y").path =
    "/jobs/a%252/builds/%EF%BF%BD%25zz" := by
  decide

end RouteTable

end BuildBrowser
