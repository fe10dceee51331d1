import BuildBrowser.Proofs.Route.Segments
import BuildBrowser.Route.Table

/-!
# What stands around a path

Slashes at its ends and a query or a fragment behind it are no part of what a path says. The segments
are the same with them and without (`pathSegments_surrounded`), and segments are all that a pattern is
made of and all that is matched. **The law** is that nothing told of a path or of a pattern text
depends on its surroundings (`surroundings_never_matter`).

The order in which the path is taken apart is what makes it so: it is cut at the first mark before its
slashes are taken off, so slashes before the mark go and slashes after it are never seen.
-/

namespace BuildBrowser

/-- A path between slashes, and what follows them. -/
def surrounded (before : Nat) (path : String) (after : Nat) (tail : String) : String :=
  String.ofList (List.replicate before '/' ++ path.toList ++ List.replicate after '/' ++ tail.toList)

/-- A path without a mark has no part that is not read. -/
theorem HasSegments.exists_unmarked {path : List Char} {segments : List (List Char)}
    (h : HasSegments path segments) (hquery : '?' ∉ path) (hfragment : '#' ∉ path) :
    ∃ before after, path =
      List.replicate before '/' ++ ['/'].intercalate segments ++ List.replicate after '/' := by
  obtain ⟨before, after, tail, rfl, htail⟩ := h.written
  cases tail with
  | nil => exact ⟨before, after, List.append_nil _⟩
  | cons c tail =>
    have hc := List.mem_append_right (List.replicate before '/' ++ ['/'].intercalate segments ++
      List.replicate after '/') (List.mem_cons_self : c ∈ c :: tail)
    rcases htail c rfl with rfl | rfl
    · exact absurd hc hquery
    · exact absurd hc hfragment

/-- **The surroundings of a path are not told by its segments.** -/
theorem pathSegments_surrounded {path tail : String} (hquery : '?' ∉ path.toList)
    (hfragment : '#' ∉ path.toList) (htail : Unread tail.toList) (before after : Nat) :
    pathSegments (surrounded before path after tail).toList = pathSegments path.toList := by
  have hsegments := hasSegments_pathSegments path.toList
  obtain ⟨slashes, more, hwritten⟩ := hsegments.exists_unmarked hquery hfragment
  refine pathSegments_eq_iff.mpr
    ⟨⟨before + slashes, more + after, tail.toList, ?written, htail⟩, hsegments.plain,
      hsegments.first, hsegments.last⟩
  -- the slashes around the path join those that it has at its ends
  calc (surrounded before path after tail).toList
      = List.replicate before '/' ++ path.toList ++ List.replicate after '/' ++ tail.toList :=
        String.toList_ofList
    _ = List.replicate before '/' ++ (List.replicate slashes '/' ++
          ['/'].intercalate (pathSegments path.toList) ++ List.replicate more '/') ++
          List.replicate after '/' ++ tail.toList := by rw [← hwritten]
    _ = List.replicate (before + slashes) '/' ++ ['/'].intercalate (pathSegments path.toList) ++
          List.replicate (more + after) '/' ++ tail.toList := by
        simp only [List.replicate_add, List.append_assoc]

/-! ## What depends on the segments alone -/

theorem Pattern.match?_congr_path {path other : String}
    (h : pathSegments path.toList = pathSegments other.toList) (pattern : Pattern) :
    pattern.match? path = pattern.match? other := by
  rw [match?, match?, h]

theorem Pattern.match?_congr_text {text other : String}
    (h : pathSegments text.toList = pathSegments other.toList) (path : String) :
    (ofText text).match? path = (ofText other).match? path := by
  rw [match?, match?, ofText, ofText, h]

theorem RouteTable.resolve_congr {path other : String}
    (h : pathSegments path.toList = pathSegments other.toList) (table : RouteTable) :
    table.resolve path = table.resolve other := by
  have hroute : table.route? path = table.route? other := by
    simp only [route?, RouteEntry.route?, Pattern.match?_congr_path h]
  rw [resolve, resolve, hroute]

theorem RouteTable.navigate_congr {path other : String}
    (h : pathSegments path.toList = pathSegments other.toList) (table : RouteTable) :
    table.navigate path = table.navigate other := by
  rw [navigate, navigate, resolve_congr h]

/-- **Surroundings of a path never matter.** Slashes around a path that has no mark, and a query or a
fragment behind it, with anything in it, change neither what a table says of the path nor where it
leads, whatever the table; and around the text of a pattern they change none of its matches. -/
theorem surroundings_never_matter {path tail : String} (hquery : '?' ∉ path.toList)
    (hfragment : '#' ∉ path.toList) (htail : Unread tail.toList) (before after : Nat) :
    (∀ table : RouteTable,
      table.resolve (surrounded before path after tail) = table.resolve path ∧
        table.navigate (surrounded before path after tail) = table.navigate path) ∧
    ∀ other : String, (Pattern.ofText (surrounded before path after tail)).match? other =
      (Pattern.ofText path).match? other := by
  have hsegments := pathSegments_surrounded hquery hfragment htail before after
  exact ⟨fun table => ⟨table.resolve_congr hsegments, table.navigate_congr hsegments⟩,
    fun other => Pattern.match?_congr_text hsegments other⟩

/-- A pattern with slashes at its ends and an empty segment, a path that meets it, and a query and a
fragment that hold slashes and more marks. -/
theorem surroundings_of_build :
    '?' ∉ "/jobs//:jobid/".toList ∧ '#' ∉ "/jobs//:jobid/".toList ∧ Unread "?x=/#/?".toList ∧
      surrounded 2 "/jobs//:jobid/" 1 "?x=/#/?" = "///jobs//:jobid//?x=/#/?" ∧
      (Pattern.ofText "///jobs//:jobid//?x=/#/?").match? "jobs//a#" = some [("jobid", "a")] ∧
      RouteTable.standard.navigate (surrounded 2 "jobs/a/builds/b" 1 "?x=/#/?") =
        .buildState ⟨"a"⟩ "b" := by
  have hvariant : surrounded 2 "/jobs//:jobid/" 1 "?x=/#/?" = "///jobs//:jobid//?x=/#/?" := by decide
  have htail : Unread "?x=/#/?".toList := by decide
  refine ⟨by decide, by decide, htail, hvariant, ?pattern, ?path⟩
  case pattern =>
    rw [← hvariant, (surroundings_never_matter (by decide) (by decide) htail 2 1).2 "jobs//a#"]
    decide
  case path =>
    rw [((surroundings_never_matter (by decide) (by decide) htail 2 1).1 RouteTable.standard).2]
    decide

end BuildBrowser
