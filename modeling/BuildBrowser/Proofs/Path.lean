import BuildBrowser.Proofs.Segment
import BuildBrowser.Proofs.Text.Split
import BuildBrowser.Route.Pattern
import BuildBrowser.Endpoint

/-!
# Paths of encoded segments

`absolutePath` puts each segment, encoded, after a slash. No slash and no mark of a query or a
fragment is in an encoded segment, so the path can be taken apart again:

- `splitOn_absolutePath`: its pieces between slashes are an empty one and the encoded segments;
- `absolutePath_injective`: so it determines its segments;
- `pathSegments_absolutePath`: as a path of the browser, it has the encoded segments without the
  empty ones at the end. Empty segments elsewhere stay.
-/

namespace BuildBrowser

/-- The path between slashes: an empty piece, and each segment encoded. -/
theorem splitOn_absolutePath (segments : List String) :
    Text.splitOn '/' (absolutePath segments).toList =
      [] :: segments.map fun s => Segment.encodeChars s.toList := by
  have hpath : (absolutePath segments).toList =
      (segments.map fun s => Segment.encodeChars s.toList).flatMap ('/' :: ·) := by
    rw [absolutePath, String.toList_ofList, List.flatMap_map]
  rw [hpath]
  refine Text.splitOn_flatMap ?_
  intro piece hpiece
  obtain ⟨s, _, rfl⟩ := List.mem_map.mp hpiece
  exact Segment.not_mem_encodeChars (by decide) (by decide) _

/-- A path of encoded segments has slashes and characters of encoded texts only. -/
theorem mem_absolutePath {c : Char} {segments : List String} (h : c ∈ (absolutePath segments).toList) :
    c = '/' ∨ ∃ s : String, c ∈ Segment.encodeChars s.toList := by
  rw [absolutePath, String.toList_ofList] at h
  obtain ⟨s, _, hs⟩ := List.mem_flatMap.mp h
  rcases List.mem_cons.mp hs with h | h
  · exact .inl h
  · exact .inr ⟨s, h⟩

theorem absolutePath_append (segments more : List String) :
    absolutePath (segments ++ more) = absolutePath segments ++ absolutePath more := by
  rw [absolutePath, List.flatMap_append, String.ofList_append, absolutePath, absolutePath]

theorem decode_encode (s : String) :
    Segment.decode (String.ofList (Segment.encodeChars s.toList)) = s := by
  rw [Segment.decode, String.toList_ofList, Segment.decodeChars_encodeChars, String.ofList_toList]

/-- A path of encoded segments determines the segments. -/
theorem absolutePath_injective : Function.Injective absolutePath := by
  intro segments others h
  have hpieces := splitOn_absolutePath segments
  rw [h, splitOn_absolutePath] at hpieces
  have hdecoded := congrArg (List.map fun piece => Segment.decode (String.ofList piece))
    (List.cons.inj hpieces).2
  simpa only [List.map_map, Function.comp_def, decode_encode, List.map_id'] using hdecoded.symm

/-! ## As a path of the browser -/

theorem pathSegments_eq (path : List Char) :
    pathSegments path =
      Text.stripEmpty (Text.splitOn '/' (path.takeWhile fun c => c ≠ '?' && c ≠ '#')) := by
  rw [Text.stripEmpty_splitOn, pathSegments]
  simp only [List.isEmpty_iff]

/-- A path of encoded segments has no query and no fragment. -/
theorem takeWhile_absolutePath (segments : List String) :
    ((absolutePath segments).toList.takeWhile fun c => c ≠ '?' && c ≠ '#') =
      (absolutePath segments).toList := by
  refine List.takeWhile_eq_self_iff.mpr ?_
  intro c hc
  have hmark {d : Char} (hslash : d ≠ '/') (hbare : Segment.isBare d = false) (hpercent : d ≠ '%') :
      c ≠ d := by
    rintro rfl
    rcases mem_absolutePath hc with h | ⟨s, h⟩
    · exact hslash h
    · exact Segment.not_mem_encodeChars hbare hpercent _ h
  have hquery : c ≠ '?' := hmark (by decide) (by decide) (by decide)
  have hfragment : c ≠ '#' := hmark (by decide) (by decide) (by decide)
  simp [hquery, hfragment]

/-- **The segments of a path of encoded segments**: those that it was made of, encoded, without the
empty ones at the ends. -/
theorem pathSegments_absolutePath (segments : List String) :
    pathSegments (absolutePath segments).toList =
      Text.stripEmpty (segments.map fun s => Segment.encodeChars s.toList) := by
  rw [pathSegments_eq, takeWhile_absolutePath, splitOn_absolutePath]
  rfl

end BuildBrowser
