import BuildBrowser.Proofs.Path
import BuildBrowser.Proofs.Text.Blank

/-!
# The segments of a path, as it is written

`pathSegments` takes a path apart by three scans. Here the same is said of the path as a whole
(`HasSegments`): slashes, the segments with one slash between two, slashes, and then a query or a
fragment, with anything in it, or nothing. There is exactly one way to read a path so
(`pathSegments_eq_iff`), whatever the path is.

Empty segments are kept between two that are not empty and nowhere else, so the number of slashes at
the ends is not told by the segments, and neither is what follows the first mark.
-/

namespace BuildBrowser

/-- The part of a path that is not read: nothing, or a query or a fragment. -/
def Unread (tail : List Char) : Prop :=
  ∀ c ∈ tail.head?, c = '?' ∨ c = '#'

instance : DecidablePred Unread
  | [] => isTrue nofun
  | c :: _ => decidable_of_iff (c = '?' ∨ c = '#') (by simp [Unread])

/-- How a path with segments is written. -/
structure HasSegments (path : List Char) (segments : List (List Char)) : Prop where
  written : ∃ before after tail,
    path = List.replicate before '/' ++ ['/'].intercalate segments ++ List.replicate after '/' ++ tail ∧
      Unread tail
  plain : ∀ segment ∈ segments, ∀ c ∈ segment, c ≠ '/' ∧ c ≠ '?' ∧ c ≠ '#'
  first : segments.head? ≠ some []
  last : segments.getLast? ≠ some []

/-- The part of a path that is read. -/
def readPart (path : List Char) : List Char :=
  path.takeWhile fun c => c ≠ '?' && c ≠ '#'

theorem pathSegments_eq_splitOn (path : List Char) :
    pathSegments path =
      if Text.strip (· = '/') (readPart path) = [] then []
      else Text.splitOn '/' (Text.strip (· = '/') (readPart path)) := by
  rw [pathSegments, ← readPart]
  simp only [List.isEmpty_iff]

/-- A path is read up to its first mark. -/
theorem readPart_append {part tail : List Char} (h : ∀ c ∈ part, c ≠ '?' ∧ c ≠ '#')
    (htail : Unread tail) : readPart (part ++ tail) = part := by
  have hpart : ∀ c ∈ part, (c ≠ '?' && c ≠ '#') = true := fun c hc => by simpa using h c hc
  have hnone : readPart tail = [] := by
    cases tail with
    | nil => rfl
    | cons c tail =>
      refine List.takeWhile_cons_of_neg ?_
      simpa [or_iff_not_imp_left] using htail c rfl
  rw [readPart, List.takeWhile_append_of_pos hpart, ← readPart, hnone, List.append_nil]

theorem exists_readPart (path : List Char) :
    ∃ tail, path = readPart path ++ tail ∧ (∀ c ∈ readPart path, c ≠ '?' ∧ c ≠ '#') ∧
      Unread tail := by
  refine ⟨_, List.takeWhile_append_dropWhile.symm, fun c hc => ?_, fun c hc => ?_⟩
  · simpa using List.mem_takeWhile_imp hc
  · have hhead := List.head?_dropWhile_not (fun c => c ≠ '?' && c ≠ '#') path
    rw [Option.mem_def.mp hc] at hhead
    simpa [or_iff_not_imp_left] using hhead

theorem eq_replicate_slash {slashes : List Char} (h : ∀ c ∈ slashes, decide (c = '/') = true) :
    slashes = List.replicate slashes.length '/' :=
  List.eq_replicate_iff.mpr ⟨rfl, fun c hc => of_decide_eq_true (h c hc)⟩

/-- A path has the segments that are read off it. -/
theorem hasSegments_pathSegments (path : List Char) : HasSegments path (pathSegments path) := by
  obtain ⟨tail, hpath, hmarks, htail⟩ := exists_readPart path
  obtain ⟨before, after, hread, hbefore, hafter⟩ := Text.exists_strip (· = '/') (readPart path)
  rw [pathSegments_eq_splitOn]
  have hfirst := Text.of_mem_head?_strip (· = '/') (readPart path)
  have hlast := Text.of_mem_getLast?_strip (· = '/') (readPart path)
  generalize Text.strip (· = '/') (readPart path) = core at hread hfirst hlast ⊢
  have hwritten : path = List.replicate before.length '/' ++ core ++
      List.replicate after.length '/' ++ tail := by
    rw [← eq_replicate_slash hbefore, ← eq_replicate_slash hafter, ← hread, ← hpath]
  by_cases hcore : core = []
  · rw [if_pos hcore]
    rw [hcore] at hwritten
    exact ⟨⟨_, _, tail, hwritten, htail⟩, List.forall_mem_nil _, nofun, nofun⟩
  · rw [if_neg hcore]
    refine ⟨⟨before.length, after.length, tail, ?written, htail⟩, ?plain, ?first, ?last⟩
    case written => rw [Text.splitOn_eq, List.intercalate_splitOn]; exact hwritten
    case plain =>
      intro segment hsegment c hc
      have hplain : c ∈ readPart path := by
        rw [hread]
        exact List.mem_append_left _ (List.mem_append_right _ (Text.mem_of_mem_splitOn hsegment hc))
      refine ⟨?_, hmarks c hplain⟩
      rintro rfl
      exact Text.not_mem_of_mem_splitOn hsegment hc
    case first =>
      rw [ne_eq, Text.head?_splitOn, not_or]
      exact ⟨hcore, fun hslash => of_decide_eq_false (hfirst _ hslash) rfl⟩
    case last =>
      rw [ne_eq, Text.getLast?_splitOn, not_or]
      exact ⟨hcore, fun hslash => of_decide_eq_false (hlast _ hslash) rfl⟩

namespace HasSegments

variable {path : List Char} {segments : List (List Char)}

/-- Joined segments can be taken apart again. -/
theorem splitOn_joined (h : HasSegments path segments) (hsegments : segments ≠ []) :
    Text.splitOn '/' (['/'].intercalate segments) = segments := by
  rw [Text.splitOn_eq]
  exact List.splitOn_intercalate '/' (fun segment hsegment hc => (h.plain segment hsegment _ hc).1 rfl)
    hsegments

theorem joined_ne_nil (h : HasSegments path segments) (hsegments : segments ≠ []) :
    ['/'].intercalate segments ≠ [] := by
  intro hnil
  refine h.first ?_
  rw [← h.splitOn_joined hsegments, Text.head?_splitOn]
  exact .inl hnil

/-- No slash is at an end of joined segments: it would stand beside an empty segment. -/
theorem ends_joined (h : HasSegments path segments) :
    (['/'].intercalate segments).head? ≠ some '/' ∧
      (['/'].intercalate segments).getLast? ≠ some '/' := by
  by_cases hsegments : segments = []
  · subst hsegments
    exact ⟨nofun, nofun⟩
  · constructor
    · intro hslash
      refine h.first ?_
      rw [← h.splitOn_joined hsegments, Text.head?_splitOn]
      exact .inr hslash
    · intro hslash
      refine h.last ?_
      rw [← h.splitOn_joined hsegments, Text.getLast?_splitOn]
      exact .inr hslash

/-- The part of the path that is read, without the slashes at its ends, is the segments joined. -/
theorem strip_readPart (h : HasSegments path segments) :
    Text.strip (· = '/') (readPart path) = ['/'].intercalate segments := by
  obtain ⟨before, after, tail, rfl, htail⟩ := h.written
  have hslash (n : Nat) : ∀ c ∈ List.replicate n '/', c = '/' :=
    fun c hc => List.eq_of_mem_replicate hc
  have hunmarked : ∀ c ∈ ['/'].intercalate segments, c ≠ '?' ∧ c ≠ '#' :=
    Text.forall_mem_intercalate (by simp) fun segment hsegment c hc =>
      (h.plain segment hsegment c hc).2
  rw [readPart_append ?read htail]
  case read =>
    intro c hc
    simp only [List.mem_append] at hc
    rcases hc with (hc | hc) | hc
    · simp [hslash _ c hc]
    · exact hunmarked c hc
    · simp [hslash _ c hc]
  refine Text.strip_append_append (fun c hc => decide_eq_true (hslash _ c hc))
    (fun c hc => decide_eq_true (hslash _ c hc)) (fun c hc => decide_eq_false ?_)
    (fun c hc => decide_eq_false ?_)
  · rintro rfl
    exact h.ends_joined.1 hc
  · rintro rfl
    exact h.ends_joined.2 hc

end HasSegments

/-- **The segments of a path are the only ones that it can be written with.** -/
theorem pathSegments_eq_iff {path : List Char} {segments : List (List Char)} :
    pathSegments path = segments ↔ HasSegments path segments := by
  constructor
  · rintro rfl
    exact hasSegments_pathSegments path
  · intro h
    rw [pathSegments_eq_splitOn, h.strip_readPart]
    by_cases hsegments : segments = []
    · subst hsegments
      rfl
    · rw [if_neg (h.joined_ne_nil hsegments), h.splitOn_joined hsegments]

end BuildBrowser
