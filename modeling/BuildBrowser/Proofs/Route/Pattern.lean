import BuildBrowser.Proofs.Members
import BuildBrowser.Proofs.Route.Segments

/-!
# The language of a pattern

Matching is one walk over the segments of a pattern and those of a path. It gives up at the first
place where they do not fit, and writes each capture into those before it. `Accepts` says what one
segment of a pattern text accepts, and **the law** is that nothing else counts: a pattern matches a
path exactly if they have as many segments as each other and each accepts the one at its place
(`match?_eq_some`). What is captured is then told by the writes of the walk (`writes`), of which the
last one to a name is the one that stays.

A colon alone is no parameter, and a parameter takes no empty segment. Literal segments are compared
as they are written, so an escape in a path does not match the character that it stands for; captured
segments are decoded.
-/

namespace BuildBrowser.Pattern

/-! ## Segments of pattern texts -/

/-- A segment of a pattern text is a parameter: a colon, and then its name. -/
def IsParameter (key : List Char) (name : String) : Prop :=
  name ≠ "" ∧ key = ':' :: name.toList

/-- What a segment of a pattern text accepts. -/
inductive Accepts : List Char → List Char → Prop
  | parameter {key segment : List Char} {name : String} (named : IsParameter key name)
      (filled : segment ≠ []) : Accepts key segment
  | literal {text : List Char} (plain : ∀ name, ¬IsParameter text name) : Accepts text text

theorem IsParameter.unique {key : List Char} {name other : String} (h : IsParameter key name)
    (hother : IsParameter key other) : name = other :=
  String.toList_injective (List.cons.inj (h.2.symm.trans hother.2)).2

theorem IsParameter.accepts_iff {key segment : List Char} {name : String} (h : IsParameter key name) :
    Accepts key segment ↔ segment ≠ [] := by
  constructor
  · rintro (⟨-, hfilled⟩ | hplain)
    · exact hfilled
    · exact absurd h (hplain name)
  · exact .parameter h

/-- A text that is no parameter accepts itself alone. -/
theorem accepts_iff_eq {key segment : List Char} (h : ∀ name, ¬IsParameter key name) :
    Accepts key segment ↔ key = segment := by
  constructor
  · rintro (⟨hnamed, -⟩ | -)
    · exact absurd hnamed (h _)
    · rfl
  · rintro rfl
    exact .literal h

/-- A segment of a pattern text is a parameter, and captures, or it is not, and is a literal. -/
theorem ofText_cases (key : List Char) :
    (∃ name, IsParameter key name ∧ PatternSegment.ofText key = .capture name) ∨
      ((∀ name, ¬IsParameter key name) ∧ PatternSegment.ofText key = .literal key) := by
  unfold PatternSegment.ofText
  split
  · next c name => exact .inl ⟨String.ofList (c :: name), ⟨by simp, by simp⟩, rfl⟩
  · next hshort =>
    refine .inr ⟨?_, rfl⟩
    rintro name ⟨hname, hkey⟩
    obtain ⟨c, rest, hcons⟩ := List.exists_cons_of_ne_nil (mt String.toList_eq_nil_iff.mp hname)
    exact hshort c rest (hkey.trans (congrArg _ hcons))

/-! ## Matching, one segment at a time -/

section

variable {captured : Members String} {pattern : List PatternSegment} {path : List (List Char)}

theorem captures_literal (text segment : List Char) :
    captures captured (.literal text :: pattern) (segment :: path) =
      if text = segment then captures captured pattern path else none := rfl

theorem captures_capture (name : String) (segment : List Char) :
    captures captured (.capture name :: pattern) (segment :: path) =
      if segment.isEmpty then none
      else captures (Members.insert name (String.ofList (Segment.decodeChars segment)) captured)
        pattern path := rfl

/-- A pattern matches paths of its own length only. -/
theorem captures_of_length_ne (h : pattern.length ≠ path.length) :
    captures captured pattern path = none := by
  induction pattern generalizing captured path with
  | nil =>
    cases path with
    | nil => exact absurd rfl h
    | cons segment path => rfl
  | cons p pattern ih =>
    cases path with
    | nil => cases p <;> rfl
    | cons segment path =>
      have hrest : pattern.length ≠ path.length := fun heq => h (congrArg (· + 1) heq)
      cases p with
      | literal text => rw [captures_literal, ih hrest, ite_self]
      | capture name => rw [captures_capture, ih hrest, ite_self]

end

/-! ## What is captured -/

/-- What a match writes at one place, where a segment of the pattern text meets one of the path: the
latter, decoded, to the name of the parameter, if the former is one. -/
def write? (place : List Char × List Char) : Option (String × String) :=
  match PatternSegment.ofText place.1 with
  | .capture name => some (name, String.ofList (Segment.decodeChars place.2))
  | .literal _ => none

/-- The writes of a match, in order. -/
def writes (keys segments : List (List Char)) : List (String × String) :=
  (keys.zip segments).filterMap write?

theorem write?_eq_some {place : List Char × List Char} {write : String × String} :
    write? place = some write ↔
      IsParameter place.1 write.1 ∧ write.2 = Segment.decode (String.ofList place.2) := by
  obtain ⟨key, segment⟩ := place
  obtain ⟨name, value⟩ := write
  rw [Segment.decode, String.toList_ofList, write?]
  rcases ofText_cases key with ⟨found, hparameter, hkey⟩ | ⟨hplain, hkey⟩
  · simp only [hkey, Option.some.injEq, Prod.mk.injEq]
    constructor
    · rintro ⟨rfl, rfl⟩
      exact ⟨hparameter, rfl⟩
    · rintro ⟨hname, rfl⟩
      exact ⟨hparameter.unique hname, rfl⟩
  · simp [hkey, hplain name]

/-- **The walk over the segments**: it succeeds if every segment is accepted at its place, and the
writes are made in order. -/
theorem captures_ofText {keys segments : List (List Char)} {captured result : Members String} :
    captures captured (keys.map .ofText) segments = some result ↔
      List.Forall₂ Accepts keys segments ∧
        result = (writes keys segments).foldl (fun m w => Members.insert w.1 w.2 m) captured := by
  induction keys generalizing captured segments with
  | nil =>
    cases segments with
    | nil => simp [captures, writes, eq_comm]
    | cons segment segments => simp [captures]
  | cons key keys ih =>
    cases segments with
    | nil =>
      rw [captures_of_length_ne (by simp)]
      simp
    | cons segment segments =>
      rw [List.map_cons, List.forall₂_cons]
      rcases ofText_cases key with ⟨name, hparameter, hkey⟩ | ⟨hplain, hkey⟩
      · have hwrites : writes (key :: keys) (segment :: segments) =
            (name, String.ofList (Segment.decodeChars segment)) :: writes keys segments := by
          simp [writes, write?, hkey]
        rw [hkey, captures_capture, hwrites, hparameter.accepts_iff, List.foldl_cons]
        by_cases hsegment : segment = []
        · simp [hsegment]
        · rw [if_neg (by simpa using hsegment), ih, and_assoc, and_iff_right hsegment]
      · have hwrites : writes (key :: keys) (segment :: segments) = writes keys segments := by
          simp [writes, write?, hkey]
        rw [hkey, captures_literal, hwrites, accepts_iff_eq hplain]
        by_cases hsegment : key = segment
        · rw [if_pos hsegment, ih, and_assoc, and_iff_right hsegment]
        · simp [hsegment]

/-- **A pattern matches a path** exactly if their segments match place by place, and then captures what
the walk over them writes. -/
theorem match?_eq_some {pattern path : String} {captured : Members String} :
    (ofText pattern).match? path = some captured ↔
      List.Forall₂ Accepts (pathSegments pattern.toList) (pathSegments path.toList) ∧
        captured = Members.ofWrites
          (writes (pathSegments pattern.toList) (pathSegments path.toList)) :=
  captures_ofText

/-! ## What the captures are -/

/-- The last place of a pattern text that has a name as its parameter. -/
def LastPlace (keys : List (List Char)) (name : String) (i : Nat) : Prop :=
  (∃ key, keys[i]? = some key ∧ IsParameter key name) ∧
    ∀ j key, i < j → keys[j]? = some key → ¬IsParameter key name

/-- If every segment is accepted, there is a write to the name of each parameter, and to no other
name. -/
theorem mem_names_writes {keys segments : List (List Char)} (h : List.Forall₂ Accepts keys segments)
    {name : String} :
    name ∈ Members.names (writes keys segments) ↔ ∃ key ∈ keys, IsParameter key name := by
  have hkeys : (keys.zip segments).map Prod.fst = keys := List.map_fst_zip h.length_eq.le
  constructor
  · intro hname
    obtain ⟨write, hwrite, rfl⟩ := List.mem_map.mp hname
    obtain ⟨place, hplace, hwritten⟩ := List.mem_filterMap.mp hwrite
    exact ⟨place.1, (List.of_mem_zip hplace).1, (write?_eq_some.mp hwritten).1⟩
  · rintro ⟨key, hkey, hparameter⟩
    rw [← hkeys] at hkey
    obtain ⟨place, hplace, rfl⟩ := List.mem_map.mp hkey
    have hwritten : write? place = some (name, Segment.decode (String.ofList place.2)) :=
      write?_eq_some.mpr ⟨hparameter, rfl⟩
    exact List.mem_map.mpr ⟨_, List.mem_filterMap.mpr ⟨place, hplace, hwritten⟩, rfl⟩

/-- The last write to a name is made at the last place that has the name as its parameter. -/
theorem find?_writes {keys segments : List (List Char)} (h : List.Forall₂ Accepts keys segments)
    {name : String} {i : Nat} (hlast : LastPlace keys name i) :
    ∃ segment, segments[i]? = some segment ∧
      Members.find? name (Members.ofWrites (writes keys segments)) =
        some (Segment.decode (String.ofList segment)) := by
  obtain ⟨⟨key, hkey, hparameter⟩, hnone⟩ := hlast
  obtain ⟨hi, rfl⟩ := List.getElem?_eq_some_iff.mp hkey
  have hsegment : i < segments.length := h.length_eq ▸ hi
  refine ⟨segments[i], List.getElem?_eq_getElem hsegment, ?_⟩
  have hzip : i < (keys.zip segments).length := by
    rw [List.length_zip]
    exact Nat.lt_min.mpr ⟨hi, hsegment⟩
  have hwritten : write? (keys[i], segments[i]) =
      some (name, Segment.decode (String.ofList segments[i])) :=
    write?_eq_some.mpr ⟨hparameter, rfl⟩
  -- the writes before this place, its own, and those after it
  rw [writes, ← List.take_append_drop i (keys.zip segments), List.drop_eq_getElem_cons hzip,
    List.filterMap_append, List.getElem_zip, List.filterMap_cons_some hwritten]
  refine Members.find?_ofWrites_last fun hlater => ?_
  obtain ⟨write, hwrite, rfl⟩ := List.mem_map.mp hlater
  obtain ⟨place, hplace, hwritten⟩ := List.mem_filterMap.mp hwrite
  obtain ⟨n, hn⟩ := List.mem_iff_getElem?.mp hplace
  rw [List.getElem?_drop] at hn
  exact hnone (i + 1 + n) place.1 (by omega) (List.getElem?_zip_eq_some.mp hn).1
    (write?_eq_some.mp hwritten).1

/-- **A pattern accepts exactly its language, and captures exactly its parameters.** It matches a path
if they have the same number of segments and each accepts the one at its place; the segments are those
that the texts are written with. The captures are named by the parameters, each once, and a name that
is a parameter at several places has the segment at the last of them, decoded. -/
theorem matches_its_language :
    (∀ (path : List Char) (segments : List (List Char)),
      pathSegments path = segments ↔ HasSegments path segments) ∧
    ∀ pattern path : String,
      (((ofText pattern).match? path).isSome ↔
        List.Forall₂ Accepts (pathSegments pattern.toList) (pathSegments path.toList)) ∧
      ∀ captured, (ofText pattern).match? path = some captured →
        Members.Distinct captured ∧
        (∀ name, name ∈ Members.names captured ↔
          ∃ key ∈ pathSegments pattern.toList, IsParameter key name) ∧
        ∀ name i, LastPlace (pathSegments pattern.toList) name i →
          ∃ segment, (pathSegments path.toList)[i]? = some segment ∧
            Members.find? name captured = some (Segment.decode (String.ofList segment)) := by
  refine ⟨fun path segments => pathSegments_eq_iff, fun pattern path => ⟨?language, ?captures⟩⟩
  case language =>
    simp only [Option.isSome_iff_exists, match?_eq_some, exists_and_left, exists_eq, and_true]
  case captures =>
    intro captured hmatch
    obtain ⟨haccepts, rfl⟩ := match?_eq_some.mp hmatch
    refine ⟨Members.distinct_ofWrites _, fun name => ?_, fun name i hlast => ?_⟩
    · rw [Members.mem_names_ofWrites, mem_names_writes haccepts]
    · exact find?_writes haccepts hlast

/-- A name that is a parameter twice, a colon alone, an escape in a literal that is none in the path,
and a query in both texts. -/
theorem matches_last_of_two :
    (ofText "/:id/:/%2F/:id?old").match? "a/:/%2F/b%2F//#new" = some [("id", "b/")] ∧
      ∃ segment, (pathSegments "a/:/%2F/b%2F//#new".toList)[3]? = some segment ∧
        Members.find? "id" [("id", "b/")] = some (Segment.decode (String.ofList segment)) := by
  have hmatch : (ofText "/:id/:/%2F/:id?old").match? "a/:/%2F/b%2F//#new" = some [("id", "b/")] := by
    decide
  have hlast : LastPlace (pathSegments "/:id/:/%2F/:id?old".toList) "id" 3 := by
    refine ⟨⟨":id".toList, by decide, by decide, rfl⟩, fun j key hj hkey => ?_⟩
    have hlength : (pathSegments "/:id/:/%2F/:id?old".toList).length = 4 := by decide
    have hlater := (List.getElem?_eq_some_iff.mp hkey).1
    omega
  exact ⟨hmatch, ((matches_its_language.2 _ _).2 _ hmatch).2.2 "id" 3 hlast⟩

end BuildBrowser.Pattern
