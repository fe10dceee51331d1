import BuildBrowser.Document.BuildState
import Mathlib.Data.List.Basic

/-!
# Taking the records of a build again and again

Each round lists the artifacts and takes the last segment off every path that has one. `takeRounds` is
a number of rounds one after another. What one round does to the document is undone by putting the
file names of its records back (`putBack_takeRecords`), so nothing is lost, and by induction nothing
is lost in any number of rounds (`foldr_putBack_takeRounds`).

The rounds do not differ but in how much has been taken before them. `shortened` is the document with
so many segments taken off each path; a round takes it to the next one and lists what stands there
(`takeRecords_shortened`). So everything that is said of rounds is said of paths, one at a time, by
`List.take`, and a path that has been used up is like any other.
-/

namespace BuildBrowser.BuildState

/-- The document with a number of segments taken off the end of each path, as far as it has them. -/
def shortened (k : Nat) (state : BuildState) : BuildState :=
  { state with
    artifacts := state.artifacts.map fun (name, segments) =>
      (name, segments.take (segments.length - k)) }

/-- The record of an artifact in a round, the first of which is round one. The segments that earlier
rounds have taken are not in it. -/
def recordIn (round : Nat) (name : String) (segments : List String) : ArtifactRecord :=
  { id := ⟨name⟩
    fullName := "/".intercalate (segments.take (segments.length + 1 - round))
    fileName := if round ≤ segments.length then segments[segments.length - round]? else none }

/-- The records of a number of rounds, and the document after them. -/
def takeRounds : Nat → BuildState → List (List ArtifactRecord) × BuildState
  | 0, state => ([], state)
  | k + 1, state =>
    let (rounds, state) := takeRounds k state
    let (records, state) := state.takeRecords
    (rounds ++ [records], state)

/-- The document with the file names of records put at the end of the paths, in order. -/
def putBack (records : List ArtifactRecord) (state : BuildState) : BuildState :=
  { state with
    artifacts := state.artifacts.zipWith
      (fun (name, segments) record => (name, segments ++ record.fileName.toList)) records }

/-! ## One round -/

/-- A path is what is left of it, and the file name if it has one. -/
theorem dropLast_append_getLast? (segments : List String) :
    segments.dropLast ++ segments.getLast?.toList = segments := by
  cases segments with
  | nil => rfl
  | cons first rest =>
    rw [List.getLast?_eq_some_getLast (List.cons_ne_nil first rest), Option.toList_some,
      List.dropLast_append_getLast]

/-- **A round is undone** by putting its file names back. -/
theorem putBack_takeRecords (state : BuildState) :
    putBack state.takeRecords.1 state.takeRecords.2 = state := by
  obtain ⟨artifacts, fields⟩ := state
  have hpath : ∀ artifact : String × List String,
      (artifact.1, artifact.2.dropLast ++ (record artifact.1 artifact.2).fileName.toList) = artifact :=
    fun artifact => Prod.ext rfl (dropLast_append_getLast? artifact.2)
  simp only [putBack, takeRecords, List.zipWith_map, List.zipWith_self, hpath, List.map_id']

/-- Taking one more segment off a path. -/
theorem dropLast_take_length_sub (segments : List String) (k : Nat) :
    (segments.take (segments.length - k)).dropLast = segments.take (segments.length - (k + 1)) := by
  rw [List.dropLast_eq_take, List.take_take, List.length_take]
  congr 1
  omega

/-- The last segment that is left of a path, if one is left. -/
theorem getLast?_take_length_sub (segments : List String) (k : Nat) :
    (segments.take (segments.length - k)).getLast? =
      if k + 1 ≤ segments.length then segments[segments.length - (k + 1)]? else none := by
  rw [List.getLast?_eq_getElem?, List.length_take]
  split
  · next h =>
    rw [List.getElem?_take_of_lt (by omega)]
    congr 1
    omega
  · next h =>
    rw [List.getElem?_eq_none]
    rw [List.length_take]
    omega

/-- **A round on a shortened document** lists what stands there and shortens it by one more. -/
theorem takeRecords_shortened (k : Nat) (state : BuildState) :
    (shortened k state).takeRecords =
      (state.artifacts.map fun (name, segments) => recordIn (k + 1) name segments,
        shortened (k + 1) state) := by
  have hrecord : ∀ artifact : String × List String,
      record artifact.1 (artifact.2.take (artifact.2.length - k)) =
        recordIn (k + 1) artifact.1 artifact.2 := by
    intro artifact
    rw [record, recordIn, getLast?_take_length_sub, Nat.add_sub_add_right]
  simp only [takeRecords, shortened, List.map_map, Function.comp_def, dropLast_take_length_sub, hrecord]

theorem shortened_zero (state : BuildState) : shortened 0 state = state := by
  simp [shortened]

/-- A round takes nothing off empty paths. -/
theorem takeRecords_of_empty {state : BuildState} (h : ∀ artifact ∈ state.artifacts, artifact.2 = []) :
    state.takeRecords.2 = state := by
  obtain ⟨artifacts, fields⟩ := state
  have hpath : ∀ artifact ∈ artifacts, (artifact.1, artifact.2.dropLast) = artifact := by
    intro artifact hartifact
    rw [h artifact hartifact]
    exact Prod.ext rfl (h artifact hartifact).symm
  simp only [takeRecords, List.map_congr_left hpath, List.map_id']

/-! ## Many rounds -/

theorem takeRounds_succ (k : Nat) (state : BuildState) :
    takeRounds (k + 1) state =
      ((takeRounds k state).1 ++ [(takeRounds k state).2.takeRecords.1],
        (takeRounds k state).2.takeRecords.2) :=
  rfl

/-- **Any number of rounds is undone** by putting the file names back, those of the last round first. -/
theorem foldr_putBack_takeRounds (k : Nat) (state : BuildState) :
    (takeRounds k state).1.foldr putBack (takeRounds k state).2 = state := by
  induction k with
  | zero => rfl
  | succ k ih =>
    rw [takeRounds_succ, List.foldr_append, List.foldr_cons, List.foldr_nil, putBack_takeRecords, ih]

/-- What rounds list, and what they leave. -/
theorem takeRounds_eq (k : Nat) (state : BuildState) :
    takeRounds k state =
      ((List.range' 1 k).map fun round =>
        state.artifacts.map fun (name, segments) => recordIn round name segments,
        shortened k state) := by
  induction k with
  | zero => rw [shortened_zero]; rfl
  | succ k ih =>
    rw [takeRounds_succ, ih, takeRecords_shortened, List.range'_1_concat, List.map_append,
      Nat.add_comm 1 k]
    rfl

/-- Once every path is empty, further rounds leave the document alone. -/
theorem takeRounds_add_of_empty {k : Nat} {state : BuildState}
    (h : ∀ artifact ∈ (takeRounds k state).2.artifacts, artifact.2 = []) (more : Nat) :
    (takeRounds (k + more) state).2 = (takeRounds k state).2 := by
  induction more with
  | zero => rfl
  | succ more ih =>
    rw [← Nat.add_assoc, takeRounds_succ]
    rw [← ih] at h
    exact (takeRecords_of_empty h).trans ih

/-- **Rounds peel the paths and lose nothing.** Every round lists every artifact under its name and in
its place: by what is left of its path, and with the last segment of that as its file name, or none
once the path has been used up. After the rounds each path has lost a segment for each, as far as it
had them, and the document is otherwise as it was. Putting the file names back, those of the last
round first, gives the document that the rounds began with. When every path is empty, further rounds
change nothing. -/
theorem rounds_peel_paths (state : BuildState) (k : Nat) :
    (takeRounds k state).1 =
        ((List.range' 1 k).map fun round =>
          state.artifacts.map fun (name, segments) => recordIn round name segments) ∧
      (takeRounds k state).2 = shortened k state ∧
      (takeRounds k state).1.foldr putBack (takeRounds k state).2 = state ∧
      ((∀ artifact ∈ (takeRounds k state).2.artifacts, artifact.2 = []) →
        ∀ more, (takeRounds (k + more) state).2 = (takeRounds k state).2) := by
  refine ⟨?records, ?document, foldr_putBack_takeRounds k state, takeRounds_add_of_empty⟩
  case records => rw [takeRounds_eq]
  case document => rw [takeRounds_eq]

/-- Two rounds use up a path of two segments, beside one that was empty from the start. -/
theorem rounds_use_up_paths :
    ∃ state : BuildState,
      state = ⟨[("log", ["out", "a.txt"]), ("none", [])], [("status", .string "done")]⟩ ∧
      (takeRounds 2 state).1 =
        [[⟨⟨"log"⟩, "out/a.txt", some "a.txt"⟩, ⟨⟨"none"⟩, "", none⟩],
          [⟨⟨"log"⟩, "out", some "out"⟩, ⟨⟨"none"⟩, "", none⟩]] ∧
      (∀ artifact ∈ (takeRounds 2 state).2.artifacts, artifact.2 = []) ∧
      ∀ more, (takeRounds (2 + more) state).2 =
        ⟨[("log", []), ("none", [])], [("status", .string "done")]⟩ := by
  refine ⟨_, rfl, ?_⟩
  generalize hstate : BuildState.mk _ _ = state
  obtain ⟨hrecords, hdocument, -, hfurther⟩ := rounds_peel_paths state 2
  have hempty : ∀ artifact ∈ (takeRounds 2 state).2.artifacts, artifact.2 = [] := by
    subst hstate
    decide
  refine ⟨?_, hempty, fun more => ?_⟩
  · rw [hrecords]
    subst hstate
    decide
  · rw [hfurther hempty more, hdocument]
    subst hstate
    rfl

end BuildBrowser.BuildState
