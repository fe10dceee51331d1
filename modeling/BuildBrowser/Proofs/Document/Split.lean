import BuildBrowser.Proofs.Document.Artifacts

/-!
# A state is a document, split

A state is read by folding the members of an object into two parts, any document by keeping all its
members. The two ways agree: **a text holds a state exactly where it holds an object whose artifacts,
if it has them, are lists of strings by name**, and the state is then the artifacts and the object
without them (`SplitsFrom`).

From a state to the object holds of every text. The way back needs that the artifacts are named once,
and no name twice among them (`ArtifactsOnce`): a second listing is refused however it reads, and of a
name that is there twice both values must be lists of strings, not the last alone. So that direction
goes by what is written (`verbatim`), where nothing has been overwritten yet.

Each direction is a simulation of one loop by the other; what one member does to both sides is
`Parts.Matches.insert_artifacts` and `Parts.Matches.insert_field`.
-/

namespace BuildBrowser.BuildState

open Json

/-! ## The two parts of an object -/

/-- The parts of a state are the artifacts of an object, and its other members. -/
structure Parts.Matches (m : Members Value) (parts : Parts) : Prop where
  artifacts : Members.find? artifactsField m = parts.1.map artifactsValue
  fields : parts.2 = Members.erase artifactsField m

namespace Parts.Matches

variable {m : Members Value} {parts : Parts}

theorem nil : Matches [] (none, []) :=
  ⟨rfl, rfl⟩

theorem insert_artifacts (h : parts.Matches m) (artifacts : Members (List String)) :
    Matches (Members.insert artifactsField (artifactsValue artifacts) m) (some artifacts, parts.2) where
  artifacts := by rw [Members.find?_insert, if_pos rfl, Option.map_some]
  fields := by rw [Members.erase_insert_self, h.fields]

theorem insert_field (h : parts.Matches m) {name : String} (hname : name ≠ artifactsField)
    (v : Value) : Matches (Members.insert name v m) (parts.1, Members.insert name v parts.2) where
  artifacts := by rw [Members.find?_insert, if_neg hname, h.artifacts]
  fields := by rw [Members.erase_insert_of_ne hname, h.fields]

/-- No artifacts have been read of an object without them. -/
theorem eq_none (h : parts.Matches m) (hname : artifactsField ∉ m.names) : parts.1 = none := by
  have hfind := h.artifacts
  rw [Members.find?_eq_none.mpr hname] at hfind
  exact Option.map_eq_none_iff.mp hfind.symm

end Parts.Matches

/-- How a state comes from the members of an object: its artifacts are those of the object, by name
and in order, or none, and its fields are all other members. -/
structure SplitsFrom (m : Members Value) (state : BuildState) : Prop where
  artifacts : (Members.find? artifactsField m = none ∧ state.artifacts = []) ∨
    Members.find? artifactsField m = some (.object
      (state.artifacts.map fun (name, segments) => (name, .array (segments.map .string))))
  fields : state.fields = Members.erase artifactsField m

/-- The parts that match an object make up the one state that it splits into. -/
theorem Parts.Matches.splitsFrom_iff {m : Members Value} {parts : Parts} (h : parts.Matches m)
    {state : BuildState} : SplitsFrom m state ↔ state = ⟨parts.1.getD [], parts.2⟩ := by
  obtain ⟨artifacts?, fields⟩ := parts
  obtain ⟨artifacts, others⟩ := state
  obtain ⟨hartifacts, rfl⟩ := h
  cases artifacts? with
  | none =>
    constructor
    · rintro ⟨⟨-, rfl⟩ | hfind, rfl⟩
      · rfl
      · rw [hartifacts] at hfind
        cases hfind
    · rintro ⟨-, -⟩
      exact ⟨.inl ⟨hartifacts, rfl⟩, rfl⟩
  | some found =>
    constructor
    · rintro ⟨⟨hfind, -⟩ | hfind, rfl⟩
      · rw [hartifacts] at hfind
        cases hfind
      · rw [artifactsValue_injective (Option.some.inj (hartifacts.symm.trans hfind))]
        rfl
    · rintro ⟨-, -⟩
      exact ⟨.inr hartifacts, rfl⟩

/-! ## From a state to an object -/

section

variable {n : Nat} {input rest : Bytes}

/-- What a member does to a state, it does to an object that matches. -/
theorem keepMember_of_readMember {parts next : Parts} {m : Members Value} {name : String}
    (hmatches : parts.Matches m) (h : readMember n parts name input = .ok (next, rest)) :
    ∃ m', keepMember (value n) m name input = .ok (m', rest) ∧ next.Matches m' := by
  obtain ⟨start, hcolon, ⟨rfl, -, artifacts, hread, rfl⟩ | ⟨hname, v, hread, rfl⟩⟩ :=
    readMember_ok.mp h
  · exact ⟨_, keepMember_ok.mpr ⟨start, _, hcolon, value_of_artifacts hread, rfl⟩,
      hmatches.insert_artifacts artifacts⟩
  · exact ⟨_, keepMember_ok.mpr ⟨start, v, hcolon, hread, rfl⟩, hmatches.insert_field hname v⟩

/-- **Where a state is read, an object is read** that matches its parts. -/
theorem value_of_parts {parts : Parts}
    (h : fold (.record "BuildState") readMember (none, []) n input = .ok (parts, rest)) :
    ∃ m, value n input = .ok (.object m, rest) ∧ parts.Matches m := by
  obtain ⟨m, start, rfl, hstart, hmembers⟩ := fold_ok.mp h
  have step : ∀ parts ms name input next after, Parts.Matches ms parts →
      readMember m parts name input = .ok (next, after) → True →
      ∃ ms', keepMember (value m) ms name input = .ok (ms', after) ∧ next.Matches ms' :=
    fun _ _ _ _ _ _ hmatches hmember _ => keepMember_of_readMember hmatches hmember
  obtain ⟨ms, hms, hmatches⟩ := members_simulation (fun _ _ _ _ _ _ _ => trivial) step
    Parts.Matches.nil hmembers trivial
  exact ⟨ms, value_kinds.object.mpr ⟨m, start, rfl, hstart, hms⟩, hmatches⟩

/-! ## From what is written to a state -/

/-- The members name the artifacts at most once, with a value from which artifacts are read. -/
def HoldArtifacts (ws : List (String × Value)) : Prop :=
  (Members.names ws).count artifactsField ≤ 1 ∧
    ∀ v, (artifactsField, v) ∈ ws → ∃ artifacts, artifacts.Distinct ∧
      v = artifactsValue artifacts ∧ v.settle = v

theorem HoldArtifacts.of_append {ws more : List (String × Value)} (h : HoldArtifacts (ws ++ more)) :
    HoldArtifacts ws := by
  obtain ⟨honce, hvalues⟩ := h
  rw [Members.names, List.map_append, List.count_append] at honce
  exact ⟨Nat.le_of_add_right_le honce, fun v hv => hvalues v (List.mem_append_left _ hv)⟩

/-- Where the artifacts come last, they were not there before. -/
theorem HoldArtifacts.not_mem {ws : List (String × Value)} {v : Value}
    (h : HoldArtifacts (ws ++ [(artifactsField, v)])) :
    artifactsField ∉ Members.names (Members.ofWrites (settleMembers ws)) := by
  intro hmem
  have hws := Members.mem_names_ofWrites.mp hmem
  rw [names_settleMembers] at hws
  exact (Members.not_mem_names_of_count h.1).1 hws

theorem ofWrites_settleMembers_concat (ws : List (String × Value)) (name : String) (v : Value) :
    Members.ofWrites (settleMembers (ws ++ [(name, v)])) =
      Members.insert name v.settle (Members.ofWrites (settleMembers ws)) := by
  rw [settleMembers_eq_map, List.map_append, ← settleMembers_eq_map]
  exact Members.ofWrites_concat _ name v.settle

/-- What is written next to an object is read next of a state that matches it, settled. -/
theorem readMember_of_appendMember {ws next : List (String × Value)} {parts : Parts} {name : String}
    (hmatches : parts.Matches (Members.ofWrites (settleMembers ws)))
    (h : appendMember (verbatim n) ws name input = .ok (next, rest)) (hholds : HoldArtifacts next) :
    ∃ parts' : Parts, readMember n parts name input = .ok (parts', rest) ∧
      parts'.Matches (Members.ofWrites (settleMembers next)) := by
  obtain ⟨start, v, hcolon, hread, rfl⟩ := appendMember_ok.mp h
  rw [ofWrites_settleMembers_concat]
  by_cases hname : name = artifactsField
  · -- the artifacts are named once in all, so they are not in the state yet
    subst hname
    obtain ⟨artifacts, hdistinct, rfl, hsettled⟩ := hholds.2 v List.mem_concat_self
    refine ⟨_, readMember_ok.mpr ⟨start, hcolon, .inl ⟨rfl, hmatches.eq_none hholds.not_mem,
      artifacts, artifacts_of_verbatim hdistinct hread, rfl⟩⟩, ?_⟩
    rw [hsettled]
    exact hmatches.insert_artifacts artifacts
  · have hvalue : value n start = .ok (v.settle, rest) := by
      rw [value_eq, hread]
      rfl
    exact ⟨_, readMember_ok.mpr ⟨start, hcolon, .inr ⟨hname, v.settle, hvalue, rfl⟩⟩,
      hmatches.insert_field hname v.settle⟩

/-- **Where an object that holds artifacts is written, a state is read.** -/
theorem parts_of_verbatim {ws : List (String × Value)}
    (h : verbatim n input = .ok (.object ws, rest)) (hholds : HoldArtifacts ws) :
    ∃ parts : Parts, fold (.record "BuildState") readMember (none, []) n input = .ok (parts, rest) ∧
      parts.Matches (Members.ofWrites (settleMembers ws)) := by
  obtain ⟨m, start, rfl, hstart, hmembers⟩ := verbatim_kinds.object.mp h
  have back : ∀ ws name input next after,
      appendMember (verbatim m) ws name input = .ok (next, after) → HoldArtifacts next →
        HoldArtifacts ws := by
    rintro ws name input next after hmember hnext
    obtain ⟨start, v, -, -, rfl⟩ := appendMember_ok.mp hmember
    exact hnext.of_append
  obtain ⟨parts, hparts, hmatches⟩ := members_simulation (s := []) (t := ((none, []) : Parts))
    (R := fun ws parts => Parts.Matches (Members.ofWrites (settleMembers ws)) parts) back
    (fun _ _ _ _ _ _ hmatches hmember hnext => readMember_of_appendMember hmatches hmember hnext)
    Parts.Matches.nil hmembers hholds
  exact ⟨parts, fold_ok.mpr ⟨m, start, rfl, hstart, hparts⟩, hmatches⟩

end

/-! ## Both ways -/

/-- The text names the artifacts at most once, and no artifact twice. -/
def ArtifactsOnce (input : Bytes) : Prop :=
  ∀ ws, decode verbatim input = .ok (.object ws) →
    (Members.names ws).count artifactsField ≤ 1 ∧
      ∀ artifacts, (artifactsField, Value.object artifacts) ∈ ws → Members.Distinct artifacts

/-- An object that is written so, and splits into a state, holds artifacts. -/
theorem SplitsFrom.holdArtifacts {ws : List (String × Value)} {state : BuildState}
    (h : SplitsFrom (Members.ofWrites (settleMembers ws)) state)
    (honce : (Members.names ws).count artifactsField ≤ 1)
    (hdistinct : ∀ artifacts, (artifactsField, Value.object artifacts) ∈ ws →
      Members.Distinct artifacts) : HoldArtifacts ws := by
  refine ⟨honce, fun v hv => ?_⟩
  have hsettled : Members.find? artifactsField (Members.ofWrites (settleMembers ws)) =
      some v.settle := by
    refine Members.find?_ofWrites ?_ (by rwa [names_settleMembers])
    rw [settleMembers_eq_map]
    exact List.mem_map.mpr ⟨_, hv, rfl⟩
  obtain ⟨hnone, -⟩ | hsome := h.artifacts
  · rw [hsettled] at hnone
    cases hnone
  · have hsettle : v.settle = artifactsValue state.artifacts :=
      Option.some.inj (hsettled.symm.trans hsome)
    obtain ⟨ms, rfl⟩ := exists_object_of_settle hsettle
    have hms := hdistinct ms hv
    have hvalue := eq_artifacts_of_settle hms hsettle
    refine ⟨state.artifacts, ?_, hvalue, hsettle.trans hvalue.symm⟩
    rw [artifactsValue_eq, Value.object.injEq] at hvalue
    rwa [hvalue, Members.Distinct, Members.names_map segmentsValue] at hms

/-- **A text holds a state exactly where it holds an object that splits into it.** The fields of a
state are never its artifacts, so no name stands twice in its value. What any object holds is what is
written in it, each name at its first place and with its last value. -/
theorem state_splits_document :
    (∀ input state, ArtifactsOnce input →
      (read BuildState input = .ok state ↔
        ∃ m, read Value input = .ok (.object m) ∧ SplitsFrom m state)) ∧
    (∀ input state, read BuildState input = .ok state →
      artifactsField ∉ state.fields.names ∧
        ∃ ms, Document.toValue state = .object ms ∧ Members.Distinct ms) ∧
    ∀ input v, read Value input = .ok v ↔ ∃ w, decode verbatim input = .ok w ∧ w.settle = v := by
  refine ⟨fun input state honce => ⟨fun h => ?typed, ?generic⟩, fun input state h => ?names,
    fun input v => decode_value_ok⟩
  case typed =>
    obtain ⟨rest, hstate, hrest⟩ := decode_ok.mp h
    obtain ⟨parts, hparts, rfl⟩ := decoder_ok.mp hstate
    obtain ⟨m, hm, hmatches⟩ := value_of_parts hparts
    exact ⟨m, decode_ok.mpr ⟨rest, hm, hrest⟩, hmatches.splitsFrom_iff.mpr rfl⟩
  case generic =>
    rintro ⟨m, hm, hsplits⟩
    obtain ⟨w, hw, hsettled⟩ := decode_value_ok.mp hm
    obtain ⟨ws, rfl⟩ := exists_object_of_settle hsettled
    -- the object is what is written, settled; the state is read from what is written
    rw [← Value.object.inj hsettled] at hsplits
    obtain ⟨hcount, hdistinct⟩ := honce ws hw
    obtain ⟨rest, hwritten, hrest⟩ := decode_ok.mp hw
    obtain ⟨parts, hparts, hmatches⟩ :=
      parts_of_verbatim hwritten (hsplits.holdArtifacts hcount hdistinct)
    obtain rfl := hmatches.splitsFrom_iff.mp hsplits
    exact decode_ok.mpr ⟨rest, decoder_ok.mpr ⟨parts, hparts, rfl⟩, hrest⟩
  case names =>
    obtain ⟨rest, hstate, -⟩ := decode_ok.mp h
    obtain ⟨parts, hparts, rfl⟩ := decoder_ok.mp hstate
    obtain ⟨m, -, hobtained⟩ := Parts.obtained_of_fold hparts
    exact ⟨hobtained.not_mem, _, rfl,
      List.nodup_cons.mpr ⟨hobtained.not_mem, hobtained.distinct⟩⟩

/-- A field that is named before the artifacts and again after them, and an object in it that repeats
a name: both have their last values, in their first places. -/
theorem state_of_repeated_field :
    ∃ input, input = utf8 ("\x7b\"k\": 1, \"artifacts\": \x7b\"b\": [\"x\", \"y\"], \"a\": []\x7d, " ++
        "\"l\": -2, \"k\": [\x7b\"z\": 0, \"z\": 3\x7d]\x7d") ∧
      ArtifactsOnce input ∧
      read BuildState input = .ok ⟨[("b", ["x", "y"]), ("a", [])],
        [("k", .array [.object [("z", .number (.nat 3))]]), ("l", .number (.negSucc 1))]⟩ := by
  refine ⟨_, rfl, ?_⟩
  generalize hinput : utf8 _ = input
  have hwritten : decode verbatim input = .ok (.object [("k", .number (.nat 1)),
      ("artifacts", .object [("b", .array [.string "x", .string "y"]), ("a", .array [])]),
      ("l", .number (.negSucc 1)),
      ("k", .array [.object [("z", .number (.nat 0)), ("z", .number (.nat 3))]])]) := by
    subst hinput
    decide +kernel
  have honce : ArtifactsOnce input := by
    intro ws hws
    cases hwritten.symm.trans hws
    refine ⟨by decide, fun artifacts hmem => ?_⟩
    obtain rfl : artifacts = [("b", .array [.string "x", .string "y"]), ("a", .array [])] := by
      simpa [artifactsField] using hmem
    simp [Members.Distinct, Members.names]
  have hvalue := decode_value_ok.mpr ⟨_, hwritten, rfl⟩
  exact ⟨honce, (state_splits_document.1 input _ honce).mpr ⟨_, hvalue, .inr rfl, rfl⟩⟩

end BuildBrowser.BuildState
