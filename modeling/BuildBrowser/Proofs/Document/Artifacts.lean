import BuildBrowser.Proofs.Document.BuildState
import BuildBrowser.Proofs.Json.Verbatim

/-!
# Artifacts as a value

The artifacts of a state are read from an object of lists of strings. Any document with such an object
reads it as a value, `artifactsValue`, and the two agree: artifacts are read as their value
(`value_of_artifacts`), and where their value is written they are read (`artifacts_of_verbatim`), if
no name is written twice. A name that is there twice keeps its last value, but the reader of artifacts
wants both to be lists of strings.
-/

namespace BuildBrowser.BuildState

open Json

/-! ## The value -/

/-- The lists agree, item by item. -/
theorem map_eq_map_iff_forall₂ {α β γ : Type} {f : α → γ} {g : β → γ} {as : List α} {bs : List β} :
    as.map f = bs.map g ↔ List.Forall₂ (fun a b => f a = g b) as bs := by
  rw [← List.forall₂_eq_eq_eq, List.forall₂_map_left_iff, List.forall₂_map_right_iff]

/-- The value of the segments of a path. -/
def segmentsValue (segments : List String) : Value :=
  .array (segments.map .string)

theorem artifactsValue_eq (artifacts : Members (List String)) :
    artifactsValue artifacts =
      .object (artifacts.map fun (name, segments) => (name, segmentsValue segments)) :=
  rfl

theorem segmentsValue_injective : Function.Injective segmentsValue :=
  fun _ _ h => List.map_injective_iff.mpr (fun _ _ => Value.string.inj) (Value.array.inj h)

theorem artifactsValue_injective : Function.Injective artifactsValue := by
  intro a b h
  refine List.map_injective_iff.mpr ?_ (Value.object.inj h)
  rintro ⟨name, segments⟩ ⟨name', segments'⟩ hmember
  obtain ⟨rfl, hsegments⟩ := Prod.mk.inj hmember
  rw [segmentsValue_injective hsegments]

/-- Settling gives a list of strings from nothing but that list. -/
theorem eq_segments_of_settle {v : Value} {segments : List String}
    (h : v.settle = segmentsValue segments) : v = segmentsValue segments := by
  cases v with
  | array vs =>
    rw [segmentsValue, Value.settle, Value.array.injEq, settleItems_eq_map,
      map_eq_map_iff_forall₂] at h
    rw [segmentsValue, Value.array.injEq, ← List.map_id vs, map_eq_map_iff_forall₂]
    refine h.imp fun v s hv => ?_
    cases v <;> first | exact hv | cases hv
  | null | bool _ | number _ | string _ | object _ => cases h

/-- Settling gives artifacts from nothing but those artifacts, if no name is there twice. -/
theorem eq_artifacts_of_settle {ms : List (String × Value)} {artifacts : Members (List String)}
    (hdistinct : Members.Distinct ms) (h : (Value.object ms).settle = artifactsValue artifacts) :
    Value.object ms = artifactsValue artifacts := by
  have hsettled : Members.Distinct (settleMembers ms) := by
    rwa [Members.Distinct, names_settleMembers]
  rw [Value.settle, Members.ofWrites_of_distinct hsettled, artifactsValue, Value.object.injEq,
    settleMembers_eq_map, map_eq_map_iff_forall₂] at h
  rw [artifactsValue, Value.object.injEq, ← List.map_id ms, map_eq_map_iff_forall₂]
  refine h.imp fun m artifact hm => ?_
  obtain ⟨hname, hv⟩ := Prod.mk.inj hm
  exact Prod.ext hname (eq_segments_of_settle hv)

/-! ## Read as a value -/

section

variable {n : Nat} {input rest : Bytes}

theorem value_of_segments {segments : List String}
    (h : list text n input = .ok (segments, rest)) :
    value n input = .ok (segmentsValue segments, rest) := by
  obtain ⟨m, start, rfl, hstart, hitems⟩ := list_ok.mp h
  have step : ∀ input s after, text m input = .ok (s, after) → True →
      ∃ v, value m input = .ok (v, after) ∧ Value.string s = id v :=
    fun _ s _ hs _ => ⟨.string s, value_kinds.string.mpr (text_ok.mp hs), rfl⟩
  obtain ⟨vs, hvs, hrel⟩ := items_simulation step hitems fun _ _ => trivial
  rw [segmentsValue, map_eq_map_iff_forall₂.mpr hrel, List.map_id]
  exact value_kinds.array.mpr ⟨m, start, rfl, hstart, hvs⟩

/-- Artifacts are read as their value. -/
theorem value_of_artifacts {artifacts : Members (List String)}
    (h : object (list text) n input = .ok (artifacts, rest)) :
    value n input = .ok (artifactsValue artifacts, rest) := by
  obtain ⟨m, start, rfl, hstart, hmembers⟩ := fold_ok.mp h
  have step : ∀ kept ms name input next after,
      (ms = kept.map fun (name, segments) => (name, segmentsValue segments)) →
      keepMember (list text m) kept name input = .ok (next, after) → True →
      ∃ ms', keepMember (value m) ms name input = .ok (ms', after) ∧
        ms' = next.map fun (name, segments) => (name, segmentsValue segments) := by
    rintro kept _ name input next after rfl hmember -
    obtain ⟨start, segments, hcolon, hread, rfl⟩ := keepMember_ok.mp hmember
    exact ⟨_, keepMember_ok.mpr ⟨start, _, hcolon, value_of_segments hread, rfl⟩,
      Members.insert_map segmentsValue name segments kept⟩
  obtain ⟨ms, hms, rfl⟩ := members_simulation (fun _ _ _ _ _ _ _ => trivial) step rfl hmembers trivial
  exact value_kinds.object.mpr ⟨m, start, rfl, hstart, hms⟩

/-! ## Read from what is written -/

theorem segments_of_verbatim {segments : List String}
    (h : verbatim n input = .ok (segmentsValue segments, rest)) :
    list text n input = .ok (segments, rest) := by
  obtain ⟨m, start, rfl, hstart, hitems⟩ := verbatim_kinds.array.mp h
  have step : ∀ input v after, verbatim m input = .ok (v, after) → (∃ s, v = .string s) →
      ∃ s, text m input = .ok (s, after) ∧ id v = Value.string s := by
    rintro input _ after hv ⟨s, rfl⟩
    exact ⟨s, text_ok.mpr (verbatim_kinds.string.mp hv), rfl⟩
  obtain ⟨found, hfound, hrel⟩ := items_simulation step hitems
    fun v hv => (List.mem_map.mp hv).imp fun _ h => h.2.symm
  rw [← map_eq_map_iff_forall₂, List.map_id] at hrel
  rw [segmentsValue_injective (congrArg Value.array hrel)]
  exact list_ok.mpr ⟨m, start, rfl, hstart, hfound⟩

/-- The members stand under distinct names, each with a list of strings. -/
def HoldSegments (ws : List (String × Value)) : Prop :=
  Members.Distinct ws ∧ ∀ w ∈ ws, ∃ segments, w.2 = segmentsValue segments

theorem HoldSegments.of_append {ws more : List (String × Value)} (h : HoldSegments (ws ++ more)) :
    HoldSegments ws := by
  obtain ⟨hdistinct, hvalues⟩ := h
  rw [Members.Distinct, Members.names, List.map_append] at hdistinct
  exact ⟨(List.nodup_append.mp hdistinct).1, fun w hw => hvalues w (List.mem_append_left _ hw)⟩

/-- Artifacts are read where their value is written, if no name is there twice. -/
theorem artifacts_of_verbatim {artifacts : Members (List String)} (hdistinct : artifacts.Distinct)
    (h : verbatim n input = .ok (artifactsValue artifacts, rest)) :
    object (list text) n input = .ok (artifacts, rest) := by
  rw [artifactsValue_eq] at h
  obtain ⟨m, start, rfl, hstart, hmembers⟩ := verbatim_kinds.object.mp h
  have back : ∀ ws name input next after,
      appendMember (verbatim m) ws name input = .ok (next, after) → HoldSegments next →
        HoldSegments ws := by
    rintro ws name input next after hmember hnext
    obtain ⟨start, v, -, -, rfl⟩ := appendMember_ok.mp hmember
    exact hnext.of_append
  have step : ∀ ws kept name input next after,
      (ws = kept.map fun (name, segments) => (name, segmentsValue segments)) →
      appendMember (verbatim m) ws name input = .ok (next, after) → HoldSegments next →
      ∃ kept', keepMember (list text m) kept name input = .ok (kept', after) ∧
        next = kept'.map fun (name, segments) => (name, segmentsValue segments) := by
    rintro ws kept name input next after rfl hmember ⟨hnext, hvalues⟩
    obtain ⟨start, v, hcolon, hread, rfl⟩ := appendMember_ok.mp hmember
    obtain ⟨segments, rfl⟩ := hvalues _ List.mem_concat_self
    refine ⟨_, keepMember_ok.mpr ⟨start, segments, hcolon, segments_of_verbatim hread, rfl⟩, ?_⟩
    rw [← Members.insert_map segmentsValue,
      Members.insert_of_not_mem (Members.not_mem_names_before hnext)]
  have hholds : HoldSegments (artifacts.map fun (name, segments) => (name, segmentsValue segments)) := by
    constructor
    · rwa [Members.Distinct, Members.names_map segmentsValue]
    · intro w hw
      obtain ⟨⟨name, segments⟩, -, rfl⟩ := List.mem_map.mp hw
      exact ⟨segments, rfl⟩
  obtain ⟨kept, hkept, hrel⟩ := members_simulation back step (t := []) rfl hmembers hholds
  rw [artifactsValue_injective (congrArg Value.object hrel)]
  exact fold_ok.mpr ⟨m, start, rfl, hstart, hkept⟩

end

end BuildBrowser.BuildState
