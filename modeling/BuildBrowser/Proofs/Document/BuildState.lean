import BuildBrowser.Document.BuildState
import BuildBrowser.Proofs.Json.Reread

/-!
# Reading the state of a build

A state is folded from its members in two parts, the artifacts and all other fields. `readMember_ok`
says what one member can do to them, and `Parts.Obtained` what every member preserves: the artifacts
are an object that was read, and the fields are distinct names, none of them that of the artifacts,
with values that were read.

A state is written with its artifacts first, and also if it has none. The empty object that then
stands there takes a bracket more than the document may have had, so **a state rereads wherever two
brackets may be opened** (`rereads`): in every document that a server sends.
-/

namespace BuildBrowser.BuildState

open Json

variable {n : Nat} {input rest : Bytes}

/-! ## One member -/

/-- A member is the artifacts, which may come once, or a field that is kept. -/
theorem readMember_ok {parts next : Parts} {name : String} :
    readMember n parts name input = .ok (next, rest) ↔
      ∃ start, colon input = .ok start ∧
        ((name = artifactsField ∧ parts.1 = none ∧
            ∃ artifacts, object (list text) n start = .ok (artifacts, rest) ∧
              next = (some artifacts, parts.2)) ∨
          (name ≠ artifactsField ∧
            ∃ v, value n start = .ok (v, rest) ∧ next = (parts.1, Members.insert name v parts.2))) := by
  obtain ⟨artifacts?, fields⟩ := parts
  unfold readMember
  by_cases hname : name = artifactsField
  · rw [if_pos hname]
    constructor
    · intro h
      split at h
      · cases h
      next hnone =>
        split at h
        · cases h
        next hcolon =>
          obtain ⟨⟨artifacts, after⟩, hread, heq⟩ := map_ok.mp h
          cases heq
          exact ⟨_, hcolon, .inl ⟨hname, hnone, artifacts, hread, rfl⟩⟩
    · rintro ⟨start, hcolon, ⟨-, hnone, artifacts, hread, rfl⟩ | ⟨hne, -⟩⟩
      · simp [show artifacts? = none from hnone, hcolon, hread, Except.map]
      · exact absurd hname hne
  · rw [if_neg hname, map_ok]
    constructor
    · rintro ⟨⟨kept, after⟩, hkeep, heq⟩
      obtain ⟨start, v, hcolon, hread, rfl⟩ := keepMember_ok.mp hkeep
      cases heq
      exact ⟨start, hcolon, .inr ⟨hname, v, hread, rfl⟩⟩
    · rintro ⟨start, hcolon, ⟨heq, -⟩ | ⟨-, v, hread, rfl⟩⟩
      · exact absurd heq hname
      · exact ⟨_, keepMember_ok.mpr ⟨start, v, hcolon, hread, rfl⟩, rfl⟩

/-- What has been read of a state: artifacts and fields that were read, under names that are distinct
and not that of the artifacts. -/
structure Parts.Obtained (n : Nat) (parts : Parts) : Prop where
  artifacts : ∀ artifacts ∈ parts.1, ∃ start after,
    object (list text) n start = .ok (artifacts, after)
  distinct : parts.2.Distinct
  not_mem : artifactsField ∉ parts.2.names
  fields : ∀ field ∈ parts.2, ∃ start after, value n start = .ok (field.2, after)

theorem Parts.obtained_nil (n : Nat) : Parts.Obtained n (none, []) where
  artifacts _ h := nomatch h
  distinct := Members.distinct_nil
  not_mem h := nomatch h
  fields _ h := nomatch h

theorem Parts.Obtained.readMember {parts next : Parts} {name : String} (h : parts.Obtained n)
    (hread : readMember n parts name input = .ok (next, rest)) : next.Obtained n := by
  obtain ⟨start, -, ⟨-, -, artifacts, hartifacts, rfl⟩ | ⟨hname, v, hv, rfl⟩⟩ :=
    readMember_ok.mp hread
  · refine { h with artifacts := fun found hfound => ?_ }
    obtain rfl := Option.some.inj hfound
    exact ⟨start, rest, hartifacts⟩
  · refine ⟨h.artifacts, Members.distinct_insert h.distinct v, ?_, fun field hfield => ?_⟩
    · rw [Members.names_insert]
      split
      · exact h.not_mem
      · exact fun hmem => (List.mem_append.mp hmem).elim h.not_mem
          fun hmem => hname (List.mem_singleton.mp hmem).symm
    · rcases Members.mem_insert hfield with rfl | hfield
      · exact ⟨start, rest, hv⟩
      · exact h.fields field hfield

/-- A state was read from an object with members that were read. -/
theorem decoder_ok {state : BuildState} :
    decoder n input = .ok (state, rest) ↔
      ∃ parts, fold (.record "BuildState") readMember (none, []) n input = .ok (parts, rest) ∧
        state = ⟨parts.1.getD [], parts.2⟩ := by
  rw [decoder, map_ok]
  constructor
  · rintro ⟨⟨parts, after⟩, hfold, heq⟩
    cases heq
    exact ⟨parts, hfold, rfl⟩
  · rintro ⟨parts, hfold, rfl⟩
    exact ⟨_, hfold, rfl⟩

theorem Parts.obtained_of_fold {parts : Parts}
    (h : fold (.record "BuildState") readMember (none, []) n input = .ok (parts, rest)) :
    ∃ m, n = m + 1 ∧ parts.Obtained m := by
  obtain ⟨m, start, rfl, -, hmembers⟩ := fold_ok.mp h
  exact ⟨m, rfl, invariant_of_members (P := Parts.Obtained m) (fun _ _ _ _ _ hs hread => hs.readMember hread)
    (Parts.obtained_nil m) hmembers⟩

/-! ## Reading a written state -/

/-- The artifacts are read back, also where they were absent. -/
theorem Parts.Obtained.readsBack_artifacts {parts : Parts} (h : parts.Obtained (n + 1))
    (hint : (artifactsValue (parts.1.getD [])).Integral) :
    ReadsBack (object (list text) (n + 1)) (artifactsValue (parts.1.getD [])) (parts.1.getD []) := by
  obtain ⟨_ | artifacts, fields⟩ := parts
  · -- no artifacts are written as an empty object, which takes a bracket of its own
    exact readsBack_fold (.nil [])
  · obtain ⟨start, after, hread⟩ := h.artifacts artifacts rfl
    exact rereads_object (rereads_list rereads_text) (n + 1) hread hint

theorem takesMember_artifacts {v : Value} {artifacts : Members (List String)}
    (h : ReadsBack (object (list text) n) v artifacts) (hv : v.Integral) :
    TakesMember (readMember n) (none, []) artifactsField v (some artifacts, []) := by
  intro style hstyle depth rest hrest
  obtain ⟨start, hcolon, hstart⟩ := colon_written hstyle depth hv rest
  exact readMember_ok.mpr
    ⟨start, hcolon, .inl ⟨rfl, rfl, artifacts, h hstyle (depth + 1) hrest hstart, rfl⟩⟩

/-- Fields are folded as they are kept where artifacts are not looked for. -/
theorem folds_fields {fields : Members Value} {artifacts? : Option (Members (List String))}
    (h : Folds (keepMember (value n)) [] fields fields) (hname : artifactsField ∉ fields.names) :
    Folds (readMember n) (artifacts?, []) fields (artifacts?, fields) :=
  h.map (f := fun fields => (artifacts?, fields))
    fun _ _ hmem _ => if_neg (ne_of_mem_of_not_mem hmem hname)

theorem Parts.Obtained.folds_keepMember {parts : Parts} (h : parts.Obtained n)
    (hint : IntegralMembers parts.2) : Folds (keepMember (value n)) [] parts.2 parts.2 := by
  refine Json.folds_keepMember (List.forall₂_same.mpr fun field hfield => ?_) h.distinct
  have hvalue := integralMembers_iff.mp hint field hfield
  obtain ⟨start, after, hread⟩ := h.fields field hfield
  exact ⟨rfl, hvalue, rereads_value n hread hvalue⟩

/-- **A state rereads** wherever two brackets may be opened. -/
theorem rereads (n : Nat) : Rereads (decoder (n + 2)) Document.toValue := by
  intro input state rest hread hint
  obtain ⟨parts, hfold, rfl⟩ := decoder_ok.mp hread
  obtain ⟨m, hm, hparts⟩ := Parts.obtained_of_fold hfold
  obtain rfl := Nat.succ.inj hm
  obtain ⟨hartifacts, hfields⟩ := hint
  have hfolds : Folds (readMember (n + 1)) (none, [])
      ((artifactsField, artifactsValue (parts.1.getD [])) :: parts.2)
      (some (parts.1.getD []), parts.2) :=
    .cons (takesMember_artifacts (hparts.readsBack_artifacts hartifacts) hartifacts)
      (folds_fields (hparts.folds_keepMember hfields) hparts.not_mem)
  exact (readsBack_fold hfolds).map fun parts => (⟨parts.1.getD [], parts.2⟩ : BuildState)

end BuildBrowser.BuildState
