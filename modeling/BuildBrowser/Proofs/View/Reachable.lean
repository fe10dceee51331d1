import BuildBrowser.Proofs.Document.Artifacts
import BuildBrowser.Proofs.Json.Fits
import BuildBrowser.Proofs.Json.Record
import BuildBrowser.Proofs.View.LastReply
import BuildBrowser.View.Scope

/-!
# Scopes that a view can reach

A scope is **reachable** if some session of its view ends in it, with any replies. Two facts about the
value of a scope are proved here.

- **It fits the reader** (`Scope.Reachable.fits`). For the job list and the builds of a job that is
  so of every scope. The value of a build's scope holds the fields of a state document one bracket
  further in than a report may have had them, and this is where reachability counts: a state was read
  within a report, so its fields fit two brackets less than a document, and the scope adds two.
- **It determines the scope** (`Scope.toValue_injective`), reachable or not: the views have different
  names, and what was never received is `null`, which no list and no document is.
-/

namespace BuildBrowser

open Json

/-! ## Reachable scopes -/

/-- Some session of the view of the scope ends in it. -/
inductive Scope.Reachable : Scope → Prop
  | jobList {events : List Event} {scope : JobListScope}
      (session : Session JobListScope.activate JobListScope.operations events scope) :
      Reachable (.jobList scope)
  | jobBuilds {job : JobId} {events : List Event} {scope : JobBuildsScope}
      (session : Session (JobBuildsScope.activate job) JobBuildsScope.operations events scope) :
      Reachable (.jobBuilds scope)
  | buildState {job : JobId} {build : String} {events : List Event} {scope : BuildStateScope}
      (session : Session (BuildStateScope.activate job build) BuildStateScope.operations events
        scope) :
      Reachable (.buildState scope)

/-- The view of a route opens with a reachable scope. -/
theorem Route.reachable_of_activate {route : Route} {events : List Event} {scope : Scope}
    (run : Run route.activate events scope) : scope.Reachable := by
  cases route with
  | jobs =>
    obtain ⟨scope, opened, rfl⟩ := run_bind_pure.mp run
    exact .jobList (.opened opened)
  | jobBuilds job =>
    obtain ⟨scope, opened, rfl⟩ := run_bind_pure.mp run
    exact .jobBuilds (.opened opened)
  | buildState job build =>
    obtain ⟨scope, opened, rfl⟩ := run_bind_pure.mp run
    exact .buildState (.opened opened)

/-! ## What was received -/

/-- What a reply comes to is read from its body. -/
theorem Api.Reply.toExcept_bind_ok {α : Type} {endpoint : Endpoint} {reply : Api.Reply}
    {read : Bytes → Except Api.Error α} {a : α} :
    (reply.toExcept endpoint).bind read = .ok a ↔ ∃ body, reply = .body body ∧ read body = .ok a := by
  cases reply with
  | body content =>
    constructor
    · intro h
      exact ⟨content, rfl, h⟩
    · rintro ⟨body, hbody, h⟩
      obtain rfl := Api.Reply.body.inj hbody
      exact h
  | status code => exact ⟨nofun, nofun⟩
  | failure message => exact ⟨nofun, nofun⟩

section Received

variable {α : Type} [Document α] {endpoint : Endpoint}

theorem Api.Reply.document_ok {reply : Api.Reply} {a : α} :
    reply.document α endpoint = .ok a ↔ ∃ body, reply = .body body ∧ read α body = .ok a := by
  simp only [document, toExcept_bind_ok, readReply, mapError_ok]

/-- The last document that was received was read from the body of a reply. -/
theorem read_of_lastReceived {events : List Event} {a : α}
    (h : lastReceived α endpoint events = some a) :
    ∃ body, .sent ⟨endpoint, none⟩ (.body body) ∈ events ∧ read α body = .ok a := by
  obtain ⟨event, hevent, hdocument⟩ := List.mem_filterMap.mp (List.mem_of_getLast? h)
  cases event with
  | sent request reply =>
    simp only [Event.document?] at hdocument
    split at hdocument
    next hrequest =>
      subst hrequest
      cases hreply : reply.document α endpoint with
      | ok b =>
        rw [hreply] at hdocument
        cases hdocument
        obtain ⟨body, rfl, hread⟩ := Api.Reply.document_ok.mp hreply
        exact ⟨body, hevent, hread⟩
      | error error =>
        rw [hreply] at hdocument
        cases hdocument
    next => cases hdocument
  | loaded path answer => cases hdocument
  | saved path content answer => cases hdocument
  | wrote what => cases hdocument

end Received

/-! ## States that were read -/

namespace BuildState

variable {n : Nat} {state : BuildState}

/-- What a state has that was read with so many brackets allowed inside it: no name is there twice,
and its fields fit. -/
structure Sound (n : Nat) (state : BuildState) : Prop where
  artifacts : state.artifacts.Distinct
  fields : state.fields.Distinct
  not_mem : artifactsField ∉ state.fields.names
  fits : ∀ field ∈ state.fields, field.2.Fits n

theorem sound_of_decoder {input rest : Bytes} (h : decoder (n + 1) input = .ok (state, rest)) :
    state.Sound n := by
  obtain ⟨parts, hfold, rfl⟩ := decoder_ok.mp h
  obtain ⟨m, hm, hparts⟩ := Parts.obtained_of_fold hfold
  obtain rfl := Nat.succ.inj hm
  refine ⟨?_, hparts.distinct, hparts.not_mem, fun field hfield => ?_⟩
  · obtain ⟨_ | artifacts, fields⟩ := parts
    · exact Members.distinct_nil
    · obtain ⟨start, after, hread⟩ := hparts.artifacts artifacts rfl
      obtain ⟨_, _, -, -, hmembers⟩ := fold_ok.mp hread
      exact (keepMember_members hmembers).1
  · obtain ⟨start, after, hread⟩ := hparts.fields field hfield
    exact fits_of_value hread

/-- Taking the file names off the paths leaves all names as they are. -/
theorem Sound.takeRecords (h : state.Sound n) : state.takeRecords.2.Sound n := by
  refine { h with artifacts := ?_ }
  show Members.Distinct (state.artifacts.map fun artifact => (artifact.1, artifact.2.dropLast))
  unfold Members.Distinct
  rw [Members.names_map List.dropLast]
  exact h.artifacts

theorem fits_artifactsValue {artifacts : Members (List String)} (h : artifacts.Distinct) :
    (artifactsValue artifacts).Fits 2 := by
  rw [artifactsValue_eq]
  refine Value.fits_object ?_ fun m hm => ?_
  · unfold Members.Distinct
    rw [Members.names_map segmentsValue]
    exact h
  · obtain ⟨⟨name, segments⟩, -, rfl⟩ := List.mem_map.mp hm
    refine Value.fits_array fun v hv => ?_
    obtain ⟨s, -, rfl⟩ := List.mem_map.mp hv
    exact Value.fits_string s

/-- The value of a state takes one bracket more than its fields, and three for its artifacts. -/
theorem Sound.fits_toValue (h : state.Sound n) (hn : 2 ≤ n) :
    (Document.toValue state).Fits (n + 1) := by
  refine Value.fits_object (List.nodup_cons.mpr ⟨h.not_mem, h.fields⟩) fun m hm => ?_
  rcases List.mem_cons.mp hm with rfl | hm
  · exact (fits_artifactsValue h.artifacts).mono hn
  · exact h.fits m hm

end BuildState

/-- The state of a report was read two brackets inside a document. -/
theorem BuildReport.sound_state {body : Bytes} {report : BuildReport}
    (h : read BuildReport body = .ok report) : ∃ n, n + 2 = maxDepth ∧ report.state.Sound n := by
  obtain ⟨rest, hdecoder, -⟩ := decode_ok.mp h
  obtain ⟨m, ⟨job, build, state, ⟨⟩⟩, hm, rfl, -, -, hstate, -⟩ := Schema.obtained_of_decoder hdecoder
  obtain rfl : m = 125 + 1 := (Nat.succ.inj hm).symm
  refine ⟨125, rfl, ?_⟩
  obtain ⟨input, after, hread⟩ | habsent | habsent := hstate
  · exact BuildState.sound_of_decoder hread
  · cases habsent
  · cases habsent

/-! ## Values of scopes fit -/

theorem fits_optional {α : Type} [Document α] {n : Nat} {a? : Option α}
    (h : ∀ a ∈ a?, (Document.toValue a).Fits n) : (Json.optional a?).Fits n := by
  cases a? with
  | none => exact Value.fits_null
  | some a => exact h a rfl

theorem fits_list {α : Type} [Document α] {n : Nat} {as : List α}
    (h : ∀ a ∈ as, (Document.toValue a).Fits n) : (Document.toValue as).Fits (n + 1) :=
  Value.fits_array (List.forall_mem_map.mpr h)

theorem Identifier.fits_toValue {what : Named} {n : Nat} (id : Identifier what) :
    (Document.toValue id).Fits n :=
  Value.fits_string id.text

theorem BuildNumber.fits_toValue {n : Nat} (build : BuildNumber) : (Document.toValue build).Fits n :=
  Value.fits_number _

theorem ArtifactRecord.fits_toValue {n : Nat} (r : ArtifactRecord) :
    (Document.toValue r).Fits (n + 1) := by
  refine Value.fits_object ?_ ?_
  · show ["id", "fullname", "filename"].Nodup
    decide
  · simp only [List.forall_mem_cons, List.not_mem_nil, false_imp_iff, implies_true, and_true]
    exact ⟨Value.fits_string _, Value.fits_string _,
      fits_optional fun fileName _ => Value.fits_string fileName⟩

/-- The state that a session leaves in the scope of a build is that of a report, without file names. -/
theorem BuildStateScope.sound_state {job : JobId} {build : String} {events : List Event}
    {scope : BuildStateScope}
    (session : Session (activate job build) operations events scope) :
    ∀ state ∈ scope.state, ∃ n, n + 2 = maxDepth ∧ state.Sound n := by
  have hscope := Keeper.scope_of_session load_followed operations_followed session
  obtain rfl := hscope.trans (after_start job build _)
  intro state hstate
  obtain ⟨report, hreport, rfl⟩ := Option.map_eq_some_iff.mp hstate
  obtain ⟨body, -, hread⟩ := read_of_lastReceived hreport
  obtain ⟨n, hn, hsound⟩ := BuildReport.sound_state hread
  exact ⟨n, hn, hsound.takeRecords⟩

namespace Scope

/-- No scope's value names a member twice. -/
theorem distinct_members (scope : Scope) :
    Members.Distinct (("view", .string scope.view.name) :: scope.data) := by
  cases scope with
  | jobList scope =>
    show ["view", "jobs"].Nodup
    decide
  | jobBuilds scope =>
    show ["view", "jobid", "builds"].Nodup
    decide
  | buildState scope =>
    show ["view", "jobid", "build", "state", "artifacts"].Nodup
    decide

/-- **The value of a reachable scope fits the reader.** -/
theorem Reachable.fits {scope : Scope} (h : scope.Reachable) : scope.toValue.Fits maxDepth := by
  refine Value.fits_object scope.distinct_members (List.forall_mem_cons.mpr
    ⟨Value.fits_string _, ?_⟩)
  cases h with
  | @jobList _ scope session =>
    refine List.forall_mem_singleton.mpr (fits_optional fun jobs _ => ?_)
    exact fits_list fun job _ => job.fits_toValue
  | @jobBuilds _ _ scope session =>
    refine List.forall_mem_cons.mpr ⟨Value.fits_string _, List.forall_mem_singleton.mpr ?_⟩
    exact fits_optional fun builds _ => fits_list fun build _ => build.fits_toValue
  | @buildState _ _ _ scope session =>
    refine List.forall_mem_cons.mpr ⟨Value.fits_string _, List.forall_mem_cons.mpr
      ⟨Value.fits_string _, List.forall_mem_cons.mpr ⟨fits_optional fun state hstate => ?_,
        List.forall_mem_singleton.mpr (fits_optional fun records _ => ?_)⟩⟩⟩
    · obtain ⟨n, hn, hsound⟩ := BuildStateScope.sound_state session state hstate
      obtain rfl : n = 125 := Nat.add_right_cancel hn
      exact hsound.fits_toValue (by decide)
    · exact fits_list fun r _ => r.fits_toValue

end Scope

/-! ## Values determine scopes -/

theorem View.name_injective : Function.Injective View.name := by
  intro a b h
  cases a <;> cases b <;> first | rfl | exact absurd h (by decide)

/-- An option is determined by its value where no value of its kind is null. -/
theorem optional_injective {α : Type} [Document α]
    (hvalue : Function.Injective (Document.toValue : α → Value))
    (hnull : ∀ a : α, Document.toValue a ≠ .null) : Function.Injective (Json.optional (α := α)) := by
  intro a? b? h
  cases a? with
  | none =>
    cases b? with
    | none => rfl
    | some b => exact absurd h.symm (hnull b)
  | some a =>
    cases b? with
    | none => exact absurd h (hnull a)
    | some b => exact congrArg some (hvalue h)

theorem toValue_list_injective {α : Type} [Document α]
    (hvalue : Function.Injective (Document.toValue : α → Value)) :
    Function.Injective (Document.toValue : List α → Value) :=
  fun _ _ h => List.map_injective_iff.mpr hvalue (Value.array.inj h)

theorem Identifier.toValue_injective {what : Named} :
    Function.Injective (Document.toValue : Identifier what → Value) := by
  rintro ⟨s⟩ ⟨t⟩ h
  exact congrArg Identifier.mk (Value.string.inj h)

theorem BuildNumber.toValue_injective :
    Function.Injective (Document.toValue : BuildNumber → Value) := by
  rintro ⟨m⟩ ⟨n⟩ h
  exact congrArg BuildNumber.mk (Number.nat.inj (Value.number.inj h))

theorem ArtifactRecord.toValue_injective :
    Function.Injective (Document.toValue : ArtifactRecord → Value) := by
  rintro ⟨⟨id⟩, fullName, fileName⟩ ⟨⟨id'⟩, fullName', fileName'⟩ h
  have hmembers := Value.object.inj h
  simp only [List.cons.injEq, Prod.mk.injEq, Value.string.injEq, true_and, and_true] at hmembers
  obtain ⟨rfl, rfl, hfileName⟩ := hmembers
  obtain rfl := optional_injective (fun _ _ => Value.string.inj) nofun hfileName
  rfl

theorem BuildState.toValue_injective : Function.Injective (Document.toValue : BuildState → Value) := by
  rintro ⟨artifacts, fields⟩ ⟨artifacts', fields'⟩ h
  obtain ⟨hartifacts, rfl⟩ := List.cons.inj (Value.object.inj h)
  obtain rfl := artifactsValue_injective (Prod.mk.inj hartifacts).2
  rfl

namespace Scope

/-- **The value of a scope determines the scope.** -/
theorem toValue_injective : Function.Injective toValue := by
  intro a b h
  obtain ⟨hname, hdata⟩ := List.cons.inj (Value.object.inj h)
  have hview : a.view = b.view := View.name_injective (Value.string.inj (Prod.mk.inj hname).2)
  cases a with
  | jobList a =>
    cases b with
    | jobList b =>
      obtain ⟨jobs⟩ := a
      obtain ⟨jobs'⟩ := b
      simp only [data, List.cons.injEq, Prod.mk.injEq, true_and, and_true] at hdata
      obtain rfl := optional_injective (toValue_list_injective Identifier.toValue_injective) nofun hdata
      rfl
    | jobBuilds b => cases hview
    | buildState b => cases hview
  | jobBuilds a =>
    cases b with
    | jobBuilds b =>
      obtain ⟨⟨job⟩, builds⟩ := a
      obtain ⟨⟨job'⟩, builds'⟩ := b
      simp only [data, List.cons.injEq, Prod.mk.injEq, Value.string.injEq, true_and, and_true] at hdata
      obtain ⟨rfl, hbuilds⟩ := hdata
      obtain rfl :=
        optional_injective (toValue_list_injective BuildNumber.toValue_injective) nofun hbuilds
      rfl
    | jobList b => cases hview
    | buildState b => cases hview
  | buildState a =>
    cases b with
    | buildState b =>
      obtain ⟨⟨job⟩, build, state, artifacts⟩ := a
      obtain ⟨⟨job'⟩, build', state', artifacts'⟩ := b
      simp only [data, List.cons.injEq, Prod.mk.injEq, Value.string.injEq, true_and, and_true] at hdata
      obtain ⟨rfl, rfl, hstate, hartifacts⟩ := hdata
      obtain rfl := optional_injective BuildState.toValue_injective nofun hstate
      obtain rfl :=
        optional_injective (toValue_list_injective ArtifactRecord.toValue_injective) nofun hartifacts
      rfl
    | jobList b => cases hview
    | jobBuilds b => cases hview

end Scope

end BuildBrowser
