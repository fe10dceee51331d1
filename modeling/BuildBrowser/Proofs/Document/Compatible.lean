import BuildBrowser.Document.Job
import BuildBrowser.Document.Task
import BuildBrowser.Proofs.Document.BuildState
import BuildBrowser.Proofs.Json.Compatible
import BuildBrowser.Proofs.Members

/-!
# Replies may grow

A server says more in its next version than in this one. The records that are read from its replies are
read the same then, in whatever order their members stand and whatever is said in the new ones.

A state has no fixed fields and is no record of slots: it keeps every member. `Adds` says what one member
does to the two parts that a state is folded into, and `effects_among` that members of other names do
the same where one more field stands among theirs. So a state that has grown by a field is **the state
it was, with that field in its place** (`BuildState.forwardCompatible`).

The name of a new member must be a text, also where the member is skipped: a name is compared with those
of the fields before anything is known of it.
-/

namespace BuildBrowser

/-! ## Members of a state -/

namespace BuildState

open Json

variable {n : Nat}

theorem local_readMember (n : Nat) (parts : Parts) (name : String) : Local (readMember n parts name) := by
  obtain ⟨artifacts?, fields⟩ := parts
  by_cases hname : name = artifactsField
  · cases artifacts? with
    | some artifacts =>
      intro input rest next h
      rw [readMember, if_pos hname] at h
      cases h
    | none =>
      refine local_afterColon
        ((settled_text.list.object.sees n).map fun artifacts => (some artifacts, fields)) fun input => ?_
      exact if_pos hname
  · have hfield : readMember n (artifacts?, fields) name = _ := funext fun input => if_neg hname
    rw [hfield]
    exact (local_keepMember (local_value n) fields name).map fun fields => (artifacts?, fields)

theorem agreesAfterColon_readMember (n : Nat) (parts : Parts) (name : String) :
    AgreesAfterColon (readMember n parts name) := by
  intro input rest next h
  obtain ⟨start, hcolon, ⟨-, -, artifacts, hread, -⟩ | ⟨-, v, hread, -⟩⟩ := readMember_ok.mp h
  · exact ⟨start, colon_ok.mp hcolon, settled_text.list.object.ends n hread⟩
  · exact ⟨start, colon_ok.mp hcolon, agrees_value n hread⟩

theorem settled_decoder : Settled decoder := by
  have hparts : Settled (fold (.record "BuildState") readMember (none, [])) :=
    ⟨local_fold local_readMember _, agrees_fold agreesAfterColon_readMember _⟩
  exact hparts.map fun parts => (⟨parts.1.getD [], parts.2⟩ : BuildState)

/-- What a member does to the parts of a state: it is the artifacts, which must be missing, or a field,
which is written. -/
def Adds (n : Nat) (m : Member) (name : String) (parts next : Parts) : Prop :=
  (name = artifactsField ∧ parts.1 = none ∧ ∃ artifacts,
    object (list text) n m.toItem.text = .ok (artifacts, m.after) ∧ next = (some artifacts, parts.2)) ∨
  (name ≠ artifactsField ∧ ∃ v,
    value n m.toItem.text = .ok (v, m.after) ∧ next = (parts.1, Members.insert name v parts.2))

/-- **A member of a state is its artifacts or one of its fields**, whatever stands after it. -/
theorem acts_readMember : Acts (readMember n) (Adds n) := by
  intro m hvalue parts name tail htail next rest
  have hartifacts (artifacts : Members (List String)) :
      object (list text) n (m.toItem.text ++ tail) = .ok (artifacts, rest) ↔
        rest = m.after ++ tail ∧ object (list text) n m.toItem.text = .ok (artifacts, m.after) :=
    item_settled (settled_text.list.object.sees n) (settled_text.list.object.ends n) hvalue htail
  have hfield (v : Value) : value n (m.toItem.text ++ tail) = .ok (v, rest) ↔
      rest = m.after ++ tail ∧ value n m.toItem.text = .ok (v, m.after) :=
    item_settled (local_value n) (agrees_value n) hvalue htail
  simp only [readMember_ok, colon_member, Except.ok.injEq, exists_eq_left', hartifacts, hfield]
  constructor
  · rintro (⟨hname, hnone, artifacts, ⟨hrest, halone⟩, hnext⟩ | ⟨hname, v, ⟨hrest, halone⟩, hnext⟩)
    · exact ⟨hrest, .inl ⟨hname, hnone, artifacts, halone, hnext⟩⟩
    · exact ⟨hrest, .inr ⟨hname, v, halone, hnext⟩⟩
  · rintro ⟨hrest, ⟨hname, hnone, artifacts, halone, hnext⟩ | ⟨hname, v, halone, hnext⟩⟩
    · exact .inl ⟨hname, hnone, artifacts, ⟨hrest, halone⟩, hnext⟩
    · exact .inr ⟨hname, v, ⟨hrest, halone⟩, hnext⟩

/-- An object is decoded as the state of the parts that its members give. -/
theorem decode_object {ms : List Member} {input : Bytes} (h : ObjectText ms input) {state : BuildState} :
    decode decoder input = .ok state ↔
      ∃ parts, Effects (Adds (maxDepth - 1)) ms (none, []) parts ∧ state = ⟨parts.1.getD [], parts.2⟩ := by
  obtain ⟨start, after, hstart, hafter, hmembers⟩ := h.exists_start
  simp only [decode_ok, decoder_ok, fold_ok]
  constructor
  · rintro ⟨rest, ⟨parts, ⟨m, start', hm, hstart', hread⟩, rfl⟩, -⟩
    obtain rfl := Nat.succ.inj hm
    obtain rfl := List.tail_eq_of_cons_eq (hstart.symm.trans hstart')
    exact ⟨parts, ((hmembers acts_readMember _ _ _).mp hread).2, rfl⟩
  · rintro ⟨parts, heffects, rfl⟩
    exact ⟨after, ⟨parts, ⟨_, start, rfl, hstart, (hmembers acts_readMember _ _ _).mpr ⟨rfl, heffects⟩⟩,
      rfl⟩, hafter⟩

/-! ## One more field -/

section

variable {m : Member} {ms : List Member} {k name : String} {parts next : Parts}
  {artifacts? : Option (Members (List String))} {before after : Members Value}

theorem Adds.mem_names (h : Adds n m k parts next) :
    name ∈ next.2.names ↔ name ∈ parts.2.names ∨ (name ≠ artifactsField ∧ name = k) := by
  obtain ⟨rfl, -, artifacts, -, rfl⟩ | ⟨hk, v, -, rfl⟩ := h
  · simp
  · rw [Members.mem_names_insert]
    constructor
    · rintro (hmem | rfl)
      · exact .inl hmem
      · exact .inr ⟨hk, rfl⟩
    · exact Or.imp_right And.right

/-- The fields of a state have the names of the members, but for that of the artifacts. -/
theorem mem_names_of_effects (h : Effects (Adds n) ms parts next) :
    name ∈ next.2.names ↔
      name ∈ parts.2.names ∨ (name ≠ artifactsField ∧ ∃ m ∈ ms, m.Named name) := by
  induction h with
  | nil parts => simp
  | @cons m ms k parts between next hnamed hadds _ ih =>
    have hmember : name = k ↔ m.Named name :=
      ⟨fun heq => heq ▸ hnamed, fun hother => Member.named_unique hother hnamed⟩
    rw [ih, hadds.mem_names, hmember, or_assoc, ← and_or_left, List.exists_mem_cons_iff]

/-- A member of another name does the same where one more field stands among the fields. -/
theorem Adds.among (h : Adds n m k (artifacts?, before ++ after) next) (hk : name ≠ k)
    (v : Value) :
    ∃ before' after', next.2 = before' ++ after' ∧ before'.names = before.names ∧
      Adds n m k (artifacts?, before ++ (name, v) :: after) (next.1, before' ++ (name, v) :: after') := by
  obtain ⟨hname, hnone, artifacts, hread, rfl⟩ | ⟨hname, w, hread, rfl⟩ := h
  · exact ⟨before, after, rfl, rfl, .inl ⟨hname, hnone, artifacts, hread, rfl⟩⟩
  · have hinsert := Members.insert_append k w before after
    have hamong := Members.insert_append k w before ((name, v) :: after)
    by_cases hmem : k ∈ before.names
    · rw [if_pos hmem] at hinsert hamong
      refine ⟨Members.insert k w before, after, hinsert, ?_, .inr ⟨hname, w, hread, ?_⟩⟩
      · rw [Members.names_insert, if_pos hmem]
      · rw [hamong]
    · rw [if_neg hmem] at hinsert hamong
      refine ⟨before, Members.insert k w after, hinsert, rfl, .inr ⟨hname, w, hread, ?_⟩⟩
      rw [hamong, Members.insert, if_neg hk]

/-- Members of other names do the same where one more field stands among the fields. -/
theorem effects_among (h : Effects (Adds n) ms (artifacts?, before ++ after) next)
    (hname : ∀ m ∈ ms, ¬m.Named name) (v : Value) :
    ∃ before' after', next.2 = before' ++ after' ∧ before'.names = before.names ∧
      Effects (Adds n) ms (artifacts?, before ++ (name, v) :: after)
        (next.1, before' ++ (name, v) :: after') := by
  induction ms generalizing artifacts? before after with
  | nil =>
    obtain rfl := Effects.nil_iff.mp h
    exact ⟨before, after, rfl, rfl, .nil _⟩
  | cons m ms ih =>
    have ⟨hm, hms⟩ := List.forall_mem_cons.mp hname
    obtain ⟨k, between, hnamed, hadds, hmore⟩ := Effects.cons_iff.mp h
    have hk : name ≠ k := fun heq => hm (heq ▸ hnamed)
    obtain ⟨before₁, after₁, hfields, hnames₁, hhead⟩ := hadds.among hk v
    obtain ⟨artifacts₁?, _⟩ := between
    obtain rfl : _ = before₁ ++ after₁ := hfields
    obtain ⟨before₂, after₂, hfields, hnames₂, htail⟩ := ih hmore hms
    exact ⟨before₂, after₂, hfields, hnames₂.trans hnames₁, .cons hnamed hhead htail⟩

end

/-- An object that is read as a state is read so with one more field: it stands after the fields whose
names stand before its own, and the artifacts are the same. -/
def ForwardCompatible : Prop :=
  ∀ ⦃pre post : List Member⦄ ⦃x : Member⦄ ⦃input input' : Bytes⦄ ⦃name : String⦄ ⦃v : Value⦄
    ⦃state : BuildState⦄,
    ObjectText (pre ++ post) input → read BuildState input = .ok state →
    x.Named name → name ≠ artifactsField → (∀ m ∈ pre ++ post, ¬m.Named name) →
    value (maxDepth - 1) x.value = .ok (v, []) →
    ObjectText (pre ++ x :: post) input' →
    ∃ before after, state.fields = before ++ after ∧
      (∀ k, k ∈ before.names ↔ k ≠ artifactsField ∧ ∃ m ∈ pre, m.Named k) ∧
      read BuildState input' = .ok ⟨state.artifacts, before ++ (name, v) :: after⟩

/-- **States are forward compatible**: a field that is new to them is kept in its place. -/
theorem forwardCompatible : ForwardCompatible := by
  intro pre post x input input' name v state hinput hread hx hname hfresh hv hinput'
  obtain ⟨parts, heffects, rfl⟩ := (decode_object hinput).mp hread
  obtain ⟨⟨artifacts?, fields⟩, hpre, hpost⟩ := Effects.append_iff.mp heffects
  have hpost' : Effects (Adds (maxDepth - 1)) post (artifacts?, fields ++ []) parts := by
    rwa [List.append_nil]
  obtain ⟨before, after, hfields, hnames, hamong⟩ :=
    effects_among hpost' (fun m hm => hfresh m (List.mem_append_right pre hm)) v
  have hbefore (k : String) : k ∈ before.names ↔ k ≠ artifactsField ∧ ∃ m ∈ pre, m.Named k := by
    rw [hnames, mem_names_of_effects hpre]
    simp [Members.names]
  have hfields' : name ∉ Members.names fields := by
    rw [← hnames, hbefore]
    rintro ⟨-, m, hm, hnamed⟩
    exact hfresh m (List.mem_append_left post hm) hnamed
  have hvalue : ValueText x.value := by
    cases hinput' with
    | object _ _ _ hvalues => exact hvalues x (List.mem_append_right pre List.mem_cons_self)
  have hadds : Adds (maxDepth - 1) x name (artifacts?, fields) (artifacts?, fields ++ [(name, v)]) :=
    .inr ⟨hname, v, value_item hvalue hv, by rw [Members.insert_of_not_mem hfields']⟩
  have hall : Effects (Adds (maxDepth - 1)) (pre ++ x :: post) (none, [])
      (parts.1, before ++ (name, v) :: after) :=
    Effects.append_iff.mpr ⟨_, hpre, .cons hx hadds hamong⟩
  exact ⟨before, after, hfields, hbefore, (decode_object hinput').mpr ⟨_, hall, rfl⟩⟩

end BuildState

/-! ## Replies -/

open Json

theorem Identifier.settled {what : Named} :
    Settled (Document.decoder : Decoder (Identifier what)) :=
  settled_text.map Identifier.mk

theorem BuildNumber.settled : Settled (Document.decoder : Decoder BuildNumber) :=
  settled_unsigned.map BuildNumber.mk

/-- **Replies are forward compatible.** Every record that a server sends is read the same if its members
stand in another order, and with members among them that it has no field for, whatever their values. A
state keeps such a member as one field more, in its place. -/
theorem replies_forward_compatible :
    ForwardCompatible JobListing ["jobs"] ∧
    ForwardCompatible BuildListing ["builds", "last_build_number"] ∧
    ForwardCompatible BuildReport ["job_id", "build_number", "state"] ∧
    ForwardCompatible TriggerReceipt ["job_id", "build_number", "state"] ∧
    ForwardCompatible TaskListing ["tasks"] ∧
    ForwardCompatible ArtifactRecord ["id", "fullname", "filename"] ∧
    ForwardCompatible JobConfig ["job_id", "config"] ∧
    ForwardCompatible WorkerTask ["id", "data"] ∧
    BuildState.ForwardCompatible := by
  refine ⟨?jobs, ?builds, ?report, ?receipt, ?tasks, ?artifact, ?config, ?task,
    BuildState.forwardCompatible⟩
  case jobs =>
    refine JobListing.schema.forwardCompatible rfl ?_
    simp only [JobListing.schema, List.forall_mem_cons]
    exact ⟨Identifier.settled.list, List.forall_mem_nil _⟩
  case builds =>
    refine BuildListing.schema.forwardCompatible rfl ?_
    simp only [BuildListing.schema, List.forall_mem_cons]
    exact ⟨BuildNumber.settled.list, BuildNumber.settled.nullable, List.forall_mem_nil _⟩
  case report =>
    refine BuildReport.schema.forwardCompatible rfl ?_
    simp only [BuildReport.schema, List.forall_mem_cons]
    exact ⟨Identifier.settled.nullable, BuildNumber.settled.nullable, BuildState.settled_decoder,
      List.forall_mem_nil _⟩
  case receipt =>
    refine TriggerReceipt.schema.forwardCompatible rfl ?_
    simp only [TriggerReceipt.schema, List.forall_mem_cons]
    exact ⟨Identifier.settled, BuildNumber.settled, settled_value, List.forall_mem_nil _⟩
  case tasks =>
    refine TaskListing.schema.forwardCompatible rfl ?_
    simp only [TaskListing.schema, List.forall_mem_cons]
    exact ⟨Identifier.settled.list, List.forall_mem_nil _⟩
  case artifact =>
    refine ArtifactRecord.schema.forwardCompatible rfl ?_
    simp only [ArtifactRecord.schema, List.forall_mem_cons]
    exact ⟨Identifier.settled, settled_text, settled_text.nullable, List.forall_mem_nil _⟩
  case config =>
    refine JobConfig.schema.forwardCompatible rfl ?_
    simp only [JobConfig.schema, List.forall_mem_cons]
    exact ⟨Identifier.settled, settled_value, List.forall_mem_nil _⟩
  case task =>
    refine WorkerTask.schema.forwardCompatible rfl ?_
    simp only [WorkerTask.schema, List.forall_mem_cons]
    exact ⟨Identifier.settled, settled_value, List.forall_mem_nil _⟩

/-- A listing of jobs with a number out of range under a name that it has no field for, and a state with
a field that is new. -/
theorem grown_replies_read :
    read JobListing (utf8 "\x7b\"x\":1e999,\"jobs\":[]\x7d") = .ok ⟨[]⟩ ∧
    read BuildState (utf8 "\x7b\"s\":0,\"x\":[]\x7d") =
      .ok ⟨[], [("s", .number (.nat 0)), ("x", .array [])]⟩ := by
  have ⟨hlisting, _, _, _, _, _, _, _, hstate⟩ := replies_forward_compatible
  have hname : StringText [0x78] := .plain (by decide +kernel)
  have hjobs : StringText [0x6A, 0x6F, 0x62, 0x73] := .plain (by decide +kernel)
  have hs : StringText [0x73] := .plain (by decide +kernel)
  have hnone : ∀ item ∈ ([] : List Item), ValueText item.value := List.forall_mem_nil _
  have hempty : ValueText [0x5B, 0x5D] := .list blanks_nil hnone
  have hzero : ValueText [0x30] := .number (.parts .zero .missing .missing)
  have hdigit : DigitsText [0x31] := .digits (by decide) (List.forall_mem_nil _)
  have hexponent : ExponentText [0x65, 0x39, 0x39, 0x39] :=
    .digits (.inl rfl) (.inl rfl) (.digits (by decide) (by decide +kernel))
  have hlarge : ValueText [0x31, 0x65, 0x39, 0x39, 0x39] :=
    .number (.parts (.digits (by decide) hdigit) .missing hexponent)
  constructor
  · have hread : read JobListing (utf8 "\x7b\"jobs\":[]\x7d") = .ok ⟨[]⟩ := by decide +kernel
    refine @hlisting [.bare _ [0x5B, 0x5D] hjobs] [.bare _ [0x31, 0x65, 0x39, 0x39, 0x39] hname]
      [.bare _ [0x31, 0x65, 0x39, 0x39, 0x39] hname, .bare _ [0x5B, 0x5D] hjobs] _ _ _ (.bare ?_ ?_) hread
      ?_ (.swap _ _ []) (.bare ?_ ?_)
    · exact List.forall_mem_cons.mpr ⟨hempty, List.forall_mem_nil _⟩
    · simp only [List.map, Member.text_bare]
      decide +kernel
    · exact List.forall_mem_cons.mpr ⟨⟨"x", rfl, by decide⟩, List.forall_mem_nil _⟩
    · exact List.forall_mem_cons.mpr ⟨hlarge, List.forall_mem_cons.mpr ⟨hempty, List.forall_mem_nil _⟩⟩
    · simp only [List.map, Member.text_bare]
      decide +kernel
  · have hread : read BuildState (utf8 "\x7b\"s\":0\x7d") = .ok ⟨[], [("s", .number (.nat 0))]⟩ := by
      decide +kernel
    have hinput : ObjectText [.bare _ [0x30] hs] (utf8 "\x7b\"s\":0\x7d") := by
      refine .bare (List.forall_mem_cons.mpr ⟨hzero, List.forall_mem_nil _⟩) ?_
      simp only [List.map, Member.text_bare]
      decide +kernel
    have hinput' : ObjectText [.bare _ [0x30] hs, .bare _ [0x5B, 0x5D] hname]
        (utf8 "\x7b\"s\":0,\"x\":[]\x7d") := by
      refine .bare
        (List.forall_mem_cons.mpr ⟨hzero, List.forall_mem_cons.mpr ⟨hempty, List.forall_mem_nil _⟩⟩) ?_
      simp only [List.map, Member.text_bare]
      decide +kernel
    have hfresh : ¬(Member.bare _ [0x30] hs).Named "x" := fun h =>
      absurd (Member.named_unique h rfl) (by decide : "x" ≠ "s")
    have hvalue : value (maxDepth - 1) [0x5B, 0x5D] = .ok (.array [], []) := by decide +kernel
    obtain ⟨before, after, hfields, hnames, hgrown⟩ := @hstate [_] [] (.bare _ _ hname) _ _ "x" _ _
      hinput hread rfl (by decide) (List.forall_mem_cons.mpr ⟨hfresh, List.forall_mem_nil _⟩) hvalue
      hinput'
    cases before with
    | nil => exact nomatch (hnames "s").mpr ⟨by decide, _, List.mem_cons_self, rfl⟩
    | cons first before =>
      obtain ⟨rfl, hmore⟩ := List.cons.inj hfields
      obtain ⟨rfl, rfl⟩ := List.append_eq_nil_iff.mp hmore.symm
      exact hgrown

/-- A name with half a surrogate pair is a string of the grammar, and the name of no field, but it is no
text: the listing with such a member is refused. -/
theorem listing_refused_of_unpaired_name :
    ∃ jobs other : Member,
      ObjectText [jobs] (utf8 "\x7b\"jobs\":[]\x7d") ∧
      read JobListing (utf8 "\x7b\"jobs\":[]\x7d") = .ok ⟨[]⟩ ∧
      (∀ name ∈ ["jobs"], ¬other.Named name) ∧
      ObjectText [other, jobs] (utf8 "\x7b\"\\ud800\":0,\"jobs\":[]\x7d") ∧
      read JobListing (utf8 "\x7b\"\\ud800\":0,\"jobs\":[]\x7d") ≠ .ok ⟨[]⟩ := by
  have hjobs : StringText [0x6A, 0x6F, 0x62, 0x73] := .plain (by decide +kernel)
  have hother : StringText [0x5C, 0x75, 0x64, 0x38, 0x30, 0x30] :=
    .number (.inr (.inr (by decide))) (.inl (by decide)) (.inl (by decide)) (.inl (by decide)) .nil
  have hnone : ∀ item ∈ ([] : List Item), ValueText item.value := List.forall_mem_nil _
  have hempty : ValueText [0x5B, 0x5D] := .list blanks_nil hnone
  have hzero : ValueText [0x30] := .number (.parts .zero .missing .missing)
  refine ⟨.bare _ [0x5B, 0x5D] hjobs, .bare _ [0x30] hother, .bare ?_ ?_, by decide +kernel, ?_,
    .bare ?_ ?_, by decide +kernel⟩
  · exact List.forall_mem_cons.mpr ⟨hempty, List.forall_mem_nil _⟩
  · simp only [List.map, Member.text_bare]
    decide +kernel
  · intro name _ hnamed
    have hrefused : (string [0x5C, 0x75, 0x64, 0x38, 0x30, 0x30, 0x22]).toOption = none := by
      decide +kernel
    exact nomatch hrefused.symm.trans (congrArg Except.toOption hnamed)
  · exact List.forall_mem_cons.mpr ⟨hzero, List.forall_mem_cons.mpr ⟨hempty, List.forall_mem_nil _⟩⟩
  · simp only [List.map, Member.text_bare]
    decide +kernel

end BuildBrowser
