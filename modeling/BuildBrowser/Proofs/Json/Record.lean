import BuildBrowser.Json.Document
import BuildBrowser.Proofs.Json.Reread

/-!
# Records are read back

A record is written as an object with a member for each of its fields, or without the member where
the absence of the field means its value. `Writers` says for each field how its values are written,
and `Field.Restores` what a writer owes: what it writes is read back, and what it leaves out is what
the absence means.

**A record whose writers restore its fields rereads** (`Schema.rereads`). It does not matter in which
order the fields were read, whether from an object or a list, or what was skipped between them: all
that is kept of that is that each field was read or is what its absence means (`Values.Obtained`).
Reading the written record is an induction on its fields: reading more fields leaves the slots of
those before alone (`Folds.cons_field`).
-/

namespace BuildBrowser.Json

/-! ## Fields and how they are written -/

/-- The value is what the absence of the field means. -/
def Field.Absent (f : Field) (a : f.Carrier) : Prop :=
  f.absence = .ifUnnamed a ∨ f.absence = .always a

/-- The value was read as a field of a record, or is what the absence of the field means. -/
def Field.Obtained (n : Nat) (f : Field) (a : f.Carrier) : Prop :=
  (∃ input rest, f.decoder n input = .ok (a, rest)) ∨ f.Absent a

/-- What a writer of a field owes: a value that a record can have is read back from what is written
for it, or is what the absence of the field means if nothing is written. -/
def Field.Restores (n : Nat) (f : Field) (writer : f.Carrier → Option Value) : Prop :=
  ∀ a, f.Obtained n a →
    match writer a with
    | some v => v.Integral → ReadsBack (f.decoder n) v a
    | none => f.Absent a

/-- A writer for each field, which gives a value, or nothing to leave the field out. -/
def Writers : List Field → Type
  | [] => Unit
  | f :: fs => (f.Carrier → Option Value) × Writers fs

/-- The members of a written record. -/
def Writers.members : (fs : List Field) → Writers fs → Values fs → List (String × Value)
  | [], _, _ => []
  | f :: fs, (writer, writers), (a, values) =>
    ((writer a).map fun v => (f.name, v)).toList ++ Writers.members fs writers values

/-- Every writer restores its field. -/
def Writers.Restore (n : Nat) : (fs : List Field) → Writers fs → Prop
  | [], _ => True
  | f :: fs, (writer, writers) => f.Restores n writer ∧ Writers.Restore n fs writers

/-- Every value was read, or is what the absence of its field means. -/
def Values.Obtained (n : Nat) : (fs : List Field) → Values fs → Prop
  | [], _ => True
  | f :: fs, (a, values) => f.Obtained n a ∧ Values.Obtained n fs values

/-- The slots hold nothing but what was read. -/
def Slots.Obtained (n : Nat) : (fs : List Field) → Slots fs → Prop
  | [], _ => True
  | f :: fs, (slot, slots) =>
    (∀ a ∈ slot, ∃ input rest, f.decoder n input = .ok (a, rest)) ∧ Slots.Obtained n fs slots

/-! ## Slots, a field at a time -/

section

variable {n : Nat} {name : String} {input : Bytes} {f : Field} {fs : List Field} {slots : Slots fs}

/-- A member of another name leaves the slot alone. -/
theorem Slots.member_of_ne (h : name ≠ f.name) (slot : Option f.Carrier) :
    Slots.member n name input (f :: fs) (slot, slots) =
      (Slots.member n name input fs slots).map fun outcome =>
        outcome.map fun (slots, rest) => ((slot, slots), rest) :=
  if_neg h

/-- A field that was read is refused. -/
theorem Slots.member_some (a : f.Carrier) :
    Slots.member n f.name input (f :: fs) (some a, slots) =
      some (.error (.here (.duplicateField f.name) (closeObject input))) :=
  if_pos rfl

/-- A field that was not read is read after its colon. -/
theorem Slots.member_none :
    Slots.member n f.name input (f :: fs) (none, slots) =
      some (match colon input with
        | .error fault => .error fault
        | .ok rest => (f.decoder n rest).map fun (a, rest) => ((some a, slots), rest)) :=
  if_pos rfl

theorem Slots.complete_some (a : f.Carrier) :
    Slots.complete (f :: fs) (some a, slots) =
      (Slots.complete fs slots).map fun values => (a, values) :=
  rfl

/-- A field that was not read is what its absence means. -/
theorem Slots.complete_none_of_absent {a : f.Carrier} (h : f.Absent a) :
    Slots.complete (f :: fs) (none, slots) =
      (Slots.complete fs slots).map fun values => (a, values) := by
  obtain ⟨_, _, _, absence⟩ := f
  cases absence <;> rcases h with h | h <;> cases h <;> rfl

/-- A field that was not read and may not be absent is missing. -/
theorem Slots.absent_of_complete {values : Values (f :: fs)}
    (h : Slots.complete (f :: fs) (none, slots) = .ok values) : ∃ a, f.Absent a := by
  obtain ⟨_, _, _, absence⟩ := f
  cases absence with
  | refused => cases h
  | ifUnnamed a => exact ⟨a, .inl rfl⟩
  | always a => exact ⟨a, .inr rfl⟩

end

/-! ## What the fields of a record can be -/

theorem Slots.obtained_empty (n : Nat) : (fs : List Field) → Slots.Obtained n fs (Slots.empty fs)
  | [] => trivial
  | _ :: fs => ⟨fun _ h => (nomatch h), Slots.obtained_empty n fs⟩

theorem Slots.Obtained.member {n : Nat} {name : String} {input rest : Bytes} :
    (fs : List Field) → {slots next : Slots fs} → Slots.Obtained n fs slots →
      Slots.member n name input fs slots = some (.ok (next, rest)) → Slots.Obtained n fs next
  | [], _, _, _, h => nomatch h
  | f :: fs, (slot, slots), next, ⟨hslot, hslots⟩, h => by
    by_cases hname : name = f.name
    · subst hname
      cases slot with
      | some a => cases Option.some.inj ((Slots.member_some a).symm.trans h)
      | none =>
        have h := Option.some.inj (Slots.member_none.symm.trans h)
        split at h
        · cases h
        · obtain ⟨⟨a, after⟩, hread, heq⟩ := map_ok.mp h
          cases heq
          refine ⟨fun b hb => ?_, hslots⟩
          obtain rfl := Option.some.inj hb
          exact ⟨_, _, hread⟩
    · obtain ⟨outcome, hmember, heq⟩ :=
        Option.map_eq_some_iff.mp ((Slots.member_of_ne hname slot).symm.trans h)
      obtain ⟨⟨more, after⟩, rfl, heq⟩ := map_ok.mp heq
      cases heq
      exact ⟨hslot, Slots.Obtained.member fs hslots hmember⟩

/-- Reading a member keeps what the slots hold, be it a field or skipped. -/
theorem Slots.Obtained.read {fs : List Field} {n : Nat} {slots next : Slots fs} {name : String}
    {input rest : Bytes} (h : Slots.Obtained n fs slots)
    (hread : Slots.read fs n slots name input = .ok (next, rest)) : Slots.Obtained n fs next := by
  unfold Slots.read at hread
  split at hread
  · next hmember => exact Slots.Obtained.member fs h (hread ▸ hmember)
  · split at hread
    · cases hread
    · obtain ⟨_, _, heq⟩ := map_ok.mp hread
      cases heq
      exact h

theorem Slots.Obtained.complete {n : Nat} :
    (fs : List Field) → {slots : Slots fs} → {values : Values fs} → Slots.Obtained n fs slots →
      Slots.complete fs slots = .ok values → Values.Obtained n fs values
  | [], _, _, _, _ => trivial
  | f :: fs, (some a, slots), values, ⟨hslot, hslots⟩, h => by
    obtain ⟨more, hmore, rfl⟩ := map_ok.mp ((Slots.complete_some a).symm.trans h)
    exact ⟨.inl (hslot a rfl), Slots.Obtained.complete fs hslots hmore⟩
  | f :: fs, (none, slots), values, ⟨_, hslots⟩, h => by
    obtain ⟨a, habsent⟩ := Slots.absent_of_complete h
    obtain ⟨more, hmore, rfl⟩ := map_ok.mp ((Slots.complete_none_of_absent habsent).symm.trans h)
    exact ⟨.inr habsent, Slots.Obtained.complete fs hslots hmore⟩

theorem Values.obtained_afterEnd {n : Nat} :
    (fs : List Field) → {index : Nat} → {values : Values fs} →
      Values.afterEnd index fs = .ok values → Values.Obtained n fs values
  | [], _, _, _ => trivial
  | f :: fs, index, values, h => by
    rw [Values.afterEnd] at h
    split at h
    · next habsence =>
      obtain ⟨more, hmore, rfl⟩ := map_ok.mp h
      exact ⟨.inr (.inr habsence), Values.obtained_afterEnd fs hmore⟩
    · cases h

theorem Values.obtained_inOrder {record : String} {total n : Nat} :
    (fs : List Field) → {index : Nat} → {input rest : Bytes} → {values : Values fs} →
      Values.inOrder record total n fs index input = .ok (values, rest) → Values.Obtained n fs values
  | [], _, _, _, _, _ => trivial
  | f :: fs, index, input, rest, values, h => by
    rw [Values.inOrder] at h
    split at h
    · cases h
    · split at h
      · next hend =>
        cases h
        exact Values.obtained_afterEnd (f :: fs) hend
      · cases h
    · split at h
      · cases h
      · next hread =>
        obtain ⟨⟨more, after⟩, hmore, heq⟩ := map_ok.mp h
        cases heq
        exact ⟨.inl ⟨_, _, hread⟩, Values.obtained_inOrder fs hmore⟩

variable {α : Type}

/-- A record that was read, from an object or a list, is made of values each of which was read or is
what the absence of its field means. -/
theorem Schema.obtained_of_decoder {schema : Schema α} {n : Nat} {input rest : Bytes} {a : α}
    (h : schema.decoder n input = .ok (a, rest)) :
    ∃ m values, n = m + 1 ∧ schema.build values = a ∧ Values.Obtained m schema.fields values := by
  unfold Schema.decoder at h
  split at h
  · cases n with
    | zero => cases h
    | succ m =>
      dsimp only [Schema.finish] at h
      split at h
      · cases h
      · next slots after hmembers =>
        have hslots := invariant_of_members (P := Slots.Obtained m schema.fields)
          (fun _ _ _ _ _ hs hread => hs.read hread) (Slots.obtained_empty m _) hmembers
        split at h
        · next values hcomplete =>
          cases h
          exact ⟨m, values, rfl, rfl, hslots.complete _ hcomplete⟩
        · cases h
  · cases n with
    | zero => cases h
    | succ m =>
      obtain ⟨⟨values, after⟩, hvalues, heq⟩ := map_ok.mp h
      cases heq
      exact ⟨m, values, rfl, rfl, Values.obtained_inOrder _ hvalues⟩
  · cases h

/-! ## Reading a written record -/

/-- Reading a member of another field leaves the slot alone. -/
theorem Slots.read_of_ne {n : Nat} {name : String} {input : Bytes} {f : Field} {fs : List Field}
    {slots : Slots fs} (h : name ≠ f.name) (slot : Option f.Carrier) :
    Slots.read (f :: fs) n (slot, slots) name input =
      (Slots.read fs n slots name input).map fun (slots, rest) => ((slot, slots), rest) := by
  simp only [Slots.read, Slots.member_of_ne h]
  cases Slots.member n name input fs slots with
  | some outcome => rfl
  | none =>
    cases colon input with
    | error fault => rfl
    | ok rest =>
      simp only [Option.map_none]
      cases skip rest <;> rfl

/-- Members of later fields are folded as if the field were not there. -/
theorem Folds.cons_field {n : Nat} {f : Field} {fs : List Field} {slots next : Slots fs}
    {ms : List (String × Value)} (h : Folds (Slots.read fs n) slots ms next)
    (hnames : f.name ∉ Members.names ms) (slot : Option f.Carrier) :
    Folds (Slots.read (f :: fs) n) (slot, slots) ms (slot, next) :=
  h.map (f := fun slots : Slots fs => ((slot, slots) : Slots (f :: fs)))
    fun _ _ hname _ => Slots.read_of_ne (ne_of_mem_of_not_mem hname hnames) slot

theorem takesMember_field {n : Nat} {f : Field} {fs : List Field} {v : Value} {a : f.Carrier}
    (h : ReadsBack (f.decoder n) v a) (hv : v.Integral) (slots : Slots fs) :
    TakesMember (Slots.read (f :: fs) n) (none, slots) f.name v (some a, slots) := by
  intro style hstyle depth rest hrest
  obtain ⟨input, hcolon, hinput⟩ := colon_written hstyle depth hv rest
  simp only [Slots.read, Slots.member_none, hcolon, h hstyle (depth + 1) hrest hinput]
  rfl

theorem Writers.names_subset :
    (fs : List Field) → {writers : Writers fs} → {values : Values fs} → {name : String} →
      name ∈ Members.names (Writers.members fs writers values) → name ∈ fs.map Field.name
  | [], _, _, _, h => nomatch h
  | f :: fs, (writer, writers), (a, values), name, h => by
    rw [Members.names, Writers.members, List.map_append] at h
    rcases List.mem_append.mp h with h | h
    · cases hv : writer a with
      | none => simp [hv] at h
      | some v =>
        simp only [hv, Option.map_some, Option.toList_some, List.map_cons, List.map_nil,
          List.mem_singleton] at h
        exact h ▸ List.mem_cons_self
    · exact List.mem_cons_of_mem _ (Writers.names_subset fs h)

/-- The written members of fields fill their slots. -/
theorem Writers.folds_members {n : Nat} :
    (fs : List Field) → {writers : Writers fs} → {values : Values fs} →
      (fs.map Field.name).Nodup → Writers.Restore n fs writers → Values.Obtained n fs values →
      IntegralMembers (Writers.members fs writers values) →
      ∃ slots, Folds (Slots.read fs n) (Slots.empty fs) (Writers.members fs writers values) slots ∧
        Slots.complete fs slots = .ok values
  | [], _, _, _, _, _, _ => ⟨(), .nil _, rfl⟩
  | f :: fs, (writer, writers), (a, values), hnames, ⟨hwriter, hwriters⟩, ⟨ha, hvalues⟩, hint => by
    obtain ⟨hnew, hnames⟩ := List.nodup_cons.mp hnames
    have hother : f.name ∉ Members.names (Writers.members fs writers values) :=
      fun h => hnew (Writers.names_subset fs h)
    have hrestore := hwriter a ha
    rw [Writers.members] at hint ⊢
    cases hv : writer a with
    | none =>
      rw [hv] at hrestore hint
      obtain ⟨slots, hfolds, hcomplete⟩ := folds_members fs hnames hwriters hvalues hint
      refine ⟨(none, slots), hfolds.cons_field hother none, ?_⟩
      rw [Slots.complete_none_of_absent hrestore, hcomplete]
      rfl
    | some v =>
      rw [hv] at hrestore hint
      obtain ⟨hvint, hint⟩ := hint
      obtain ⟨slots, hfolds, hcomplete⟩ := folds_members fs hnames hwriters hvalues hint
      refine ⟨(some a, slots), .cons (takesMember_field (hrestore hvint) hvint _)
        (hfolds.cons_field hother (some a)), ?_⟩
      rw [Slots.complete_some, hcomplete]
      rfl

/-- A written object whose members fill the slots of all fields is read back as the record. -/
theorem Schema.readsBack {schema : Schema α} {n : Nat} {ms : List (String × Value)}
    {slots : Slots schema.fields} {values : Values schema.fields}
    (hfolds : Folds (Slots.read schema.fields n) (Slots.empty schema.fields) ms slots)
    (hcomplete : Slots.complete schema.fields slots = .ok values) :
    ReadsBack (schema.decoder (n + 1)) (.object ms) (schema.build values) := by
  intro style hstyle depth input rest _ hinput
  rw [write_object, Utf8.encode_ascii (by decide), List.cons_append] at hinput
  simp [Schema.decoder, hinput, members_written hstyle depth hfolds rest, Schema.finish, hcomplete]

/-- **A record whose writers restore its fields rereads.** -/
theorem Schema.rereads (schema : Schema α) {toValue : α → Value} {n : Nat}
    (writers : Writers schema.fields) (hnames : (schema.fields.map Field.name).Nodup)
    (hvalue : ∀ values, toValue (schema.build values) =
      .object (Writers.members schema.fields writers values))
    (hrestore : Writers.Restore n schema.fields writers) :
    Rereads (schema.decoder (n + 1)) toValue := by
  intro input a rest hread hint
  obtain ⟨m, values, hm, rfl, hvalues⟩ := Schema.obtained_of_decoder hread
  obtain rfl := Nat.succ.inj hm
  rw [hvalue] at hint ⊢
  obtain ⟨slots, hfolds, hcomplete⟩ := Writers.folds_members _ hnames hrestore hvalues hint
  exact Schema.readsBack hfolds hcomplete

/-! ## Kinds of fields -/

/-- A field that must be there is always written. -/
theorem Field.restores_required {name : String} {β : Type} {decoder : Decoder β} {toValue : β → Value}
    {n : Nat} (h : Rereads (decoder n) toValue) :
    (Field.required name decoder).Restores n fun a => some (toValue a) := by
  rintro a (⟨input, rest, hread⟩ | habsent | habsent)
  · exact h hread
  · cases habsent
  · cases habsent

/-- A value of any kind is always written, also if it is null because the field was absent. -/
theorem Field.restores_value (name : String) (n : Nat) :
    (Field.withDefault name value .null).Restores n some := by
  rintro v (⟨input, rest, hread⟩ | habsent | habsent)
  · exact rereads_value n hread
  · cases habsent
  · cases habsent
    exact fun _ => readsBack_value trivial (Nat.zero_le n)

/-- What a reader of values that may be null gives was null, or was read. -/
theorem nullable_ok {β : Type} {item : Decoder β} {n : Nat} {input rest : Bytes} {a? : Option β}
    (h : nullable item n input = .ok (a?, rest)) :
    a? = none ∨ ∃ a start after, a? = some a ∧ item n start = .ok (a, after) := by
  unfold nullable at h
  split at h
  · obtain ⟨_, _, heq⟩ := map_ok.mp h
    cases heq
    exact .inl rfl
  · obtain ⟨⟨a, after⟩, hread, heq⟩ := map_ok.mp h
    cases heq
    exact .inr ⟨a, _, _, rfl, hread⟩

/-- An option that is left out where there is none. -/
theorem Field.restores_option {name : String} {β : Type} {decoder : Decoder β} {toValue : β → Value}
    {n : Nat} (h : Rereads (decoder n) toValue) (hnull : ∀ a, toValue a ≠ .null) :
    (Field.withDefault name (nullable decoder) none).Restores n fun a? => a?.map toValue := by
  rintro a? (⟨input, rest, hread⟩ | habsent | habsent)
  · obtain rfl | ⟨a, start, after, rfl, hitem⟩ := nullable_ok hread
    · exact .inr rfl
    · exact fun hint => (h hitem hint).some hint (hnull a)
  · cases habsent
  · cases habsent
    exact .inr rfl

/-- An option that is written as null where there is none. -/
theorem Field.restores_nullable {name : String} {β : Type} {decoder : Decoder β} {toValue : β → Value}
    {n : Nat} (h : Rereads (decoder n) toValue) (hnull : ∀ a, toValue a ≠ .null) :
    Field.Restores n ⟨name, Option β, nullable decoder, .ifUnnamed none⟩
      fun a? => some ((a?.map toValue).getD .null) := by
  rintro a? (⟨input, rest, hread⟩ | habsent | habsent)
  · obtain rfl | ⟨a, start, after, rfl, hitem⟩ := nullable_ok hread
    · exact fun _ => readsBack_none n
    · exact fun hint => (h hitem hint).some hint (hnull a)
  · cases habsent
    exact fun _ => readsBack_none n
  · cases habsent

end BuildBrowser.Json
