import BuildBrowser.Proofs.Json.Object
import BuildBrowser.Proofs.Json.Record

/-!
# Records may grow

A record is read from an object by its slots, one for each field. `Fills` says what one member does to
them: it fills the slot of its name, or leaves all of them alone if it has another name. Such members
can be exchanged (`Fills.exchange`), and those with other names than the fields can be left out, since
what is skipped ends where its value ends.

So **records are forward compatible** (`Schema.forwardCompatible`): a server that says more than a
record asks for, or says it in another order, is read as before.
-/

namespace BuildBrowser.Json

variable {α : Type} {n : Nat}

/-! ## Members of a record -/

/-- What a member does to the slots of a record: it fills the slot of its name, which must be empty, or
has another name than all of them. -/
def Fills (n : Nat) (m : Member) (name : String) : (fs : List Field) → Slots fs → Slots fs → Prop
  | [], _, _ => True
  | f :: fs, (slot, slots), (next, more) =>
    (name = f.name ∧ slot = none ∧ more = slots ∧
      ∃ a, f.decoder n m.toItem.text = .ok (a, m.after) ∧ next = some a) ∨
    (name ≠ f.name ∧ next = slot ∧ Fills n m name fs slots more)

theorem colon_member (m : Member) (tail : Bytes) :
    colon (m.textAfterName ++ tail) = .ok (m.toItem.text ++ tail) := by
  refine colon_ok.mpr ?_
  rw [Member.textAfterName, List.append_assoc, skipBlanks_append m.afterName_blank]
  exact skipBlanks_of_not_blank (by decide) _

/-- **A member of a record fills its slot or is passed over**, whatever stands after it. -/
theorem acts_read {fs : List Field} (hfs : ∀ f ∈ fs, Settled f.decoder) :
    Acts (Slots.read fs n) fun m name => Fills n m name fs := by
  induction fs with
  | nil =>
    intro m hvalue s name tail htail t rest
    have hskip := skip_of_passes (passes_item hvalue (passes_text hvalue) htail)
    simp only [Slots.read, Slots.member, colon_member, hskip, Fills, and_true, Except.map]
    constructor
    · intro h
      cases h
      rfl
    · rintro rfl
      rfl
  | cons f fs ih =>
    intro m hvalue s name tail htail t rest
    obtain ⟨slot, slots⟩ := s
    obtain ⟨next, more⟩ := t
    obtain ⟨hf, hfs⟩ := List.forall_mem_cons.mp hfs
    by_cases hname : name = f.name
    · subst hname
      cases slot with
      | some a => simp [Slots.read, Slots.member_some, Fills]
      | none =>
        simp only [Slots.read, Slots.member_none, colon_member, map_ok]
        constructor
        · rintro ⟨⟨a, after⟩, hread, heq⟩
          obtain ⟨rfl, halone⟩ := (item_settled (hf.sees n) (hf.ends n) hvalue htail).mp hread
          cases heq
          exact ⟨rfl, .inl ⟨rfl, rfl, rfl, a, halone, rfl⟩⟩
        · rintro ⟨rfl, ⟨-, -, rfl, a, halone, rfl⟩ | ⟨hne, -⟩⟩
          · exact ⟨_, (item_settled (hf.sees n) (hf.ends n) hvalue htail).mpr ⟨rfl, halone⟩, rfl⟩
          · exact absurd rfl hne
    · rw [Slots.read_of_ne hname, map_ok]
      constructor
      · rintro ⟨⟨more, after⟩, hread, heq⟩
        obtain ⟨rfl, hfills⟩ := (ih hfs hvalue slots name htail more after).mp hread
        cases heq
        exact ⟨rfl, .inr ⟨hname, rfl, hfills⟩⟩
      · rintro ⟨rfl, ⟨heq, -⟩ | ⟨-, rfl, hfills⟩⟩
        · exact absurd heq hname
        · exact ⟨_, (ih hfs hvalue slots name htail more _).mpr ⟨rfl, hfills⟩, rfl⟩

/-- A member whose name is no field changes nothing. -/
theorem Fills.pass {m : Member} {name : String} :
    {fs : List Field} → name ∉ fs.map Field.name → (slots : Slots fs) → Fills n m name fs slots slots
  | [], _, _ => trivial
  | _ :: _, hname, (_, slots) =>
    have ⟨hne, hnames⟩ := not_or.mp (mt List.mem_cons.mpr hname)
    .inr ⟨hne, rfl, Fills.pass hnames slots⟩

/-- Two members can be exchanged: they fill different slots, or change nothing. -/
theorem Fills.exchange {m m' : Member} {name name' : String} :
    {fs : List Field} → {s t u : Slots fs} → Fills n m name fs s t → Fills n m' name' fs t u →
      ∃ t', Fills n m' name' fs s t' ∧ Fills n m name fs t' u
  | [], s, _, _, _, _ => ⟨s, trivial, trivial⟩
  | _ :: _, (slot, slots), (next, more), (last, final), h, h' => by
    obtain ⟨rfl, rfl, rfl, a, ha, rfl⟩ | ⟨hname, rfl, hfills⟩ := h
    · obtain ⟨-, hnone, -⟩ | ⟨hname', rfl, hfills'⟩ := h'
      · cases hnone
      · exact ⟨(none, final), .inr ⟨hname', rfl, hfills'⟩, .inl ⟨rfl, rfl, rfl, a, ha, rfl⟩⟩
    · obtain ⟨rfl, rfl, rfl, a, ha, rfl⟩ | ⟨hname', rfl, hfills'⟩ := h'
      · exact ⟨(some a, slots), .inl ⟨rfl, rfl, rfl, a, ha, rfl⟩, .inr ⟨hname, rfl, hfills⟩⟩
      · obtain ⟨between, hfirst, hsecond⟩ := Fills.exchange hfills hfills'
        exact ⟨(_, between), .inr ⟨hname', rfl, hfirst⟩, .inr ⟨hname, rfl, hsecond⟩⟩

/-! ## Records -/

theorem Schema.finish_ok {schema : Schema α} {outcome : Outcome (Slots schema.fields)} {rest : Bytes}
    {a : α} : schema.finish outcome = .ok (a, rest) ↔
      ∃ slots values, outcome = .ok (slots, rest) ∧ Slots.complete schema.fields slots = .ok values ∧
        a = schema.build values := by
  cases outcome with
  | error fault => simp [Schema.finish]
  | ok found =>
    obtain ⟨slots, after⟩ := found
    cases hcomplete : Slots.complete schema.fields slots with
    | error cause => simp [Schema.finish, hcomplete]
    | ok values => simp [Schema.finish, hcomplete, and_comm, eq_comm]

/-- An object is decoded as the record of the slots that its members fill. -/
theorem Schema.decode_object {schema : Schema α} (hfields : ∀ f ∈ schema.fields, Settled f.decoder)
    {ms : List Member} {input : Bytes} (h : ObjectText ms input) {a : α} :
    decode schema.decoder input = .ok a ↔
      ∃ slots values,
        Effects (fun m name => Fills (maxDepth - 1) m name schema.fields) ms (Slots.empty schema.fields)
          slots ∧
        Slots.complete schema.fields slots = .ok values ∧ a = schema.build values := by
  obtain ⟨start, after, hstart, hafter, hmembers⟩ := h.exists_start
  have hdecoder : schema.decoder maxDepth input =
      schema.finish (members (Slots.read schema.fields (maxDepth - 1)) (Slots.empty schema.fields)
        start) := by
    simp only [Schema.decoder, hstart]
    rfl
  simp only [decode_ok, hdecoder, Schema.finish_ok, hmembers (acts_read hfields)]
  constructor
  · rintro ⟨rest, ⟨slots, values, ⟨-, heffects⟩, hcomplete, rfl⟩, -⟩
    exact ⟨slots, values, heffects, hcomplete, rfl⟩
  · rintro ⟨slots, values, heffects, hcomplete, rfl⟩
    exact ⟨after, ⟨slots, values, ⟨rfl, heffects⟩, hcomplete, rfl⟩, hafter⟩

/-- A text of an object that is read as a document is read so wherever its members stand, and whatever
members with other names than the fields stand among them. -/
def ForwardCompatible (α : Type) [Document α] (fields : List String) : Prop :=
  ∀ ⦃ms extras ms' : List Member⦄ ⦃input input' : Bytes⦄ ⦃a : α⦄, ObjectText ms input →
    read α input = .ok a → (∀ m ∈ extras, ∃ name, m.Named name ∧ name ∉ fields) →
    ms'.Perm (ms ++ extras) → ObjectText ms' input' → read α input' = .ok a

/-- **Records are forward compatible.** -/
theorem Schema.forwardCompatible [Document α] (schema : Schema α)
    (hdecoder : (Document.decoder : Decoder α) = schema.decoder)
    (hfields : ∀ f ∈ schema.fields, Settled f.decoder) :
    ForwardCompatible α (schema.fields.map Field.name) := by
  intro ms extras ms' input input' a hinput hread hextras hperm hinput'
  rw [read, hdecoder] at hread ⊢
  obtain ⟨slots, values, heffects, hcomplete, rfl⟩ := (Schema.decode_object hfields hinput).mp hread
  refine (Schema.decode_object hfields hinput').mpr ⟨slots, values, ?_, hcomplete, rfl⟩
  refine Effects.perm Fills.exchange hperm.symm (Effects.append_iff.mpr ⟨slots, heffects, ?_⟩)
  refine Effects.refl (fun m hm => ?_) slots
  obtain ⟨name, hname, hother⟩ := hextras m hm
  exact ⟨name, hname, fun s => Fills.pass hother s⟩

theorem value_skipBlanks (input : Bytes) : value n (skipBlanks input) = value n input := by
  cases n <;> rw [value, valueWith, valueWith, skipBlanks_skipBlanks]

/-- A value that reads as some value by itself does so as an item. -/
theorem value_item {item : Item} (h : ValueText item.value) {v : Value}
    (hread : value n item.value = .ok (v, [])) : value n item.text = .ok (v, item.after) := by
  obtain ⟨used, -, hinput, htakes⟩ := local_value n hread
  rw [List.append_nil] at hinput
  have hafter : Stops (item.after ++ []) := stops_of_blanks item.after_blank stops_nil
  have hstart := skipBlanks_item item h []
  rw [List.append_nil, List.append_nil] at hstart
  rw [List.append_nil] at hafter
  rw [← value_skipBlanks, hstart, hinput]
  exact htakes (.inr hafter)

end BuildBrowser.Json
