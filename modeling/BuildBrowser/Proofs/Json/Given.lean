import BuildBrowser.Proofs.Json.Compatible
import BuildBrowser.Proofs.Json.Items

/-!
# What a record is read from

A record is read from two kinds of text and from no other (`Schema.decode_iff`).

* From an object, whose members all have names. The value of each field is **given** by the members: there
  is exactly one of its name and the decoder gives the value for it, or there is none and the value is
  what the absence of the field means (`Field.Given`).
* From a list, whose items are **listed** for the fields in their order; the fields that it ends before
  are those that may be left out of a list (`Values.Listed`).

The slots are gone from this description. They are taken apart a field at a time: what members do to the
slots of a record is what they do to the slot of its first field, and what they do to the others
(`effects_cons_field`), since no member fills two.
-/

namespace BuildBrowser.Json

variable {α : Type} {n : Nat} {m : Member} {ms : List Member} {input rest : Bytes} {f : Field}
  {fs : List Field}

theorem ObjectText.forall_valueText (h : ObjectText ms input) : ∀ m ∈ ms, ValueText m.value := by
  cases h with
  | object _ _ _ h => exact h

/-! ## The only member of a name -/

/-- The member is the only one of the name. -/
def Member.Only (m : Member) (ms : List Member) (name : String) : Prop :=
  ∃ before after, ms = before ++ m :: after ∧ m.Named name ∧ ∀ other ∈ before ++ after, ¬other.Named name

theorem Member.Only.mem {name : String} (h : m.Only ms name) : m ∈ ms := by
  obtain ⟨before, after, rfl, -⟩ := h
  exact List.mem_append_right before List.mem_cons_self

/-- No other member has the name. -/
theorem Member.Only.eq {name : String} (h : m.Only ms name) {other : Member} (hmem : other ∈ ms)
    (hother : other.Named name) : other = m := by
  obtain ⟨before, after, rfl, -, hothers⟩ := h
  rcases List.mem_append.mp hmem with hmem | hmem
  · exact absurd hother (hothers other (List.mem_append_left after hmem))
  · rcases List.mem_cons.mp hmem with rfl | hmem
    · rfl
    · exact absurd hother (hothers other (List.mem_append_right before hmem))

theorem Member.only_cons_of_named {name : String} {other : Member} (hname : m.Named name) :
    other.Only (m :: ms) name ↔ other = m ∧ ∀ m ∈ ms, ¬m.Named name := by
  constructor
  · intro h
    obtain rfl := h.eq List.mem_cons_self hname
    obtain ⟨before, after, hms, -, hothers⟩ := h
    cases before with
    | nil =>
      obtain ⟨-, rfl⟩ := List.cons.inj hms
      exact ⟨rfl, hothers⟩
    | cons first before =>
      obtain ⟨rfl, -⟩ := List.cons.inj hms
      exact absurd hname (hothers _ List.mem_cons_self)
  · rintro ⟨rfl, hothers⟩
    exact ⟨[], ms, rfl, hname, hothers⟩

theorem Member.only_cons_of_not_named {name : String} {other : Member} (hname : ¬m.Named name) :
    other.Only (m :: ms) name ↔ other.Only ms name := by
  constructor
  · rintro ⟨before, after, hms, hother, hothers⟩
    cases before with
    | nil =>
      obtain ⟨rfl, -⟩ := List.cons.inj hms
      exact absurd hother hname
    | cons first before =>
      obtain ⟨rfl, rfl⟩ := List.cons.inj hms
      exact ⟨before, after, rfl, hother, (List.forall_mem_cons.mp hothers).2⟩
  · rintro ⟨before, after, rfl, hother, hothers⟩
    exact ⟨m :: before, after, rfl, hother, List.forall_mem_cons.mpr ⟨hname, hothers⟩⟩

/-! ## The slot of a field -/

/-- What members do to the slot of a field: they leave it alone if none has the name of the field, and if
one has, it is the only one and fills it. -/
def Field.Filled (n : Nat) (f : Field) (ms : List Member) (slot next : Option f.Carrier) : Prop :=
  ((∀ m ∈ ms, ¬m.Named f.name) ∧ next = slot) ∨
    (slot = none ∧ ∃ (m : Member) (a : f.Carrier),
      m.Only ms f.name ∧ m.toItem.Reads (f.decoder n) a ∧ next = some a)

variable {slot next : Option f.Carrier}

theorem Field.filled_nil : f.Filled n [] slot next ↔ next = slot := by
  constructor
  · rintro (⟨-, rfl⟩ | ⟨-, m, a, honly, -⟩)
    · rfl
    · cases honly.mem
  · rintro rfl
    exact .inl ⟨List.forall_mem_nil _, rfl⟩

theorem Field.filled_cons_of_named (hname : m.Named f.name) :
    f.Filled n (m :: ms) slot next ↔
      slot = none ∧ ∃ a, m.toItem.Reads (f.decoder n) a ∧ f.Filled n ms (some a) next := by
  constructor
  · rintro (⟨hnone, -⟩ | ⟨rfl, other, a, honly, hreads, rfl⟩)
    · exact absurd hname (hnone m List.mem_cons_self)
    · obtain ⟨rfl, hothers⟩ := (Member.only_cons_of_named hname).mp honly
      exact ⟨rfl, a, hreads, .inl ⟨hothers, rfl⟩⟩
  · rintro ⟨rfl, a, hreads, ⟨hothers, rfl⟩ | ⟨hsome, -⟩⟩
    · exact .inr ⟨rfl, m, a, (Member.only_cons_of_named hname).mpr ⟨rfl, hothers⟩, hreads, rfl⟩
    · cases hsome

theorem Field.filled_cons_of_not_named (hname : ¬m.Named f.name) :
    f.Filled n (m :: ms) slot next ↔ f.Filled n ms slot next := by
  unfold Field.Filled
  simp only [List.forall_mem_cons, hname, not_false_eq_true, true_and, Member.only_cons_of_not_named hname]

/-- A member of another name leaves slots as they are. -/
theorem Fills.eq_of_not_mem {name : String} :
    {fs : List Field} → {slots more : Slots fs} → Fills n m name fs slots more →
      name ∉ fs.map Field.name → more = slots
  | [], _, _, _, _ => rfl
  | _ :: _, (_, _), (_, _), h, hname => by
    obtain ⟨hne, hnames⟩ := not_or.mp (mt List.mem_cons.mpr hname)
    obtain ⟨heq, -⟩ | ⟨-, rfl, hfills⟩ := h
    · exact absurd heq hne
    · rw [Fills.eq_of_not_mem hfills hnames]

/-- **What members do to the slots of a record is what they do to the first, and to the others.** -/
theorem effects_cons_field (hnew : f.name ∉ fs.map Field.name) {slots more : Slots fs} :
    Effects (fun m name => Fills n m name (f :: fs)) ms (slot, slots) (next, more) ↔
      f.Filled n ms slot next ∧ Effects (fun m name => Fills n m name fs) ms slots more := by
  induction ms generalizing slot slots with
  | nil =>
    constructor
    · intro h
      obtain ⟨rfl, rfl⟩ := Prod.mk.inj (Effects.nil_iff.mp h)
      exact ⟨Field.filled_nil.mpr rfl, .nil _⟩
    · rintro ⟨hfilled, heffects⟩
      obtain rfl := Field.filled_nil.mp hfilled
      obtain rfl := Effects.nil_iff.mp heffects
      exact .nil _
  | cons m ms ih =>
    constructor
    · intro h
      obtain ⟨name, ⟨between, slots'⟩, hnamed, hfills, hmore⟩ := Effects.cons_iff.mp h
      obtain ⟨hfilled, heffects⟩ := ih.mp hmore
      obtain ⟨rfl, rfl, rfl, a, hreads, rfl⟩ | ⟨hname, rfl, hfills⟩ := hfills
      · exact ⟨(Field.filled_cons_of_named hnamed).mpr ⟨rfl, a, hreads, hfilled⟩,
          .cons hnamed (Fills.pass hnew _) heffects⟩
      · have hother : ¬m.Named f.name := fun h => hname (Member.named_unique hnamed h)
        exact ⟨(Field.filled_cons_of_not_named hother).mpr hfilled, .cons hnamed hfills heffects⟩
    · rintro ⟨hfilled, heffects⟩
      obtain ⟨name, slots', hnamed, hfills, hmore⟩ := Effects.cons_iff.mp heffects
      -- the name of the member tells whether its effect is that on the first slot, or that on the others
      by_cases hname : name = f.name
      · subst hname
        obtain ⟨rfl, a, hreads, hfilled⟩ := (Field.filled_cons_of_named hnamed).mp hfilled
        obtain rfl := hfills.eq_of_not_mem hnew
        exact Effects.cons_iff.mpr
          ⟨_, (some a, slots'), hnamed, .inl ⟨rfl, rfl, rfl, a, hreads, rfl⟩, ih.mpr ⟨hfilled, hmore⟩⟩
      · have hother : ¬m.Named f.name := fun h => hname (Member.named_unique hnamed h)
        exact Effects.cons_iff.mpr ⟨_, (slot, slots'), hnamed, .inr ⟨hname, rfl, hfills⟩,
          ih.mpr ⟨(Field.filled_cons_of_not_named hother).mp hfilled, hmore⟩⟩

/-- Where there are no slots, members need names, and no more. -/
theorem effects_no_field {slots more : Slots []} :
    Effects (fun m name => Fills n m name []) ms slots more ↔ ∀ m ∈ ms, ∃ name, m.Named name := by
  induction ms generalizing slots with
  | nil => exact ⟨fun _ => List.forall_mem_nil _, fun _ => Effects.nil_iff.mpr rfl⟩
  | cons m ms ih =>
    rw [Effects.cons_iff, List.forall_mem_cons]
    constructor
    · rintro ⟨name, between, hnamed, -, hmore⟩
      exact ⟨⟨name, hnamed⟩, ih.mp hmore⟩
    · rintro ⟨⟨name, hnamed⟩, hmore⟩
      exact ⟨name, (), hnamed, trivial, ih.mpr hmore⟩

/-! ## What the members of an object give -/

/-- The members give the field the value: one of them has its name and its value is read, or none has its
name and the value is what that means. -/
def Field.Given (n : Nat) (f : Field) (ms : List Member) (a : f.Carrier) : Prop :=
  (∃ m : Member, m.Only ms f.name ∧ m.toItem.Reads (f.decoder n) a) ∨
    ((∀ m ∈ ms, ¬m.Named f.name) ∧ f.Absent a)

/-- The members give every field its value. -/
def Values.Given (n : Nat) (ms : List Member) : (fs : List Field) → Values fs → Prop
  | [], _ => True
  | f :: fs, (a, values) => f.Given n ms a ∧ Values.Given n ms fs values

theorem Slots.complete_cons {slots : Slots fs} {a : f.Carrier} {values : Values fs} :
    Slots.complete (f :: fs) (slot, slots) = .ok (a, values) ↔
      (slot = some a ∨ (slot = none ∧ f.Absent a)) ∧ Slots.complete fs slots = .ok values := by
  cases slot with
  | some b =>
    constructor
    · intro h
      obtain ⟨more, hmore, heq⟩ := map_ok.mp ((Slots.complete_some b).symm.trans h)
      cases heq
      exact ⟨.inl rfl, hmore⟩
    · rintro ⟨hb | ⟨hb, -⟩, hmore⟩
      · cases hb
        exact (Slots.complete_some _).trans (map_ok.mpr ⟨values, hmore, rfl⟩)
      · cases hb
  | none =>
    constructor
    · intro h
      obtain ⟨b, habsent⟩ := Slots.absent_of_complete h
      obtain ⟨more, hmore, heq⟩ := map_ok.mp ((Slots.complete_none_of_absent habsent).symm.trans h)
      cases heq
      exact ⟨.inr ⟨rfl, habsent⟩, hmore⟩
    · rintro ⟨hb | ⟨-, habsent⟩, hmore⟩
      · cases hb
      · exact (Slots.complete_none_of_absent habsent).trans (map_ok.mpr ⟨values, hmore, rfl⟩)

theorem Field.given_iff {a : f.Carrier} :
    f.Given n ms a ↔ ∃ slot, f.Filled n ms none slot ∧ (slot = some a ∨ (slot = none ∧ f.Absent a)) := by
  constructor
  · rintro (⟨m, honly, hreads⟩ | ⟨hnone, habsent⟩)
    · exact ⟨some a, .inr ⟨rfl, m, a, honly, hreads, rfl⟩, .inl rfl⟩
    · exact ⟨none, .inl ⟨hnone, rfl⟩, .inr ⟨rfl, habsent⟩⟩
  · rintro ⟨slot, ⟨hnone, rfl⟩ | ⟨-, m, b, honly, hreads, rfl⟩, hslot | ⟨hslot, habsent⟩⟩
    · cases hslot
    · exact .inr ⟨hnone, habsent⟩
    · cases hslot
      exact .inl ⟨m, honly, hreads⟩
    · cases hslot

/-- The slots that members fill are complete exactly if the members give every field its value. -/
theorem Values.given_iff :
    {fs : List Field} → (fs.map Field.name).Nodup → {values : Values fs} →
      ((∃ slots, Effects (fun m name => Fills n m name fs) ms (Slots.empty fs) slots ∧
          Slots.complete fs slots = .ok values) ↔
        (∀ m ∈ ms, ∃ name, m.Named name) ∧ Values.Given n ms fs values)
  | [], _, _ =>
    ⟨fun ⟨_, heffects, _⟩ => ⟨effects_no_field.mp heffects, trivial⟩,
      fun ⟨hnamed, _⟩ => ⟨(), effects_no_field.mpr hnamed, rfl⟩⟩
  | f :: fs, hnames, (a, values) => by
    obtain ⟨hnew, hnames⟩ := List.nodup_cons.mp hnames
    have ih : (∃ slots, Effects (fun m name => Fills n m name fs) ms (Slots.empty fs) slots ∧
        Slots.complete fs slots = .ok values) ↔ _ := Values.given_iff hnames
    constructor
    · rintro ⟨⟨slot, slots⟩, heffects, hcomplete⟩
      obtain ⟨hfilled, hmore⟩ := (effects_cons_field hnew).mp heffects
      obtain ⟨hslot, hcomplete⟩ := Slots.complete_cons.mp hcomplete
      obtain ⟨hnamed, hgiven⟩ := ih.mp ⟨slots, hmore, hcomplete⟩
      exact ⟨hnamed, Field.given_iff.mpr ⟨slot, hfilled, hslot⟩, hgiven⟩
    · rintro ⟨hnamed, hfirst, hgiven⟩
      obtain ⟨slots, hmore, hcomplete⟩ := ih.mpr ⟨hnamed, hgiven⟩
      obtain ⟨slot, hfilled, hslot⟩ := Field.given_iff.mp hfirst
      exact ⟨(slot, slots), (effects_cons_field hnew).mpr ⟨hfilled, hmore⟩,
        Slots.complete_cons.mpr ⟨hslot, hcomplete⟩⟩

/-- **A record is read from an object** exactly if its members give the values of its fields. -/
theorem Schema.decode_members {schema : Schema α} (hnames : (schema.fields.map Field.name).Nodup)
    (hfields : ∀ f ∈ schema.fields, Settled f.decoder) (h : ObjectText ms input) {a : α} :
    decode schema.decoder input = .ok a ↔
      ∃ values, a = schema.build values ∧ (∀ m ∈ ms, ∃ name, m.Named name) ∧
        Values.Given (maxDepth - 1) ms schema.fields values := by
  rw [Schema.decode_object hfields h]
  constructor
  · rintro ⟨slots, values, heffects, hcomplete, rfl⟩
    exact ⟨values, rfl, (Values.given_iff hnames).mp ⟨slots, heffects, hcomplete⟩⟩
  · rintro ⟨values, rfl, hgiven⟩
    obtain ⟨slots, heffects, hcomplete⟩ := (Values.given_iff hnames).mpr hgiven
    exact ⟨slots, values, heffects, hcomplete, rfl⟩

/-! ## What the items of a list give -/

/-- The items are read for the fields in their order, and the fields that the list ends before are those
that may be left out. -/
def Values.Listed (n : Nat) : (fs : List Field) → List Item → Values fs → Prop
  | [], items, _ => items = []
  | f :: fs, [], (a, values) => f.absence = .always a ∧ Values.Listed n fs [] values
  | f :: fs, item :: items, (a, values) =>
    item.trimmed.Reads (f.decoder n) a ∧ Values.Listed n fs items values

theorem Values.afterEnd_ok {index : Nat} :
    {fs : List Field} → {values : Values fs} →
      (Values.afterEnd index fs = .ok values ↔ Values.Listed n fs [] values)
  | [], _ => ⟨fun _ => rfl, fun _ => rfl⟩
  | f :: fs, (a, values) => by
    have ih : Values.afterEnd (index + 1) fs = .ok values ↔ Values.Listed n fs [] values :=
      Values.afterEnd_ok
    rw [Values.afterEnd, Values.Listed, ← ih]
    cases f.absence with
    | refused | ifUnnamed b => simp
    | always b =>
      constructor
      · intro h
        obtain ⟨more, hmore, heq⟩ := map_ok.mp h
        cases heq
        exact ⟨rfl, hmore⟩
      · rintro ⟨habsence, hmore⟩
        cases habsence
        exact map_ok.mpr ⟨values, hmore, rfl⟩

theorem closeList_ok : closeList input = .ok rest ↔ skipBlanks input = 0x5D :: rest := by
  unfold closeList
  grind

variable {record : String} {total index : Nat} {items : List Item} {item : Item} {after blanks : Bytes}

/-- Where there are no fields left, the list ends. -/
theorem Values.inOrder_nil {values : Values []} :
    Values.inOrder record total n [] index input = .ok (values, rest) ↔
      skipBlanks input = 0x5D :: rest := by
  rw [← closeList_ok]
  constructor
  · intro h
    obtain ⟨after, hclose, heq⟩ := map_ok.mp h
    cases heq
    exact hclose
  · intro h
    exact map_ok.mpr ⟨rest, h, rfl⟩

/-- Where a field is left, the list ends and may do so, or its next item is read for the field. -/
theorem Values.inOrder_cons {a : f.Carrier} {values : Values fs} :
    Values.inOrder record total n (f :: fs) index input = .ok ((a, values), rest) ↔
      (nextItem (index = 0) input = .ok (.close rest) ∧ Values.Listed n (f :: fs) [] (a, values)) ∨
      ∃ start mid, nextItem (index = 0) input = .ok (.item start) ∧ f.decoder n start = .ok (a, mid) ∧
        Values.inOrder record total n fs (index + 1) mid = .ok (values, rest) := by
  have hend : Values.afterEnd index (f :: fs) = .ok (a, values) ↔
      Values.Listed n (f :: fs) [] (a, values) := Values.afterEnd_ok
  rw [← hend, Values.inOrder]
  constructor
  · intro h
    split at h
    · cases h
    · next hnext =>
      split at h
      · next hvalues =>
        cases h
        exact .inl ⟨hnext, hvalues⟩
      · cases h
    · next start hnext =>
      split at h
      · cases h
      · next b mid hread =>
        obtain ⟨⟨more, left⟩, hmore, heq⟩ := map_ok.mp h
        cases heq
        exact .inr ⟨start, mid, hnext, hread, hmore⟩
  · rintro (⟨hnext, hvalues⟩ | ⟨start, mid, hnext, hread, hmore⟩)
    · simp only [hnext, hvalues]
    · simp only [hnext, hread]
      exact map_ok.mpr ⟨(values, rest), hmore, rfl⟩

/-- **The values of fields are read from a list** exactly if they are listed. -/
theorem Values.inOrder_text :
    {fs : List Field} → (∀ f ∈ fs, Settled f.decoder) → {items : List Item} →
      (∀ item ∈ items, ValueText item.value) → {index : Nat} → {blanks : Bytes} → Blanks blanks →
      {values : Values fs} →
      (Values.inOrder record total n fs index (blanks ++ listRest (index = 0) items after) =
          .ok (values, rest) ↔
        rest = after ∧ Values.Listed n fs items values)
  | [], _, items, hitems, index, blanks, hblanks, values => by
    rw [Values.inOrder_nil]
    cases items with
    | nil =>
      rw [skipBlanks_listRest_nil hblanks]
      simp [Values.Listed, eq_comm]
    | cons item items =>
      obtain ⟨hvalue, -⟩ := List.forall_mem_cons.mp hitems
      have hnext : nextItem (index = 0) (blanks ++ listRest (index = 0) (item :: items) after) = _ :=
        nextItem_item hblanks hvalue
      constructor
      · intro hclose
        cases hnext.symm.trans (nextItem_close_iff.mpr hclose)
      · rintro ⟨-, hnone⟩
        cases hnone
  | f :: fs, hfs, [], _, index, blanks, hblanks, (a, values) => by
    have hclose {first : Bool} : nextItem first (blanks ++ listRest first [] after) = .ok (.close after) :=
      nextItem_close_iff.mpr (skipBlanks_listRest_nil hblanks)
    rw [Values.inOrder_cons, hclose]
    constructor
    · rintro (⟨heq, hlisted⟩ | ⟨start, mid, hnext, -⟩)
      · cases heq
        exact ⟨rfl, hlisted⟩
      · cases hnext
    · rintro ⟨rfl, hlisted⟩
      exact .inl ⟨rfl, hlisted⟩
  | f :: fs, hfs, item :: items, hitems, index, blanks, hblanks, (a, values) => by
    obtain ⟨hf, hfs⟩ := List.forall_mem_cons.mp hfs
    obtain ⟨hvalue, hitems⟩ := List.forall_mem_cons.mp hitems
    have hnext {first : Bool} : nextItem first (blanks ++ listRest first (item :: items) after) = _ :=
      nextItem_item hblanks hvalue
    have hitem {a : f.Carrier} {mid : Bytes} :
        f.decoder n (item.trimmed.text ++ listRest false items after) = .ok (a, mid) ↔
          mid = item.after ++ listRest false items after ∧ item.trimmed.Reads (f.decoder n) a :=
      item.trimmed.reads_iff (hf.sees n) (hf.ends n) hvalue (stops_listRest items after)
    have hmore : Values.inOrder record total n fs (index + 1)
          (item.after ++ listRest false items after) = .ok (values, rest) ↔
        rest = after ∧ Values.Listed n fs items values :=
      Values.inOrder_text hfs hitems item.after_blank
    rw [Values.inOrder_cons, hnext]
    constructor
    · rintro (⟨heq, -⟩ | ⟨start, mid, heq, hread, hrest⟩)
      · cases heq
      · cases heq
        obtain ⟨rfl, hreads⟩ := hitem.mp hread
        obtain ⟨rfl, hlisted⟩ := hmore.mp hrest
        exact ⟨rfl, hreads, hlisted⟩
    · rintro ⟨rfl, hreads, hlisted⟩
      exact .inr ⟨_, _, rfl, hitem.mpr ⟨rfl, hreads⟩, hmore.mpr ⟨rfl, hlisted⟩⟩

/-! ## Only from these texts -/

/-- The list that the values of fields are read from is passed over up to its end. -/
theorem closes_inOrder :
    {fs : List Field} → (∀ f ∈ fs, Settled f.decoder) → {index : Nat} → {input : Bytes} →
      {values : Values fs} → Values.inOrder record total n fs index input = .ok (values, rest) →
      Closes (if index = 0 then .opened else .after) .list input rest
  | [], _, index, input, values, h =>
    closes_now (by split <;> decide) (Values.inOrder_nil.mp h)
  | f :: fs, hfs, index, input, (a, values), h => by
    obtain ⟨hf, hfs⟩ := List.forall_mem_cons.mp hfs
    obtain ⟨hclose, -⟩ | ⟨start, mid, hnext, hread, hmore⟩ := Values.inOrder_cons.mp h
    · exact closes_now (by split <;> decide) (nextItem_close_iff.mp hclose)
    · have hcloses : Closes .after .list mid rest := closes_inOrder hfs hmore
      have hitem := closes_item hnext (hf.ends n hread) hcloses
      simpa using hitem

/-- A member of a record is passed over after its colon, be it a field or not. -/
theorem agreesAfterColon_read :
    {fs : List Field} → (∀ f ∈ fs, Settled f.decoder) → (slots : Slots fs) → (name : String) →
      AgreesAfterColon (Slots.read fs n slots name)
  | [], _, slots, name, input, rest, next, h => by
    simp only [Slots.read, Slots.member] at h
    split at h
    · cases h
    · next start hcolon =>
      obtain ⟨after, hskip, heq⟩ := map_ok.mp h
      cases heq
      exact ⟨start, colon_ok.mp hcolon, passes_of_skip hskip⟩
  | f :: fs, hfs, (slot, slots), name, input, rest, next, h => by
    obtain ⟨hf, hfs⟩ := List.forall_mem_cons.mp hfs
    by_cases hname : name = f.name
    · subst hname
      cases slot with
      | some a => simp [Slots.read, Slots.member_some] at h
      | none =>
        simp only [Slots.read, Slots.member_none] at h
        split at h
        · cases h
        · next start hcolon =>
          obtain ⟨⟨a, after⟩, hread, heq⟩ := map_ok.mp h
          cases heq
          exact ⟨start, colon_ok.mp hcolon, hf.ends n hread⟩
    · obtain ⟨⟨more, after⟩, hread, heq⟩ := map_ok.mp ((Slots.read_of_ne hname slot).symm.trans h)
      cases heq
      exact agreesAfterColon_read hfs slots name hread

theorem skipBlanks_eq_nil_iff : skipBlanks input = [] ↔ Blanks input := by
  constructor
  · intro h
    obtain ⟨blanks, hblanks, hinput⟩ := exists_of_skipBlanks h
    rwa [hinput, List.append_nil]
  · intro h
    rw [← List.append_nil input, skipBlanks_append h]
    rfl

/-- A record is read from an object or from a list. -/
theorem Schema.exists_text_of_decode {schema : Schema α} (hfields : ∀ f ∈ schema.fields, Settled f.decoder)
    {a : α} (h : decode schema.decoder input = .ok a) :
    (∃ ms, ObjectText ms input) ∨
      ∃ (item : Item) (items : List Item), input = item.text ∧ ListText items item.value := by
  obtain ⟨rest, hread, hrest⟩ := decode_ok.mp h
  have hafter := skipBlanks_eq_nil_iff.mp hrest
  unfold Schema.decoder at hread
  split at hread
  · next start hstart =>
    obtain ⟨before, hbefore, rfl⟩ := exists_of_skipBlanks hstart
    obtain ⟨slots, values, hmembers, -⟩ := Schema.finish_ok.mp hread
    have hcloses : Closes .opened .object start rest :=
      closes_members (agreesAfterColon_read hfields) hmembers
    obtain ⟨inner, ms, hinner, hvalues, rfl⟩ := exists_members_of_closes hcloses
    exact .inl ⟨ms, .object hbefore hinner hafter hvalues⟩
  · next start hstart =>
    obtain ⟨before, hbefore, rfl⟩ := exists_of_skipBlanks hstart
    obtain ⟨⟨values, after⟩, hvalues, heq⟩ := map_ok.mp hread
    cases heq
    have hcloses : Closes .opened .list start rest := closes_inOrder hfields hvalues
    obtain ⟨inner, items, hinner, hitems, rfl⟩ := exists_items_of_closes hcloses
    refine .inr ⟨⟨before, _, rest, hbefore, hafter⟩, items, ?_, .list hinner hitems⟩
    simp [Item.text]
  · cases hread

/-- A list is read as the record of the values that are listed in it. -/
theorem Schema.reads_items {schema : Schema α} (hfields : ∀ f ∈ schema.fields, Settled f.decoder)
    (h : ListText items item.value) {a : α} :
    schema.decoder (n + 1) item.text = .ok (a, rest) ↔
      rest = item.after ∧
        ∃ values, a = schema.build values ∧ Values.Listed n schema.fields items values := by
  obtain ⟨inner, hinner, hopen⟩ := h.exists_start
  have hvalues {values : Values schema.fields} {rest : Bytes} :
      Values.inOrder schema.name schema.fields.length n schema.fields 0
          (inner ++ listRest true items item.after) = .ok (values, rest) ↔
        rest = item.after ∧ Values.Listed n schema.fields items values :=
    Values.inOrder_text hfields h.forall_valueText hinner
  simp only [Schema.decoder, hopen]
  constructor
  · intro hread
    obtain ⟨⟨values, after⟩, hread, heq⟩ := map_ok.mp hread
    obtain ⟨rfl, hlisted⟩ := hvalues.mp hread
    cases heq
    exact ⟨rfl, values, rfl, hlisted⟩
  · rintro ⟨rfl, values, rfl, hlisted⟩
    exact map_ok.mpr ⟨(values, item.after), hvalues.mpr ⟨rfl, hlisted⟩, rfl⟩

/-- **A record is read from a list** exactly if the values of its fields are listed. -/
theorem Schema.decode_items {schema : Schema α} (hfields : ∀ f ∈ schema.fields, Settled f.decoder)
    (h : ListText items item.value) {a : α} :
    decode schema.decoder item.text = .ok a ↔
      ∃ values, a = schema.build values ∧ Values.Listed (maxDepth - 1) schema.fields items values := by
  have hread {rest : Bytes} : schema.decoder maxDepth item.text = .ok (a, rest) ↔ _ :=
    Schema.reads_items hfields h
  simp only [decode_ok, hread]
  constructor
  · rintro ⟨rest, ⟨-, hvalues⟩, -⟩
    exact hvalues
  · intro hvalues
    exact ⟨item.after, ⟨rfl, hvalues⟩, skipBlanks_eq_nil_iff.mpr item.after_blank⟩

/-- **A record is read from an object whose members give the values of its fields, or from a list in which
they are listed**, and from no other text. -/
theorem Schema.decode_iff {schema : Schema α} (hnames : (schema.fields.map Field.name).Nodup)
    (hfields : ∀ f ∈ schema.fields, Settled f.decoder) {a : α} :
    decode schema.decoder input = .ok a ↔
      ∃ values, a = schema.build values ∧
        ((∃ ms, ObjectText ms input ∧ (∀ m ∈ ms, ∃ name, m.Named name) ∧
            Values.Given (maxDepth - 1) ms schema.fields values) ∨
          ∃ (item : Item) (items : List Item), input = item.text ∧ ListText items item.value ∧
            Values.Listed (maxDepth - 1) schema.fields items values) := by
  constructor
  · intro h
    obtain ⟨ms, hms⟩ | ⟨item, items, rfl, hitems⟩ := Schema.exists_text_of_decode hfields h
    · obtain ⟨values, ha, hgiven⟩ := (Schema.decode_members hnames hfields hms).mp h
      exact ⟨values, ha, .inl ⟨ms, hms, hgiven⟩⟩
    · obtain ⟨values, ha, hlisted⟩ := (Schema.decode_items hfields hitems).mp h
      exact ⟨values, ha, .inr ⟨item, items, rfl, hitems, hlisted⟩⟩
  · rintro ⟨values, ha, ⟨ms, hms, hgiven⟩ | ⟨item, items, rfl, hitems, hlisted⟩⟩
    · exact (Schema.decode_members hnames hfields hms).mpr ⟨values, ha, hgiven⟩
    · exact (Schema.decode_items hfields hitems).mpr ⟨values, ha, hlisted⟩

end BuildBrowser.Json
