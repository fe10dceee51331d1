import BuildBrowser.Proofs.Json.Object
import BuildBrowser.Proofs.Json.Sound

/-!
# Items are read one at a time

The text of a list is made of the texts of its items, and what a reader makes of one item depends on that
text alone. `Reads` says what it makes of it: the value, and that the whole value of the item was taken.
**A list is read as the values of its items, one for each and in their order** (`list_item`), and as a
list only if it is one (`exists_listText`).

The loop over a list skips the blanks before an item itself and starts the reader after them, so what
is read there is the item without them (`Item.trimmed`). Where a loop stands, the items still to come
either start the list or follow a comma each; `listRest` is the text of both, and `nextItem_item` the step
to the next item, whatever the loop does with it.
-/

namespace BuildBrowser.Json

variable {α : Type} {input rest after text blanks : Bytes} {first : Bool} {item : Item}
  {items : List Item} {n : Nat}

/-! ## One item -/

/-- An item without blanks. -/
def Item.bare (value : Bytes) : Item :=
  ⟨[], value, [], blanks_nil, blanks_nil⟩

/-- An item without the blanks before it. -/
def Item.trimmed (item : Item) : Item :=
  { item with before := [], before_blank := blanks_nil }

/-- The reader gives the value for the item, of which it takes the whole. -/
def Item.Reads (item : Item) (reader : Bytes → Outcome α) (a : α) : Prop :=
  reader item.text = .ok (a, item.after)

/-- An item is read the same before whatever stands after it. -/
theorem Item.reads_iff (item : Item) {reader : Bytes → Outcome α} (hlocal : Local reader)
    (hagrees : Agrees reader) (h : ValueText item.value) {tail : Bytes} (htail : Stops tail) {a : α} :
    reader (item.text ++ tail) = .ok (a, rest) ↔ rest = item.after ++ tail ∧ item.Reads reader a :=
  item_settled hlocal hagrees h htail

theorem Item.stops_after (item : Item) : Stops item.after := by
  have hafter := stops_of_blanks item.after_blank stops_nil
  rwa [List.append_nil] at hafter

theorem Item.skipBlanks_text (item : Item) (h : ValueText item.value) :
    skipBlanks item.text = item.trimmed.text := by
  have hstart := skipBlanks_item item h []
  rwa [List.append_nil, List.append_nil] at hstart

/-- No other text stands in front of what follows the value of an item. -/
theorem Item.eq_value (item : Item) (h : ValueText item.value)
    (hstart : skipBlanks item.text = text ++ item.after) : item.value = text :=
  List.append_cancel_right ((item.skipBlanks_text h).symm.trans hstart)

/-- The bytes of `null`. -/
def nullText : Bytes :=
  0x6E :: nullTail

/-- No other value starts as `null` does. -/
theorem ValueText.eq_null {more : Bytes} (h : ValueText (0x6E :: more)) : 0x6E :: more = nullText := by
  cases h with
  | null => rfl
  | number h =>
    obtain ⟨b, digits, hdigits, hb⟩ := head_unsignedText h
    obtain ⟨rfl, -⟩ := List.cons.inj hdigits
    exact absurd hb (by decide)

/-- An item that may be null is null, or what the reader gives for it. -/
theorem nullable_item {decoder : Decoder α} (h : ValueText item.value) {a? : Option α} :
    item.Reads (nullable decoder n) a? ↔
      (item.value = nullText ∧ a? = none) ∨
        (item.value ≠ nullText ∧ ∃ a, item.trimmed.Reads (decoder n) a ∧ a? = some a) := by
  have hstart := item.skipBlanks_text h
  unfold Item.Reads nullable
  constructor
  · intro hread
    split at hread
    · next start hnull =>
      obtain ⟨after, hword, heq⟩ := map_ok.mp hread
      cases heq
      refine .inl ⟨item.eq_value h ?_, rfl⟩
      rw [hnull, word_ok.mp hword]
      rfl
    · next hnull =>
      obtain ⟨⟨a, after⟩, hitem, heq⟩ := map_ok.mp hread
      cases heq
      rw [hstart] at hitem
      refine .inr ⟨fun hvalue => hnull (nullTail ++ item.after) ?_, a, hitem, rfl⟩
      rw [hstart, Item.text, Item.trimmed, hvalue]
      rfl
  · rintro (⟨hvalue, rfl⟩ | ⟨hvalue, a, hitem, rfl⟩)
    · have hnull : skipBlanks item.text = 0x6E :: (nullTail ++ item.after) := by
        rw [hstart, Item.text, Item.trimmed, hvalue]
        rfl
      rw [hnull]
      simp only [word_ok.mpr rfl, Except.map]
    · split
      · next start hnull =>
        obtain ⟨b, more, hhead, -⟩ := head_valueText h
        rw [hstart, Item.text, Item.trimmed, hhead] at hnull
        obtain ⟨rfl, -⟩ := List.cons.inj hnull
        rw [hhead] at h hvalue
        exact absurd h.eq_null hvalue
      · rw [hstart, show decoder n item.trimmed.text = .ok (a, item.after) from hitem]
        rfl

/-! ## The items of a list -/

/-- The text of a list of these items. -/
inductive ListText (items : List Item) : Bytes → Prop
  | list {inner : Bytes} (hinner : Blanks inner) (h : ∀ item ∈ items, ValueText item.value) :
      ListText items (0x5B :: (inner ++ (commaSeparated (items.map Item.text) ++ [0x5D])))

theorem ListText.bare (h : ∀ item ∈ items, ValueText item.value)
    (htext : text = 0x5B :: (commaSeparated (items.map Item.text) ++ [0x5D])) : ListText items text :=
  htext ▸ .list blanks_nil h

theorem ListText.valueText (h : ListText items text) : ValueText text := by
  cases h with
  | list hinner h => exact .list hinner h

theorem ListText.forall_valueText (h : ListText items text) : ∀ item ∈ items, ValueText item.value := by
  cases h with
  | list _ h => exact h

/-- What stands in a list of which these items are still to come. -/
def listRest (first : Bool) (items : List Item) (after : Bytes) : Bytes :=
  (if first then commaSeparated (items.map Item.text)
    else (items.map Item.text).flatMap (0x2C :: ·)) ++ 0x5D :: after

/-- The bracket of a list is found after blanks, and its items stand after it. -/
theorem ListText.exists_start (h : ListText items item.value) :
    ∃ inner, Blanks inner ∧
      skipBlanks item.text = 0x5B :: (inner ++ listRest true items item.after) := by
  have hstart := item.skipBlanks_text h.valueText
  generalize hvalue : item.value = value at h
  cases h with
  | @list inner hinner h =>
    refine ⟨inner, hinner, ?_⟩
    rw [hstart, Item.text, Item.trimmed, hvalue]
    simp [listRest]

theorem length_lt_listRest (first : Bool) (items : List Item) (after : Bytes) :
    items.length < (listRest first items after).length + 1 := by
  cases first with
  | false =>
    have hlength := length_le_flatMap (items.map Item.text)
    rw [List.length_map] at hlength
    simp only [listRest, Bool.false_eq_true, if_false, List.length_append, List.length_cons]
    omega
  | true =>
    cases items with
    | nil => simp
    | cons item items =>
      have hlength := length_le_flatMap (items.map Item.text)
      rw [List.length_map] at hlength
      simp only [listRest, if_true, List.map_cons, commaSeparated, List.length_append, List.length_cons]
      omega

/-- After the last item a list ends. -/
theorem skipBlanks_listRest_nil (hblanks : Blanks blanks) :
    skipBlanks (blanks ++ listRest first [] after) = 0x5D :: after := by
  have hrest : listRest first [] after = 0x5D :: after := by cases first <;> rfl
  rw [hrest, skipBlanks_append hblanks]
  exact skipBlanks_of_not_blank (by decide) _

/-- **The next item of a list is found**, after its comma if it is not the first. -/
theorem nextItem_item (hblanks : Blanks blanks) (h : ValueText item.value) :
    nextItem first (blanks ++ listRest first (item :: items) after) =
      .ok (.item (item.trimmed.text ++ listRest false items after)) := by
  have hstart := skipBlanks_item item h (listRest false items after)
  obtain ⟨b, more, hvalue, -, hb⟩ := head_valueText h
  refine nextItem_item_iff.mpr ⟨b, more ++ (item.after ++ listRest false items after), ?_, hb, ?_⟩
  · simp [Item.text, Item.trimmed, hvalue]
  · have htext : item.trimmed.text ++ listRest false items after =
        item.value ++ (item.after ++ listRest false items after) := by
      simp [Item.text, Item.trimmed]
    rw [htext, ← hstart]
    cases first with
    | true =>
      have hrest : listRest true (item :: items) after = item.text ++ listRest false items after :=
        List.append_assoc ..
      simp only [if_true, hrest, skipBlanks_append hblanks]
    | false =>
      have hrest : listRest false (item :: items) after =
          0x2C :: (item.text ++ listRest false items after) := by
        simp [listRest]
      simp only [Bool.false_eq_true, if_false, hrest, skipBlanks_append hblanks]
      exact ⟨_, skipBlanks_of_not_blank (by decide) _, rfl⟩

theorem stops_listRest (items : List Item) (after : Bytes) : Stops (listRest false items after) :=
  stops_parts .list _ after

section

variable {reader : Bytes → Outcome α} {as : List α}

/-- The items of a list are read one after another. -/
theorem itemsFrom_text (hlocal : Local reader) (hagrees : Agrees reader)
    (hvalues : ∀ item ∈ items, ValueText item.value) (hblanks : Blanks blanks) {steps : Nat}
    (hsteps : items.length < steps) :
    itemsFrom reader steps first (blanks ++ listRest first items after) = .ok (as, rest) ↔
      rest = after ∧ List.Forall₂ (fun item a => item.trimmed.Reads reader a) items as := by
  induction items generalizing first blanks steps as with
  | nil =>
    obtain ⟨steps, rfl⟩ := Nat.exists_eq_add_one_of_ne_zero (Nat.ne_zero_of_lt hsteps)
    have hnext : nextItem first (blanks ++ listRest first [] after) = .ok (.close after) :=
      nextItem_close_iff.mpr (skipBlanks_listRest_nil hblanks)
    simp [itemsFrom, hnext, and_comm, eq_comm]
  | cons item items ih =>
    obtain ⟨steps, rfl⟩ := Nat.exists_eq_add_one_of_ne_zero (Nat.ne_zero_of_lt hsteps)
    obtain ⟨hvalue, hvalues⟩ := List.forall_mem_cons.mp hvalues
    have hnext : nextItem first (blanks ++ listRest first (item :: items) after) =
        .ok (.item (item.trimmed.text ++ listRest false items after)) := nextItem_item hblanks hvalue
    have hitem {a : α} {more : Bytes} :
        reader (item.trimmed.text ++ listRest false items after) = .ok (a, more) ↔
          more = item.after ++ listRest false items after ∧ item.trimmed.Reads reader a :=
      item.trimmed.reads_iff hlocal hagrees hvalue (stops_listRest items after)
    have hmore {as : List α} :
        itemsFrom reader steps false (item.after ++ listRest false items after) = .ok (as, rest) ↔
          rest = after ∧ List.Forall₂ (fun item a => item.trimmed.Reads reader a) items as :=
      ih hvalues item.after_blank (Nat.lt_of_succ_lt_succ hsteps)
    rw [itemsFrom_ok, List.forall₂_cons_left_iff]
    constructor
    · rintro (⟨hclose, -⟩ | ⟨start, a, left, more, hstart, ha, hrest, rfl⟩)
      · cases hnext.symm.trans hclose
      · cases hnext.symm.trans hstart
        obtain ⟨rfl, hreads⟩ := hitem.mp ha
        obtain ⟨rfl, hall⟩ := hmore.mp hrest
        exact ⟨rfl, a, more, hreads, hall, rfl⟩
    · rintro ⟨rfl, a, more, hreads, hall, rfl⟩
      exact .inr ⟨_, a, _, more, hnext, hitem.mpr ⟨rfl, hreads⟩, hmore.mpr ⟨rfl, hall⟩, rfl⟩

end

section

variable {decoder : Decoder α} {as : List α}

/-- **A list is read as the values of its items**, one for each and in their order. -/
theorem list_item (hdecoder : Settled decoder) (h : ListText items item.value) :
    item.Reads (list decoder (n + 1)) as ↔
      List.Forall₂ (fun item a => item.trimmed.Reads (decoder n) a) items as := by
  obtain ⟨inner, hinner, hopen⟩ := h.exists_start
  have hitems : Json.items (decoder n) (inner ++ listRest true items item.after) = .ok (as, item.after) ↔
      item.after = item.after ∧
        List.Forall₂ (fun item a => item.trimmed.Reads (decoder n) a) items as := by
    refine itemsFrom_text (hdecoder.sees n) (hdecoder.ends n) h.forall_valueText hinner ?_
    have hlength := length_lt_listRest true items item.after
    rw [List.length_append]
    omega
  rw [Item.Reads, list_ok]
  constructor
  · rintro ⟨m, start, hm, hstart, hread⟩
    obtain rfl := Nat.succ.inj hm
    obtain rfl := List.tail_eq_of_cons_eq (hopen.symm.trans hstart)
    exact (hitems.mp hread).2
  · intro hall
    exact ⟨n, _, rfl, hopen, hitems.mpr ⟨rfl, hall⟩⟩

/-- Only a list is read as one. -/
theorem exists_listText (hdecoder : Settled decoder) (h : ValueText item.value)
    (hread : item.Reads (list decoder n) as) : ∃ items, ListText items item.value := by
  obtain ⟨m, start, rfl, hstart, hitems⟩ := list_ok.mp hread
  obtain ⟨inner, items, hinner, hvalues, rfl⟩ :=
    exists_items_of_closes (closes_items (hdecoder.ends m) hitems)
  refine ⟨items, ?_⟩
  have hvalue : item.value = 0x5B :: (inner ++ (commaSeparated (items.map Item.text) ++ [0x5D])) :=
    item.eq_value h (by simpa using hstart)
  rw [hvalue]
  exact .list hinner hvalues

end

end BuildBrowser.Json
