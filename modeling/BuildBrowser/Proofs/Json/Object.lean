import BuildBrowser.Proofs.Json.Agree

/-!
# Members are read one at a time

The text of an object is made of the texts of its members, and what a reader makes of one member depends
on that text alone: a reader that is local and agrees with skipping gives the same for an item before
any bytes, and ends with its value (`item_settled`). `Acts` says for the members of an object what each
does to the state that they are folded into, as a relation between states that mentions no text but the
member's own. **Reading an object is then doing what its members do, one after another**
(`members_text`), and reading them in another order is a question about states (`Effects.perm`).
-/

namespace BuildBrowser.Json

variable {α σ : Type} {input rest tail : Bytes}

/-! ## An item by itself -/

/-- What is read of an item does not depend on what stands after it, and ends with its value. -/
theorem item_settled {reader : Bytes → Outcome α} (hlocal : Local reader) (hagrees : Agrees reader)
    {item : Item} (h : ValueText item.value) (htail : Stops tail) {a : α} :
    reader (item.text ++ tail) = .ok (a, rest) ↔
      rest = item.after ++ tail ∧ reader item.text = .ok (a, item.after) := by
  have settled {tail other rest : Bytes} (htail : Stops tail) (hother : Stops other)
      (hread : reader (item.text ++ tail) = .ok (a, rest)) :
      rest = item.after ++ tail ∧ reader (item.text ++ other) = .ok (a, item.after ++ other) := by
    have hskip := skip_of_passes (passes_item h (passes_text h) htail)
    obtain rfl := Except.ok.inj ((skip_of_passes (hagrees hread)).symm.trans hskip)
    obtain ⟨used, -, hinput, htakes⟩ := hlocal hread
    have hused : item.text = used ++ item.after := by
      rw [← List.append_assoc] at hinput
      exact List.append_cancel_right hinput
    refine ⟨rfl, ?_⟩
    rw [hused, List.append_assoc]
    exact htakes (Follows.append (.inr hother) _)
  constructor
  · intro hread
    obtain ⟨hrest, halone⟩ := settled htail stops_nil hread
    rw [List.append_nil, List.append_nil] at halone
    exact ⟨hrest, halone⟩
  · rintro ⟨rfl, halone⟩
    have hread : reader (item.text ++ []) = .ok (a, item.after) := by rwa [List.append_nil]
    exact (settled stops_nil htail hread).2

/-! ## Names -/

theorem Member.named_unique {m : Member} {name other : String} (h : m.Named name) (hother : m.Named other) :
    name = other :=
  (Prod.mk.inj (Except.ok.inj (h.symm.trans hother))).1

theorem Member.stops_textAfterName (m : Member) (tail : Bytes) : Stops (m.textAfterName ++ tail) := by
  rw [textAfterName, List.append_assoc]
  exact stops_of_blanks m.afterName_blank (stops_cons.mpr (by decide))

/-- The name of a member is read up to its closing quote. -/
theorem Member.string_iff (m : Member) {name : String} :
    string (m.textAfterQuote ++ tail) = .ok (name, rest) ↔
      rest = m.textAfterName ++ tail ∧ m.Named name := by
  have htext : m.textAfterQuote ++ tail = m.name ++ [0x22] ++ (m.textAfterName ++ tail) := by
    simp [textAfterQuote]
  rw [htext]
  constructor
  · intro hread
    have hskip := skipString_text m.name_string (m.textAfterName ++ tail)
    have hagrees := skipString_of_string hread
    rw [List.append_assoc, List.singleton_append] at hagrees
    obtain rfl := Except.ok.inj (hagrees.symm.trans hskip)
    obtain ⟨used, -, hinput, htakes⟩ := local_string hread
    obtain rfl := List.append_cancel_right hinput
    have halone := htakes (.inr stops_nil)
    rw [List.append_nil] at halone
    exact ⟨rfl, halone⟩
  · rintro ⟨rfl, hname⟩
    obtain ⟨used, -, hinput, htakes⟩ := local_string hname
    rw [List.append_nil] at hinput
    rw [hinput]
    exact htakes (.inr (m.stops_textAfterName tail))

/-! ## Members -/

/-- What a member does to a state is the same before whatever stands after it. -/
def Acts (member : σ → String → Bytes → Outcome σ) (effect : Member → String → σ → σ → Prop) : Prop :=
  ∀ ⦃m : Member⦄, ValueText m.value → ∀ (s : σ) (name : String) ⦃tail : Bytes⦄, Stops tail →
    ∀ (t : σ) (rest : Bytes), member s name (m.textAfterName ++ tail) = .ok (t, rest) ↔
      rest = m.after ++ tail ∧ effect m name s t

/-- What members, one after another, do to a state. -/
inductive Effects (effect : Member → String → σ → σ → Prop) : List Member → σ → σ → Prop
  | nil (s : σ) : Effects effect [] s s
  | cons {m : Member} {ms : List Member} {name : String} {s t u : σ} (hname : m.Named name)
      (head : effect m name s t) (tail : Effects effect ms t u) : Effects effect (m :: ms) s u

variable {member : σ → String → Bytes → Outcome σ} {effect : Member → String → σ → σ → Prop}
  {m : Member} {ms more : List Member} {s t u : σ}

theorem Effects.nil_iff : Effects effect [] s t ↔ s = t := by
  constructor
  · intro h
    cases h
    rfl
  · rintro rfl
    exact .nil s

theorem Effects.cons_iff :
    Effects effect (m :: ms) s u ↔ ∃ name t, m.Named name ∧ effect m name s t ∧ Effects effect ms t u := by
  constructor
  · intro h
    cases h with
    | cons hname head tail => exact ⟨_, _, hname, head, tail⟩
  · rintro ⟨name, t, hname, head, tail⟩
    exact .cons hname head tail

theorem Effects.append_iff :
    Effects effect (ms ++ more) s u ↔ ∃ t, Effects effect ms s t ∧ Effects effect more t u := by
  induction ms generalizing s with
  | nil => simp [Effects.nil_iff]
  | cons m ms ih =>
    simp only [List.cons_append, Effects.cons_iff, ih]
    constructor
    · rintro ⟨name, t, hname, head, v, htail, hmore⟩
      exact ⟨v, ⟨name, t, hname, head, htail⟩, hmore⟩
    · rintro ⟨v, ⟨name, t, hname, head, htail⟩, hmore⟩
      exact ⟨name, t, hname, head, v, htail, hmore⟩

/-- One member is read, and the others after it. -/
theorem membersFrom_member (hacts : Acts member effect) (hvalue : ValueText m.value) {first : Bool}
    {steps : Nat} (hnext : nextMember first input = .ok (.item (m.textAfterQuote ++ tail)))
    (htail : Stops tail) :
    membersFrom member (steps + 1) first s input = .ok (u, rest) ↔
      ∃ name t, m.Named name ∧ effect m name s t ∧
        membersFrom member steps false t (m.after ++ tail) = .ok (u, rest) := by
  rw [membersFrom_ok]
  constructor
  · rintro (⟨hclose, -⟩ | ⟨start, name, colon, t, after, hitem, hname, hm, hmore⟩)
    · cases hnext.symm.trans hclose
    · cases hnext.symm.trans hitem
      obtain ⟨rfl, hnamed⟩ := m.string_iff.mp hname
      obtain ⟨rfl, heffect⟩ := (hacts hvalue s name htail t after).mp hm
      exact ⟨name, t, hnamed, heffect, hmore⟩
  · rintro ⟨name, t, hnamed, heffect, hmore⟩
    exact .inr ⟨_, name, _, t, _, hnext, m.string_iff.mpr ⟨rfl, hnamed⟩,
      (hacts hvalue s name htail t _).mpr ⟨rfl, heffect⟩, hmore⟩

/-- The closing brace is read, and nothing has happened. -/
theorem membersFrom_close {first : Bool} {steps : Nat} {after : Bytes}
    (h : skipBlanks input = 0x7D :: after) :
    membersFrom member (steps + 1) first s input = .ok (t, rest) ↔
      rest = after ∧ Effects effect [] s t := by
  simp only [membersFrom, nextMember_close_iff.mpr h, Effects.nil_iff, Except.ok.injEq, Prod.mk.injEq]
  constructor
  · rintro ⟨rfl, rfl⟩
    exact ⟨rfl, rfl⟩
  · rintro ⟨rfl, rfl⟩
    exact ⟨rfl, rfl⟩

theorem skipBlanks_brace {blanks : Bytes} (hblanks : Blanks blanks) (after : Bytes) :
    skipBlanks (blanks ++ 0x7D :: after) = 0x7D :: after := by
  rw [skipBlanks_append hblanks]
  exact skipBlanks_of_not_blank (by decide) _

theorem skipBlanks_member (m : Member) {blanks : Bytes} (hblanks : Blanks blanks) (tail : Bytes) :
    skipBlanks (blanks ++ (m.text ++ tail)) = 0x22 :: (m.textAfterQuote ++ tail) := by
  rw [skipBlanks_append hblanks, Member.text, List.append_assoc, skipBlanks_append m.beforeName_blank]
  exact skipBlanks_of_not_blank (by decide) _

/-- Members after commas are read one after another. -/
theorem membersFrom_text (hacts : Acts member effect) (hvalues : ∀ m ∈ ms, ValueText m.value)
    {blanks : Bytes} (hblanks : Blanks blanks) (after : Bytes) {steps : Nat}
    (hsteps : ms.length < steps) :
    membersFrom member steps false s
        (blanks ++ ((ms.map Member.text).flatMap (0x2C :: ·) ++ 0x7D :: after)) = .ok (t, rest) ↔
      rest = after ∧ Effects effect ms s t := by
  induction ms generalizing s blanks steps with
  | nil =>
    obtain ⟨steps, rfl⟩ := Nat.exists_eq_add_one_of_ne_zero (Nat.ne_zero_of_lt hsteps)
    exact membersFrom_close (skipBlanks_brace hblanks after)
  | cons m ms ih =>
    obtain ⟨steps, rfl⟩ := Nat.exists_eq_add_one_of_ne_zero (Nat.ne_zero_of_lt hsteps)
    have ⟨hvalue, hvalues⟩ := List.forall_mem_cons.mp hvalues
    have hnext : nextMember false (blanks ++ (((m :: ms).map Member.text).flatMap (0x2C :: ·) ++
          0x7D :: after)) =
        .ok (.item (m.textAfterQuote ++ ((ms.map Member.text).flatMap (0x2C :: ·) ++ 0x7D :: after))) := by
      refine nextMember_item_iff.mpr ⟨_, ?_, skipBlanks_member m blanks_nil _⟩
      rw [skipBlanks_append hblanks, List.map_cons, List.flatMap_cons, List.append_assoc]
      exact skipBlanks_of_not_blank (by decide) _
    rw [membersFrom_member hacts hvalue hnext (stops_parts .object _ after), Effects.cons_iff]
    simp only [ih hvalues m.after_blank (Nat.lt_of_succ_lt_succ hsteps)]
    constructor
    · rintro ⟨name, u, hname, heffect, rfl, hmore⟩
      exact ⟨rfl, name, u, hname, heffect, hmore⟩
    · rintro ⟨rfl, name, u, hname, heffect, hmore⟩
      exact ⟨name, u, hname, heffect, rfl, hmore⟩

theorem length_le_flatMap (parts : List Bytes) : parts.length ≤ (parts.flatMap (0x2C :: ·)).length := by
  induction parts with
  | nil => exact Nat.le_refl _
  | cons part parts ih =>
    simp only [List.flatMap_cons, List.length_append, List.length_cons]
    omega

/-- **The members of an object are read one after another**, each as it stands. -/
theorem members_text (hacts : Acts member effect) (hvalues : ∀ m ∈ ms, ValueText m.value)
    {inner : Bytes} (hinner : Blanks inner) (after : Bytes) :
    members member s (inner ++ (commaSeparated (ms.map Member.text) ++ 0x7D :: after)) = .ok (t, rest) ↔
      rest = after ∧ Effects effect ms s t := by
  unfold members
  cases ms with
  | nil => exact membersFrom_close (skipBlanks_brace hinner after)
  | cons m ms =>
    have ⟨hvalue, hvalues⟩ := List.forall_mem_cons.mp hvalues
    have hnext : nextMember true (inner ++ (commaSeparated ((m :: ms).map Member.text) ++ 0x7D :: after)) =
        .ok (.item (m.textAfterQuote ++ ((ms.map Member.text).flatMap (0x2C :: ·) ++ 0x7D :: after))) := by
      refine nextMember_item_iff.mpr ?_
      rw [List.map_cons, commaSeparated, List.append_assoc]
      exact skipBlanks_member m hinner _
    have hsteps : ms.length <
        (inner ++ (commaSeparated ((m :: ms).map Member.text) ++ 0x7D :: after)).length := by
      have hlength := length_le_flatMap (ms.map Member.text)
      rw [List.length_map] at hlength
      simp only [List.map_cons, commaSeparated, List.length_append, List.length_cons]
      omega
    rw [membersFrom_member hacts hvalue hnext (stops_parts .object _ after), Effects.cons_iff]
    simp only [membersFrom_text hacts hvalues m.after_blank after hsteps]
    constructor
    · rintro ⟨name, u, hname, heffect, rfl, hmore⟩
      exact ⟨rfl, name, u, hname, heffect, hmore⟩
    · rintro ⟨rfl, name, u, hname, heffect, hmore⟩
      exact ⟨name, u, hname, heffect, rfl, hmore⟩

/-- The brace of an object is found after blanks, and after its members stands nothing but blanks. -/
theorem ObjectText.exists_start (h : ObjectText ms input) :
    ∃ start after, skipBlanks input = 0x7B :: start ∧ skipBlanks after = [] ∧
      ∀ {σ : Type} {member : σ → String → Bytes → Outcome σ} {effect : Member → String → σ → σ → Prop},
        Acts member effect → ∀ s t rest,
          members member s start = .ok (t, rest) ↔ rest = after ∧ Effects effect ms s t := by
  cases h with
  | @object before inner after hbefore hinner hafter hvalues =>
    refine ⟨_, after, ?_, ?_, fun hacts s t rest => members_text hacts hvalues hinner after⟩
    · rw [skipBlanks_append hbefore]
      exact skipBlanks_of_not_blank (by decide) _
    · rw [← List.append_nil after, skipBlanks_append hafter]
      rfl

/-! ## Members in another order -/

/-- Members that can be exchanged one by one do the same in any order. -/
theorem Effects.perm
    (hexchange : ∀ {m m' : Member} {name name' : String} {s t u : σ}, effect m name s t →
      effect m' name' t u → ∃ t', effect m' name' s t' ∧ effect m name t' u)
    (hperm : ms.Perm more) (h : Effects effect ms s t) : Effects effect more s t := by
  induction hperm generalizing s with
  | nil => exact h
  | cons m _ ih =>
    obtain ⟨name, u, hname, head, tail⟩ := Effects.cons_iff.mp h
    exact .cons hname head (ih tail)
  | swap m m' ms =>
    obtain ⟨name', u, hname', head', htail⟩ := Effects.cons_iff.mp h
    obtain ⟨name, v, hname, head, tail⟩ := Effects.cons_iff.mp htail
    obtain ⟨w, hfirst, hsecond⟩ := hexchange head' head
    exact .cons hname hfirst (.cons hname' hsecond tail)
  | trans _ _ ih ih' => exact ih' (ih h)

/-- Members that do nothing can all be left out. -/
theorem Effects.refl (h : ∀ m ∈ ms, ∃ name, m.Named name ∧ ∀ s, effect m name s s) (s : σ) :
    Effects effect ms s s := by
  induction ms with
  | nil => exact .nil s
  | cons m ms ih =>
    have ⟨⟨name, hname, heffect⟩, hms⟩ := List.forall_mem_cons.mp h
    exact .cons hname (heffect s) (ih hms)

end BuildBrowser.Json
