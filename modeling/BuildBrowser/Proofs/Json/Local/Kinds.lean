import BuildBrowser.Proofs.Json.Local.Number
import BuildBrowser.Proofs.Json.Written

/-!
# Lists, objects and values are read locally

The loops over lists and objects count their steps by the bytes they are given, and other bytes after a
value make for another count. So the laws of the loops, `exists_items` and `exists_members`, say of the
bytes that a loop takes that with any others after them, their number of steps is enough.

The values of each kind then follow: what a reader does before it comes to a loop, a string or a number
is to skip blanks and look at one byte (`takes_of_start`).
-/

namespace BuildBrowser.Json

variable {α β σ : Type} {input rest start : Bytes}

/-! ## What stands next -/

theorem nextItem_close_iff {first : Bool} :
    nextItem first input = .ok (.close rest) ↔ skipBlanks input = 0x5D :: rest := by
  constructor
  · intro h
    unfold nextItem at h
    split at h
    · cases h
    next b after hinput =>
      split at h
      · next hb =>
        cases h
        rw [hinput, hb]
      split at h
      · cases h
      split at h
      · split at h
        · cases h
        · split at h <;> cases h
      · cases h
  · exact nextItem_close first

/-- An item starts after blanks, or after a comma and blanks if it is not the first. -/
theorem nextItem_item_iff {first : Bool} :
    nextItem first input = .ok (.item start) ↔
      ∃ b more, start = b :: more ∧ b ≠ 0x5D ∧
        if first then skipBlanks input = start
        else ∃ after, skipBlanks input = 0x2C :: after ∧ skipBlanks after = start := by
  constructor
  · intro h
    unfold nextItem at h
    split at h
    · cases h
    next b more hinput =>
      split at h
      · cases h
      next hb =>
        split at h
        · next hfirst =>
          cases h
          exact ⟨b, more, rfl, hb, by rw [if_pos hfirst, hinput]⟩
        next hfirst =>
          split at h
          · next hcomma =>
            subst hcomma
            split at h
            · cases h
            next c after hafter =>
              split at h
              · cases h
              next hc =>
                cases h
                exact ⟨c, after, rfl, hc, by rw [if_neg hfirst]; exact ⟨_, hinput, hafter⟩⟩
          · cases h
  · rintro ⟨b, more, rfl, hb, h⟩
    cases first with
    | true => exact nextItem_first h hb
    | false =>
      obtain ⟨after, hinput, hafter⟩ := h
      simp [nextItem, hinput, hafter, hb]

theorem nextMember_close_iff {first : Bool} :
    nextMember first input = .ok (.close rest) ↔ skipBlanks input = 0x7D :: rest := by
  constructor
  · intro h
    unfold nextMember at h
    split at h
    · cases h
    next b after hinput =>
      split at h
      · next hb =>
        cases h
        rw [hinput, hb]
      split at h
      · split at h <;> cases h
      split at h
      · split at h
        · cases h
        · split at h
          · cases h
          · split at h <;> cases h
      · cases h
  · exact nextMember_close first

/-- The name of a member starts after a quote, before which a comma stands if it is not the first. -/
theorem nextMember_item_iff {first : Bool} :
    nextMember first input = .ok (.item start) ↔
      if first then skipBlanks input = 0x22 :: start
      else ∃ after, skipBlanks input = 0x2C :: after ∧ skipBlanks after = 0x22 :: start := by
  constructor
  · intro h
    unfold nextMember at h
    split at h
    · cases h
    next b more hinput =>
      split at h
      · cases h
      split at h
      · next hfirst =>
        split at h
        · next hquote =>
          cases h
          rw [if_pos hfirst, hinput, hquote]
        · cases h
      next hfirst =>
        split at h
        · next hcomma =>
          split at h
          · cases h
          next c after hafter =>
            split at h
            · next hquote =>
              cases h
              rw [if_neg hfirst]
              exact ⟨more, by rw [hinput, hcomma], by rw [hafter, hquote]⟩
            · split at h <;> cases h
        · cases h
  · intro h
    cases first with
    | true => exact nextMember_first h
    | false =>
      obtain ⟨after, hinput, hafter⟩ := h
      simp [nextMember, hinput, hafter]

theorem colon_ok : colon input = .ok rest ↔ skipBlanks input = 0x3A :: rest := by
  unfold colon
  constructor
  · intro h
    split at h
    · cases h
    next b more hinput =>
      split at h
      · next hb =>
        cases h
        rw [hinput, hb]
      · cases h
  · intro h
    simp [h]

/-- What stands before the first byte of an item is passed over, whatever follows that byte. -/
theorem exists_before_item {first : Bool} (h : nextItem first input = .ok (.item start)) :
    ∃ used b more, start = b :: more ∧ input = used ++ start ∧
      ∀ other, nextItem first (used ++ b :: other) = .ok (.item (b :: other)) := by
  obtain ⟨b, more, rfl, hb, h⟩ := nextItem_item_iff.mp h
  cases first with
  | true =>
    obtain ⟨blanks, rfl, hblanks⟩ := exists_blanks h
    exact ⟨blanks, b, more, rfl, rfl,
      fun other => nextItem_item_iff.mpr ⟨b, other, rfl, hb, hblanks other⟩⟩
  | false =>
    obtain ⟨after, hcomma, hafter⟩ := h
    obtain ⟨blanks, rfl, hblanks⟩ := exists_blanks hafter
    obtain ⟨before, rfl, hbefore⟩ := exists_blanks hcomma
    refine ⟨before ++ 0x2C :: blanks, b, more, rfl, by simp, fun other => ?_⟩
    rw [List.append_assoc, List.cons_append]
    exact nextItem_item_iff.mpr ⟨b, other, rfl, hb, _, hbefore _, hblanks other⟩

/-- What stands before the name of a member is passed over, whatever the name is. -/
theorem exists_before_member {first : Bool} (h : nextMember first input = .ok (.item start)) :
    ∃ used, input = used ++ start ∧
      ∀ other, nextMember first (used ++ other) = .ok (.item other) := by
  have h := nextMember_item_iff.mp h
  cases first with
  | true =>
    obtain ⟨blanks, rfl, hblanks⟩ := exists_blanks h
    refine ⟨blanks ++ [0x22], by simp, fun other => ?_⟩
    rw [List.append_assoc, List.singleton_append]
    exact nextMember_item_iff.mpr (hblanks other)
  | false =>
    obtain ⟨after, hcomma, hafter⟩ := h
    obtain ⟨blanks, rfl, hblanks⟩ := exists_blanks hafter
    obtain ⟨before, rfl, hbefore⟩ := exists_blanks hcomma
    refine ⟨before ++ 0x2C :: (blanks ++ [0x22]), by simp, fun other => ?_⟩
    rw [List.append_assoc, List.cons_append, List.append_assoc, List.singleton_append]
    exact nextMember_item_iff.mpr ⟨_, hbefore _, hblanks other⟩

/-! ## Loops -/

/-- The items up to the end of a list are read again before other bytes. Each takes a byte, and so does
the bracket, so the bytes taken are steps enough. -/
theorem exists_items {item : Bytes → Outcome α} (hitem : Local item) {steps : Nat} {first : Bool}
    {as : List α} (h : itemsFrom item steps first input = .ok (as, rest)) :
    ∃ used, used ≠ [] ∧ input = used ++ rest ∧ ∀ other steps, used.length ≤ steps →
      itemsFrom item steps first (used ++ other) = .ok (as, other) := by
  induction steps generalizing first input as with
  | zero => cases h
  | succ steps ih =>
    obtain ⟨hclose, rfl⟩ | ⟨start, a, after, more, hnext, ha, hmore, rfl⟩ := itemsFrom_ok.mp h
    · obtain ⟨blanks, rfl, hblanks⟩ := exists_blanks (nextItem_close_iff.mp hclose)
      refine ⟨blanks ++ [0x5D], by simp, by simp, fun other steps hsteps => ?_⟩
      obtain ⟨steps, rfl⟩ : ∃ k, steps = k + 1 :=
        Nat.exists_eq_add_one_of_ne_zero fun hzero => by simp [hzero] at hsteps
      rw [List.append_assoc, List.singleton_append]
      exact itemsFrom_ok.mpr (.inl ⟨nextItem_close_iff.mpr (hblanks other), rfl⟩)
    · obtain ⟨before, b, _, rfl, rfl, hbefore⟩ := exists_before_item hnext
      obtain ⟨_ | ⟨_, used⟩, hused, hinput, htakes⟩ := hitem ha
      · exact absurd rfl hused
      obtain ⟨rfl, rfl⟩ := List.cons.inj hinput
      obtain ⟨last, hne, rfl, hlast⟩ := ih hmore
      refine ⟨before ++ b :: (used ++ last), by simp, by simp, fun other steps hsteps => ?_⟩
      obtain ⟨steps, rfl⟩ : ∃ k, steps = k + 1 :=
        Nat.exists_eq_add_one_of_ne_zero fun hzero => by simp [hzero] at hsteps
      have hsteps : last.length ≤ steps := by
        simp only [List.length_append, List.length_cons] at hsteps
        omega
      rw [List.append_assoc, List.cons_append, List.append_assoc]
      exact itemsFrom_ok.mpr (.inr ⟨_, a, last ++ other, more, hbefore _,
        htakes (follows_append_of_ne_nil hne rest other), hlast other steps hsteps, rfl⟩)

theorem local_items {item : Bytes → Outcome α} (hitem : Local item) : Local (items item) := by
  intro input rest as h
  obtain ⟨used, hused, rfl, htakes⟩ := exists_items hitem h
  refine ⟨used, hused, rfl, fun other _ => htakes other _ ?_⟩
  rw [List.length_append]
  omega

/-- The members up to the end of an object are read again before other bytes, with steps enough. -/
theorem exists_members {member : σ → String → Bytes → Outcome σ}
    (hmember : ∀ s name, Local (member s name)) {steps : Nat} {first : Bool} {s t : σ}
    (h : membersFrom member steps first s input = .ok (t, rest)) :
    ∃ used, used ≠ [] ∧ input = used ++ rest ∧ ∀ other steps, used.length ≤ steps →
      membersFrom member steps first s (used ++ other) = .ok (t, other) := by
  induction steps generalizing first s input with
  | zero => cases h
  | succ steps ih =>
    obtain ⟨hclose, rfl⟩ | ⟨start, name, colon, next, after, hnext, hname, hm, hmore⟩ :=
      membersFrom_ok.mp h
    · obtain ⟨blanks, rfl, hblanks⟩ := exists_blanks (nextMember_close_iff.mp hclose)
      refine ⟨blanks ++ [0x7D], by simp, by simp, fun other steps hsteps => ?_⟩
      obtain ⟨steps, rfl⟩ : ∃ k, steps = k + 1 :=
        Nat.exists_eq_add_one_of_ne_zero fun hzero => by simp [hzero] at hsteps
      rw [List.append_assoc, List.singleton_append]
      exact membersFrom_ok.mpr (.inl ⟨nextMember_close_iff.mpr (hblanks other), rfl⟩)
    · obtain ⟨before, rfl, hbefore⟩ := exists_before_member hnext
      obtain ⟨text, -, rfl, hstring⟩ := local_string hname
      obtain ⟨used, hused, rfl, htakes⟩ := hmember s name hm
      obtain ⟨last, hne, rfl, hlast⟩ := ih hmore
      refine ⟨before ++ (text ++ (used ++ last)), by simp [hused], by simp,
        fun other steps hsteps => ?_⟩
      have hlength := List.length_pos_iff.mpr hused
      simp only [List.length_append] at hsteps
      obtain ⟨steps, rfl⟩ : ∃ k, steps = k + 1 := Nat.exists_eq_add_one_of_ne_zero (by omega)
      rw [List.append_assoc, List.append_assoc, List.append_assoc]
      exact membersFrom_ok.mpr (.inr ⟨_, name, used ++ (last ++ other), next, last ++ other, hbefore _,
        hstring (follows_append_of_ne_nil hused _ _),
        htakes (follows_append_of_ne_nil hne rest other), hlast other steps (by omega)⟩)

theorem local_members {member : σ → String → Bytes → Outcome σ}
    (hmember : ∀ s name, Local (member s name)) (s : σ) : Local (members member s) := by
  intro input rest t h
  obtain ⟨used, hused, rfl, htakes⟩ := exists_members hmember h
  refine ⟨used, hused, rfl, fun other _ => htakes other _ ?_⟩
  rw [List.length_append]
  omega

/-- A member that is read after its colon is read locally if what stands there is. -/
theorem local_afterColon {member tail : Bytes → Outcome α} (htail : Local tail)
    (hmember : ∀ input, member input =
      match colon input with
      | .error fault => .error fault
      | .ok rest => tail rest) : Local member := by
  intro input rest a h
  rw [hmember] at h
  split at h
  · cases h
  next start hcolon =>
    refine takes_of_start (colon_ok.mp hcolon) (htail.exists_takes h) fun input start hstart => ?_
    rw [hmember, colon_ok.mpr hstart]

theorem local_keepMember {item : Bytes → Outcome α} (hitem : Local item) (kept : Members α)
    (name : String) : Local (keepMember item kept name) := by
  refine local_afterColon (hitem.map fun a => Members.insert name a kept) fun input => ?_
  rw [keepMember]
  cases colon input with
  | error fault => rfl
  | ok start =>
    dsimp only
    cases item start <;> rfl

/-! ## Values -/

theorem local_error {fault : Bytes → Fault} : Local fun input => (.error (fault input) : Outcome α) := by
  intro input rest a h
  cases h

theorem local_valueWith {list object : Bytes → Outcome Value} (hlist : Local list)
    (hobject : Local object) : Local (valueWith list object) := by
  intro input rest v hread
  cases readAs_of_ok hread with
  | null hinput h | true hinput h | false hinput h =>
    exact takes_of_start hinput (takes_word h _) fun _ _ hstart => by simp [valueWith, hstart]
  | negative hinput h =>
    exact takes_of_start hinput ((local_number true).takes_map h Value.number)
      fun _ _ hstart => by simp [valueWith, hstart]
  | digits hb hinput h =>
    exact takes_of_start hinput
      (((local_number false).map Value.number).takes_tail (map_ok.mpr ⟨_, h, rfl⟩))
      fun _ _ hstart => valueWith_digit hb hstart
  | string hinput h =>
    exact takes_of_start hinput (local_string.takes_map h Value.string)
      fun _ _ hstart => by simp [valueWith, hstart, isDigit]
  | list hinput h =>
    exact takes_of_start hinput (hlist.exists_takes h)
      fun _ _ hstart => by simp [valueWith, hstart, isDigit]
  | object hinput h =>
    exact takes_of_start hinput (hobject.exists_takes h)
      fun _ _ hstart => by simp [valueWith, hstart, isDigit]

/-- **Any value is read locally.** -/
theorem local_value (n : Nat) : Local (value n) := by
  induction n with
  | zero =>
    rw [value]
    exact local_valueWith local_error local_error
  | succ n ih =>
    rw [value]
    exact local_valueWith ((local_items ih).map _)
      ((local_members (fun kept name => local_keepMember ih kept name) []).map _)

/-! ## Wanted kinds -/

theorem local_text (n : Nat) : Local (text n) := by
  intro input rest s h
  obtain ⟨start, hstart, hread⟩ := text_ok.mp h
  exact takes_of_start hstart (local_string.exists_takes hread)
    fun _ _ hinput => by simp only [text, hinput]

theorem asUnsigned_ok {outcome : Outcome Number} {n : UInt64} :
    asUnsigned outcome = .ok (n, rest) ↔ outcome = .ok (.nat n, rest) := by
  rcases outcome with fault | ⟨_ | _ | _, after⟩ <;> simp [asUnsigned]

/-- A number that must be unsigned is read as locally as any number. -/
theorem local_asUnsigned (negative : Bool) : Local fun input => asUnsigned (number negative input) := by
  intro input rest n h
  obtain ⟨used, hused, rfl, htakes⟩ := local_number negative (asUnsigned_ok.mp h)
  exact ⟨used, hused, rfl, fun other hother => asUnsigned_ok.mpr (htakes hother)⟩

theorem local_unsigned (n : Nat) : Local (unsigned n) := by
  intro input rest a h
  unfold unsigned at h
  split at h
  · next start hstart =>
    exact takes_of_start hstart ((local_asUnsigned true).exists_takes h)
      fun _ _ hinput => by simp only [unsigned, hinput]
  · next b start hminus hstart =>
    split at h
    · next hb =>
      refine takes_of_start hstart ((local_asUnsigned false).takes_tail h) fun _ _ hinput => ?_
      have hne : b ≠ 0x2D := ne_of_isDigit hb rfl
      unfold unsigned
      rw [hinput]
      split
      · next heq => exact absurd (List.cons.inj heq).1 hne
      · next heq =>
        cases heq
        rw [if_pos hb]
      · next heq => cases heq
    · cases h
  · cases h

theorem local_list {item : Decoder α} (hitem : ∀ n, Local (item n)) (n : Nat) : Local (list item n) := by
  intro input rest as h
  obtain ⟨m, start, rfl, hstart, hread⟩ := list_ok.mp h
  exact takes_of_start hstart ((local_items (hitem m)).exists_takes hread)
    fun _ _ hinput => by simp only [list, hinput]

theorem local_fold {wanted : Wanted} {member : (allowance : Nat) → σ → String → Bytes → Outcome σ}
    (hmember : ∀ n s name, Local (member n s name)) (s : σ) (n : Nat) :
    Local (fold wanted member s n) := by
  intro input rest t h
  obtain ⟨m, start, rfl, hstart, hread⟩ := fold_ok.mp h
  exact takes_of_start hstart ((local_members (hmember m) s).exists_takes hread)
    fun _ _ hinput => by simp only [fold, hinput]

theorem local_object {item : Decoder α} (hitem : ∀ n, Local (item n)) (n : Nat) :
    Local (object item n) :=
  local_fold (fun n => local_keepMember (hitem n)) [] n

/-- A value that may be null is read locally if the value is. -/
theorem local_nullable {item : Decoder α} (hitem : ∀ n, Local (item n)) (n : Nat) :
    Local (nullable item n) := by
  intro input rest a h
  unfold nullable at h
  split at h
  · next start hstart =>
    obtain ⟨after, hword, heq⟩ := map_ok.mp h
    cases heq
    exact takes_of_start hstart (takes_word hword _) fun _ _ hinput => by simp only [nullable, hinput]
  · next hnull =>
    cases hstart : skipBlanks input with
    | nil =>
      rw [hstart] at h
      obtain ⟨⟨_, _⟩, hread, -⟩ := map_ok.mp h
      obtain ⟨used, hused, hinput, -⟩ := hitem n hread
      exact absurd (List.append_eq_nil_iff.mp hinput.symm).1 hused
    | cons b start =>
      rw [hstart] at h
      have hb : b ≠ 0x6E := by
        rintro rfl
        exact hnull _ hstart
      refine takes_of_start hstart (((hitem n).map some).takes_tail h) fun input start hinput => ?_
      unfold nullable
      rw [hinput]
      split
      · next heq => exact absurd (List.cons.inj heq).1 hb
      · rfl

end BuildBrowser.Json
