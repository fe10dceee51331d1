import BuildBrowser.Json.Skip
import BuildBrowser.Proofs.Json.Grammar
import BuildBrowser.Proofs.Json.Local.Number
import BuildBrowser.Proofs.Json.Written
import Mathlib.Data.List.DropRight

/-!
# Every well-formed value is passed over

A value that nobody keeps is passed over by a machine with a list of open brackets (`skipFrom`), which
counts its steps. `Passes` says of the machine what a recursive reader would say of itself: from the
start of a value it gets to the end of that value, with the brackets open that were open before, and
with steps enough left for the bytes left. The machine then goes on as if the value had been a scalar,
so values within brackets are passed over one after another (`closes_after`), and the law for lists and
objects follows from the law for what stands in them.

**Every value of the grammar is passed over up to its end** (`passes_text`), however deep it nests,
whatever the size of its numbers and the surrogates in its strings.
-/

namespace BuildBrowser.Json

variable {input rest start : Bytes} {bracket : Bracket} {place : Place}

/-! ## The machine, a value at a time -/

/-- The steps that a place takes more than twice the number of bytes. -/
def Place.cost : Place → Nat
  | .opened => 1
  | .value | .after => 0

/-- With steps enough, the machine gets from a place to one after a value, and has steps enough there. -/
def Reaches (place : Place) (brackets : List Bracket) (input : Bytes) (left : List Bracket)
    (rest : Bytes) : Prop :=
  ∀ steps, 2 * input.length + place.cost < steps →
    ∃ more, 2 * rest.length < more ∧
      skipFrom steps place brackets input = skipFrom more .after left rest

/-- The value at the start of the input ends before the rest. -/
def Passes (input rest : Bytes) : Prop :=
  ∀ brackets, Reaches .value brackets input brackets rest

/-- The bracket that is open at a place closes before the rest. -/
def Closes (place : Place) (bracket : Bracket) (input rest : Bytes) : Prop :=
  ∀ brackets, Reaches place (bracket :: brackets) input brackets rest

/-- Where a value within a bracket may start, the value, in an object after its name, ends before the
rest. -/
def Enters (bracket : Bracket) (input rest : Bytes) : Prop :=
  ∃ inside, bracket.enter input = .ok inside ∧ inside.length ≤ input.length ∧ Passes inside rest

/-- A value that ends before the rest is skipped up to there. -/
theorem skip_of_passes (h : Passes input rest) : skip input = .ok rest := by
  obtain ⟨more, hmore, hskip⟩ := h [] (2 * input.length + 3) (by simp [Place.cost])
  obtain ⟨more, rfl⟩ := Nat.exists_eq_add_one_of_ne_zero (Nat.ne_zero_of_lt hmore)
  rw [skip, hskip, skipFrom]

theorem length_lt_of_start {b : UInt8} (h : skipBlanks input = b :: start) :
    start.length < input.length := by
  have hlength := (List.dropWhile_suffix (p := isBlank) (l := input)).length_le
  rw [show input.dropWhile isBlank = b :: start from h, List.length_cons] at hlength
  exact hlength

theorem skipBlanks_skipBlanks (input : Bytes) : skipBlanks (skipBlanks input) = skipBlanks input :=
  List.dropWhile_idempotent isBlank input

/-- After a value the machine is where it gets to. -/
theorem Reaches.refl (brackets : List Bracket) (input : Bytes) :
    Reaches .after brackets input brackets input :=
  fun steps hsteps => ⟨steps, hsteps, rfl⟩

/-- The machine goes on from where it gets to. -/
theorem Reaches.trans {brackets inside left : List Bracket} {mid : Bytes}
    (h : Reaches place brackets input inside mid) (hmore : Reaches .after inside mid left rest) :
    Reaches place brackets input left rest := by
  intro steps hsteps
  obtain ⟨enough, henough, hmid⟩ := h steps hsteps
  obtain ⟨more, hmore, hrest⟩ := hmore enough henough
  exact ⟨more, hmore, hmid.trans hrest⟩

/-- A step of the machine leaves as many as it needs where it gets to. -/
theorem Reaches.of_step {next : Place} {brackets inside left : List Bracket} {mid : Bytes}
    (h : Reaches next inside mid left rest)
    (hstep : ∀ steps, skipFrom (steps + 1) place brackets input = skipFrom steps next inside mid)
    (hlength : 2 * mid.length + next.cost < 2 * input.length + place.cost) :
    Reaches place brackets input left rest := by
  intro steps hsteps
  obtain ⟨steps, rfl⟩ := Nat.exists_eq_add_one_of_ne_zero (Nat.ne_zero_of_lt hsteps)
  rw [hstep]
  exact h steps (by omega)

/-- A scalar. -/
theorem passes_scalar (h : skipStart input = .ok (none, rest)) (hlength : rest.length < input.length) :
    Passes input rest := by
  intro brackets
  refine (Reaches.refl brackets rest).of_step (fun steps => ?_) ?_
  · rw [skipFrom, h]
  · simp only [Place.cost]
    omega

/-- A list or an object. -/
theorem passes_bracket (h : skipStart input = .ok (some bracket, start))
    (hlength : start.length < input.length) (hcloses : Closes .opened bracket start rest) :
    Passes input rest := by
  intro brackets
  refine (hcloses brackets).of_step (fun steps => ?_) ?_
  · rw [skipFrom, h]
  · simp only [Place.cost]
    omega

/-- Blanks before a value. -/
theorem passes_of_skipBlanks (h : skipBlanks input = start) (hpasses : Passes start rest) :
    Passes input rest := by
  intro brackets steps hsteps
  have hlength := (List.dropWhile_suffix (p := isBlank) (l := input)).length_le
  rw [show input.dropWhile isBlank = start from h] at hlength
  obtain ⟨more, hmore, hskip⟩ := hpasses brackets steps (by
    simp only [Place.cost] at hsteps ⊢
    omega)
  refine ⟨more, hmore, ?_⟩
  obtain ⟨steps, rfl⟩ := Nat.exists_eq_add_one_of_ne_zero (Nat.ne_zero_of_lt hsteps)
  have hstart : skipStart input = skipStart start := by
    rw [skipStart, skipStart, ← h, skipBlanks_skipBlanks]
  rw [← hskip, skipFrom, skipFrom, hstart]

/-- The closing bracket. -/
theorem closes_now (hplace : place ≠ .value) (h : skipBlanks input = bracket.close :: rest) :
    Closes place bracket input rest := by
  intro brackets
  have hlength := length_lt_of_start h
  refine (Reaches.refl brackets rest).of_step (fun steps => ?_) ?_
  · cases place with
    | value => exact absurd rfl hplace
    | opened | after => simp [skipFrom, h]
  · simp only [Place.cost]
    omega

/-- The first value within a bracket, and what stands after it. -/
theorem closes_first {b : UInt8} {mid : Bytes} (h : skipBlanks input = b :: start)
    (hb : b ≠ bracket.close) (henters : Enters bracket (b :: start) mid)
    (hcloses : Closes .after bracket mid rest) : Closes .opened bracket input rest := by
  intro brackets
  obtain ⟨inside, henter, hinside, hpasses⟩ := henters
  have hlength := length_lt_of_start h
  refine ((hpasses (bracket :: brackets)).trans (hcloses brackets)).of_step (fun steps => ?_) ?_
  · simp only [skipFrom, h, if_neg hb, henter]
  · simp only [Place.cost, List.length_cons] at hinside ⊢
    omega

/-- A comma, a further value, and what stands after it. -/
theorem closes_next {mid : Bytes} (h : skipBlanks input = 0x2C :: start)
    (henters : Enters bracket start mid) (hcloses : Closes .after bracket mid rest) :
    Closes .after bracket input rest := by
  intro brackets
  obtain ⟨inside, henter, hinside, hpasses⟩ := henters
  have hlength := length_lt_of_start h
  have hcomma : (0x2C : UInt8) ≠ bracket.close := by cases bracket <;> decide
  refine ((hpasses (bracket :: brackets)).trans (hcloses brackets)).of_step (fun steps => ?_) ?_
  · simp only [skipFrom, h, if_neg hcomma, if_true, henter]
  · simp only [Place.cost]
    omega

/-- Blanks after a value. -/
theorem closes_of_blanks {blanks : Bytes} (hblanks : Blanks blanks)
    (h : Closes .after bracket input rest) : Closes .after bracket (blanks ++ input) rest := by
  intro brackets steps hsteps
  obtain ⟨more, hmore, hskip⟩ := h brackets steps (by
    simp only [Place.cost, List.length_append] at hsteps ⊢
    omega)
  refine ⟨more, hmore, ?_⟩
  obtain ⟨steps, rfl⟩ := Nat.exists_eq_add_one_of_ne_zero (Nat.ne_zero_of_lt hsteps)
  rw [← hskip, skipFrom, skipFrom, skipBlanks_append hblanks]

/-! ## Strings and numbers of the grammar -/

theorem exists_hexDigit {b : UInt8} (h : IsHexDigit b) : ∃ n, hexDigit? b = some n := by
  unfold hexDigit?
  split
  · exact ⟨_, rfl⟩
  next hdigit =>
    split
    · exact ⟨_, rfl⟩
    next hupper =>
      split
      · exact ⟨_, rfl⟩
      next hlower =>
        simp only [Bool.and_eq_true, decide_eq_true_eq] at hdigit hupper hlower
        rcases h with h | h | h
        · exact absurd h hdigit
        · exact absurd h hupper
        · exact absurd h hlower

theorem exists_hex4 {b c d e : UInt8} (hb : IsHexDigit b) (hc : IsHexDigit c) (hd : IsHexDigit d)
    (he : IsHexDigit e) : ∃ n, hex4? b c d e = some n := by
  obtain ⟨_, hb⟩ := exists_hexDigit hb
  obtain ⟨_, hc⟩ := exists_hexDigit hc
  obtain ⟨_, hd⟩ := exists_hexDigit hd
  obtain ⟨_, he⟩ := exists_hexDigit he
  simp [hex4?, hb, hc, hd, he]

theorem exists_escapeLetter {b : UInt8} (h : b ∈ escapeLetters) : b ≠ 0x75 ∧ ∃ c, escapeLetter? b = some c := by
  simp only [escapeLetters, List.mem_cons, List.not_mem_nil, or_false] at h
  rcases h with rfl | rfl | rfl | rfl | rfl | rfl | rfl | rfl <;> exact ⟨by decide, _, rfl⟩

/-- What stands between quotes is passed over, escapes of lone surrogates included. -/
theorem skipString_text {text : Bytes} (h : StringText text) (rest : Bytes) :
    skipString .plain (text ++ 0x22 :: rest) = .ok rest := by
  induction h with
  | nil => simp [skipString, Scan.move]
  | raw hquote hescape hcontrol _ ih =>
    simpa only [List.cons_append, skipString, Scan.move, if_neg hquote, if_neg hescape,
      if_neg hcontrol] using ih
  | letter hb _ ih =>
    obtain ⟨hu, c, hc⟩ := exists_escapeLetter hb
    simpa [skipString, Scan.move, hu, hc] using ih
  | number hb hc hd he _ ih =>
    obtain ⟨n, hn⟩ := exists_hex4 hb hc hd he
    simpa [skipString, Scan.move, hn, Scan.single] using ih

theorem run_of_digits {text : Bytes} (h : DigitsText text) (hrest : digitAhead rest = false) :
    Run text rest := by
  cases h with
  | digits hb hmore => exact ⟨List.forall_mem_cons.mpr ⟨hb, hmore⟩, hrest⟩

theorem digitAhead_of_digits {text : Bytes} (h : DigitsText text) (rest : Bytes) :
    digitAhead (text ++ rest) = true := by
  cases h with
  | digits hb _ => exact hb

theorem digitAhead_of_stops (h : Stops rest) : digitAhead rest = false := by
  cases rest with
  | nil => rfl
  | cons b rest => exact (stops_cons.mp h).1

theorem skipExponent?_text {text : Bytes} (h : ExponentText text) (hrest : Stops rest) :
    skipExponent? (text ++ rest) = .ok rest := by
  cases h with
  | missing =>
    refine skipExponent?_of_unmarked fun b hb => ?_
    obtain ⟨-, -, he, hE⟩ := hrest b hb
    exact not_or.mpr ⟨he, hE⟩
  | @digits mark sign digits hmark hsign hdigits =>
    have hrun := run_of_digits hdigits (digitAhead_of_stops hrest)
    have hafter : (exponentSign (sign ++ (digits ++ rest))).2 = digits ++ rest := by
      cases hdigits with
      | @digits b more hb _ =>
        have hplus : b ≠ 0x2B := ne_of_isDigit hb rfl
        have hminus : b ≠ 0x2D := ne_of_isDigit hb rfl
        rcases hsign with rfl | rfl | rfl <;> simp [exponentSign, hplus, hminus]
    have hskip : skipAfterMark (sign ++ (digits ++ rest)) = .ok rest := by
      cases hdigits with
      | @digits b more hb _ =>
        rw [skipAfterMark, hafter]
        simp only [List.cons_append, if_pos hb, hrun.tail.dropWhile]
    rw [List.cons_append, List.append_assoc, skipExponent?, if_pos hmark, hskip]

/-- An exponent that may be missing goes on with no digits and no point. -/
theorem head_exponent {text : Bytes} (h : ExponentText text) (hrest : Stops rest) :
    digitAhead (text ++ rest) = false ∧ ∀ b ∈ (text ++ rest).head?, b ≠ 0x2E := by
  cases h with
  | missing => exact ⟨digitAhead_of_stops hrest, fun b hb => (hrest b hb).2.1⟩
  | digits hmark _ _ => rcases hmark with rfl | rfl <;> simp [digitAhead, isDigit]

theorem skipFraction?_text {fraction exponent : Bytes} (hfraction : FractionText fraction)
    (hexponent : ExponentText exponent) (hrest : Stops rest) :
    skipFraction? (fraction ++ (exponent ++ rest)) = .ok rest := by
  obtain ⟨hdigit, hpoint⟩ := head_exponent hexponent hrest
  have hskip := skipExponent?_text hexponent hrest
  cases hfraction with
  | missing =>
    rw [List.nil_append]
    cases hmore : exponent ++ rest with
    | nil => rwa [hmore] at hskip
    | cons b more =>
      rw [hmore] at hskip hpoint
      rw [skipFraction?, if_neg (hpoint b rfl), hskip]
  | digits h =>
    rw [List.cons_append, skipFraction?, if_pos rfl, digitAhead_of_digits h, if_pos rfl,
      (run_of_digits h hdigit).dropWhile, hskip]

theorem skipNumber_text {text : Bytes} (h : UnsignedText text) (hrest : Stops rest) :
    skipNumber (text ++ rest) = .ok rest := by
  cases h with
  | @parts integer fraction exponent hinteger hfraction hexponent =>
    have hskip := skipFraction?_text hfraction hexponent hrest
    have hdigit : digitAhead (fraction ++ (exponent ++ rest)) = false := by
      cases hfraction with
      | missing => exact (head_exponent hexponent hrest).1
      | digits _ => rfl
    rw [List.append_assoc, List.append_assoc]
    cases hinteger with
    | zero => simp only [List.cons_append, List.nil_append, skipNumber, if_true, hdigit,
        Bool.false_eq_true, if_false, hskip]
    | digits hzero h =>
      have hrun := run_of_digits h hdigit
      cases h with
      | digits hb _ => rw [List.cons_append, skipNumber, if_neg hzero, if_pos hb, hrun.tail.dropWhile, hskip]

/-! ## Values of the grammar -/

theorem head_unsignedText {text : Bytes} (h : UnsignedText text) :
    ∃ b more, text = b :: more ∧ isDigit b = true := by
  cases h with
  | parts hinteger _ _ =>
    cases hinteger with
    | zero => exact ⟨0x30, _, rfl, rfl⟩
    | digits _ h =>
      cases h with
      | digits hb _ => exact ⟨_, _, rfl, hb⟩

theorem not_isBlank_of_isDigit {b : UInt8} (h : isDigit b = true) : isBlank b = false := by
  have hne {c : UInt8} (hc : isDigit c = false) : b ≠ c := ne_of_isDigit h hc
  simp [isBlank, hne (c := 0x20) rfl, hne (c := 0x09) rfl, hne (c := 0x0A) rfl, hne (c := 0x0D) rfl]

/-- No value of the grammar starts with a blank or closes a list. -/
theorem head_valueText {text : Bytes} (h : ValueText text) :
    ∃ b more, text = b :: more ∧ isBlank b = false ∧ b ≠ 0x5D := by
  cases h with
  | null => exact ⟨0x6E, _, rfl, by decide⟩
  | true => exact ⟨0x74, _, rfl, by decide⟩
  | false => exact ⟨0x66, _, rfl, by decide⟩
  | number h =>
    obtain ⟨b, more, rfl, hb⟩ := head_unsignedText h
    exact ⟨b, more, rfl, not_isBlank_of_isDigit hb, ne_of_isDigit hb rfl⟩
  | negative _ => exact ⟨0x2D, _, rfl, by decide⟩
  | string _ => exact ⟨0x22, _, rfl, by decide⟩
  | list _ _ => exact ⟨0x5B, _, rfl, by decide⟩
  | object _ _ => exact ⟨0x7B, _, rfl, by decide⟩

/-- A part of a list or an object, before anything that a numeral does not go on with: the value in it
ends before blanks, also if blanks before the part have been skipped. -/
def Part (bracket : Bracket) (part : Bytes) : Prop :=
  ∀ ⦃tail : Bytes⦄, Stops tail → ∃ after, Blanks after ∧ Enters bracket (part ++ tail) (after ++ tail) ∧
    ∃ b start, skipBlanks (part ++ tail) = b :: start ∧ b ≠ bracket.close ∧
      Enters bracket (b :: start) (after ++ tail)

theorem stops_parts (bracket : Bracket) (parts : List Bytes) (rest : Bytes) :
    Stops (parts.flatMap (0x2C :: ·) ++ bracket.close :: rest) := by
  cases parts with
  | nil => cases bracket <;> exact stops_cons.mpr (by decide)
  | cons part parts => exact stops_cons.mpr (by decide)

theorem stops_of_blanks {blanks : Bytes} (hblanks : Blanks blanks) (h : Stops rest) :
    Stops (blanks ++ rest) := by
  cases blanks with
  | nil => exact h
  | cons b blanks => exact stops_of_isBlank (hblanks b List.mem_cons_self) _

/-- Parts after commas are passed over one after another, up to the closing bracket. -/
theorem closes_after {parts : List Bytes} (h : ∀ part ∈ parts, Part bracket part) (rest : Bytes) :
    Closes .after bracket (parts.flatMap (0x2C :: ·) ++ bracket.close :: rest) rest := by
  induction parts with
  | nil =>
    refine closes_now (by decide) (skipBlanks_of_not_blank ?_ rest)
    cases bracket <;> rfl
  | cons part parts ih =>
    have ⟨hpart, hparts⟩ := List.forall_mem_cons.mp h
    obtain ⟨after, hafter, henters, -⟩ := hpart (stops_parts bracket parts rest)
    rw [List.flatMap_cons, List.append_assoc, List.cons_append]
    exact closes_next (skipBlanks_of_not_blank (by decide) _) henters
      (closes_of_blanks hafter (ih hparts))

/-- Parts with commas between them are passed over after the opening bracket. -/
theorem closes_opened {inner : Bytes} {parts : List Bytes} (hinner : Blanks inner)
    (h : ∀ part ∈ parts, Part bracket part) (rest : Bytes) :
    Closes .opened bracket (inner ++ (commaSeparated parts ++ bracket.close :: rest)) rest := by
  cases parts with
  | nil =>
    refine closes_now (by decide) ?_
    rw [skipBlanks_append hinner]
    exact skipBlanks_of_not_blank (by cases bracket <;> rfl) rest
  | cons part parts =>
    have ⟨hpart, hparts⟩ := List.forall_mem_cons.mp h
    obtain ⟨after, hafter, -, b, start, hstart, hb, henters⟩ := hpart (stops_parts bracket parts rest)
    refine closes_first ?_ hb henters (closes_of_blanks hafter (closes_after hparts rest))
    rw [skipBlanks_append hinner, commaSeparated, List.append_assoc]
    exact hstart

/-- The value of an item is found after the blanks before it. -/
theorem skipBlanks_item (item : Item) (h : ValueText item.value) (tail : Bytes) :
    skipBlanks (item.text ++ tail) = item.value ++ (item.after ++ tail) := by
  obtain ⟨b, more, hvalue, hb, -⟩ := head_valueText h
  rw [Item.text, List.append_assoc, List.append_assoc, skipBlanks_append item.before_blank, hvalue]
  exact skipBlanks_of_not_blank hb _

/-- An item is passed over if its value is. -/
theorem passes_item {item : Item} (h : ValueText item.value)
    (hvalue : ∀ rest, Stops rest → Passes (item.value ++ rest) rest) {tail : Bytes} (htail : Stops tail) :
    Passes (item.text ++ tail) (item.after ++ tail) :=
  passes_of_skipBlanks (skipBlanks_item item h tail)
    (hvalue _ (stops_of_blanks item.after_blank htail))

theorem part_item {item : Item} (h : ValueText item.value)
    (hvalue : ∀ rest, Stops rest → Passes (item.value ++ rest) rest) : Part .list item.text := by
  intro tail htail
  refine ⟨item.after, item.after_blank, ⟨_, rfl, Nat.le_refl _, passes_item h hvalue htail⟩, ?_⟩
  obtain ⟨b, more, htext, -, hb⟩ := head_valueText h
  have hstart := skipBlanks_item item h tail
  have hpasses := hvalue _ (stops_of_blanks item.after_blank htail)
  rw [htext, List.cons_append] at hstart hpasses
  exact ⟨b, _, hstart, hb, _, rfl, Nat.le_refl _, hpasses⟩

theorem skipName_skipBlanks (input : Bytes) : skipName (skipBlanks input) = skipName input := by
  rw [skipName, skipName, skipBlanks_skipBlanks]

/-- The name of a member and its colon are passed over. -/
theorem skipName_member (m : Member) (tail : Bytes) :
    skipName (0x22 :: (m.textAfterQuote ++ tail)) = .ok (m.toItem.text ++ tail) := by
  have hname : m.textAfterQuote ++ tail =
      m.name ++ 0x22 :: (m.afterName ++ 0x3A :: (m.toItem.text ++ tail)) := by
    simp [Member.textAfterQuote, Member.textAfterName]
  have hcolon : skipBlanks (m.afterName ++ 0x3A :: (m.toItem.text ++ tail)) =
      0x3A :: (m.toItem.text ++ tail) := by
    rw [skipBlanks_append m.afterName_blank]
    exact skipBlanks_of_not_blank (by decide) _
  rw [skipName, skipBlanks_of_not_blank (by decide), hname]
  simp only [if_true, skipString_text m.name_string, hcolon]

theorem part_member {m : Member} (h : ValueText m.value)
    (hvalue : ∀ rest, Stops rest → Passes (m.value ++ rest) rest) : Part .object m.text := by
  intro tail htail
  have hpasses : Passes (m.toItem.text ++ tail) (m.after ++ tail) := passes_item h hvalue htail
  have hquote : skipBlanks (m.text ++ tail) = 0x22 :: (m.textAfterQuote ++ tail) := by
    rw [Member.text, List.append_assoc, skipBlanks_append m.beforeName_blank]
    exact skipBlanks_of_not_blank (by decide) _
  have hlength : (m.toItem.text ++ tail).length ≤ (0x22 :: (m.textAfterQuote ++ tail)).length := by
    simp only [Member.textAfterQuote, Member.textAfterName, List.length_cons, List.length_append]
    omega
  have hname := skipName_member m tail
  refine ⟨m.after, m.after_blank, ⟨_, ?_, ?_, hpasses⟩, 0x22, _, hquote, by decide, _, hname, hlength,
    hpasses⟩
  · rw [← hquote, skipName_skipBlanks] at hname
    exact hname
  · rw [← hquote] at hlength
    exact hlength.trans (List.dropWhile_suffix _).length_le

/-- No digit starts anything but a number. -/
theorem skipStart_digit {b : UInt8} (hb : isDigit b = true) (h : skipBlanks input = b :: start) :
    skipStart input = (skipNumber (b :: start)).map fun rest => (none, rest) := by
  have hne {c : UInt8} (hc : isDigit c = false) : b ≠ c := ne_of_isDigit hb hc
  simp only [skipStart, h, if_neg (hne (c := 0x6E) rfl), if_neg (hne (c := 0x74) rfl),
    if_neg (hne (c := 0x66) rfl), if_neg (hne (c := 0x2D) rfl), if_pos hb]

theorem length_lt_of_cons (b : UInt8) (text rest : Bytes) : rest.length < (b :: text ++ rest).length := by
  simp only [List.length_append, List.length_cons]
  omega

/-- **Every value of the grammar is passed over up to its end.** -/
theorem passes_text {text : Bytes} (h : ValueText text) (rest : Bytes) (hrest : Stops rest) :
    Passes (text ++ rest) rest := by
  induction h generalizing rest with
  | null | true | false =>
    refine passes_scalar ?_ (length_lt_of_cons _ _ _)
    simp [skipStart, skipBlanks, isBlank, word, nullTail, trueTail, falseTail, Except.map]
  | number h =>
    have hskip := skipNumber_text h hrest
    obtain ⟨b, more, rfl, hb⟩ := head_unsignedText h
    refine passes_scalar ?_ (length_lt_of_cons _ _ _)
    rw [List.cons_append] at hskip ⊢
    rw [skipStart_digit hb (skipBlanks_of_not_blank (not_isBlank_of_isDigit hb) _), hskip]
    rfl
  | negative h =>
    have hskip := skipNumber_text h hrest
    refine passes_scalar ?_ (length_lt_of_cons _ _ _)
    simp [skipStart, skipBlanks, isBlank, hskip, Except.map]
  | string h =>
    have hskip := skipString_text h rest
    refine passes_scalar ?_ (length_lt_of_cons _ _ _)
    simp [skipStart, skipBlanks, isBlank, isDigit, hskip, Except.map]
  | @list inner items hinner h ih =>
    have hcloses : Closes .opened .list _ rest := closes_opened hinner
      (List.forall_mem_map.mpr fun item hitem => part_item (h item hitem) (ih item hitem)) rest
    simp only [List.cons_append, List.append_assoc, List.nil_append]
    refine passes_bracket ?_ (Nat.lt_succ_self _) hcloses
    simp [skipStart, skipBlanks, isBlank, isDigit]
  | @object inner ms hinner h ih =>
    have hcloses : Closes .opened .object _ rest := closes_opened hinner
      (List.forall_mem_map.mpr fun m hm => part_member (h m hm) (ih m hm)) rest
    simp only [List.cons_append, List.append_assoc, List.nil_append]
    refine passes_bracket ?_ (Nat.lt_succ_self _) hcloses
    simp [skipStart, skipBlanks, isBlank, isDigit]

end BuildBrowser.Json
