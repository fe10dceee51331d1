import BuildBrowser.Proofs.Json.Agree

/-!
# What is passed over is a value

The grammar lets no text out that is passed over: where skipping succeeds, blanks and a value of the
grammar stand before the rest (`exists_text_of_skip`). With `passes_text` the grammar and the machine say
the same, and since readers end where skipping ends, **what a reader reads is a text of the grammar**, of
which it takes a whole value.

The machine is followed by its steps. From the start of a value, from right after a bracket and from after
a value it gets to the place after the value, or after the bracket that closes, in fewer steps
(`FindsValue`, `FindsParts`, `FindsMore`); each of the three calls the others with fewer steps, so one
induction carries them. Brackets that are open around a value change nothing for it (`reaches_of_skipFrom`),
so what is skipped passes wherever it stands (`passes_of_skip`).
-/

namespace BuildBrowser.Json

variable {input rest start : Bytes}

theorem exists_skipBlanks (input : Bytes) : ∃ blanks, Blanks blanks ∧ input = blanks ++ skipBlanks input :=
  ⟨input.takeWhile isBlank, fun _ hb => List.mem_takeWhile_imp hb,
    (List.takeWhile_append_dropWhile ..).symm⟩

theorem exists_of_skipBlanks (h : skipBlanks input = start) :
    ∃ blanks, Blanks blanks ∧ input = blanks ++ start :=
  h ▸ exists_skipBlanks input

/-! ## Strings -/

theorem isHexDigit_of_some {b : UInt8} {n : Nat} (h : hexDigit? b = some n) : IsHexDigit b := by
  unfold hexDigit? at h
  simp only [Bool.and_eq_true, decide_eq_true_eq] at h
  split at h
  · next hdigit => exact .inl hdigit
  split at h
  · next hupper => exact .inr (.inl hupper)
  split at h
  · next hlower => exact .inr (.inr hlower)
  · cases h

theorem isHexDigit_of_hex4 {b c d e : UInt8} {n : Nat} (h : hex4? b c d e = some n) :
    IsHexDigit b ∧ IsHexDigit c ∧ IsHexDigit d ∧ IsHexDigit e := by
  simp only [hex4?, Option.bind_eq_bind, Option.bind_eq_some_iff, Option.pure_def] at h
  obtain ⟨_, hb, _, hc, _, hd, _, he, -⟩ := h
  exact ⟨isHexDigit_of_some hb, isHexDigit_of_some hc, isHexDigit_of_some hd, isHexDigit_of_some he⟩

theorem mem_escapeLetters {b : UInt8} {c : Char} (h : escapeLetter? b = some c) : b ∈ escapeLetters := by
  unfold escapeLetter? at h
  split at h
  iterate 8 exact by decide
  cases h

/-- The four digits of an escape. -/
theorem exists_digits_of_skipString (h : skipString (.digits []) input = .ok rest) :
    ∃ b c d e more, input = b :: c :: d :: e :: more ∧
      (IsHexDigit b ∧ IsHexDigit c ∧ IsHexDigit d ∧ IsHexDigit e) ∧ skipString .plain more = .ok rest := by
  match input, h with
  | [], h | [_], h | [_, _], h | [_, _, _], h => simp [skipString, Scan.move] at h
  | b :: c :: d :: e :: more, h =>
    simp only [skipString, Scan.move, List.nil_append, List.cons_append] at h
    cases hn : hex4? b c d e with
    | none => simp [hn] at h
    | some n =>
      refine ⟨b, c, d, e, more, rfl, isHexDigit_of_hex4 hn, ?_⟩
      simpa [hn, Scan.single] using h

/-- Up to its closing quote, what is passed over as a string is one. -/
theorem exists_text_of_skipString (h : skipString .plain input = .ok rest) :
    ∃ text, StringText text ∧ input = text ++ 0x22 :: rest := by
  induction hlength : input.length using Nat.strongRecOn generalizing input with
  | ind length ih =>
    subst hlength
    cases input with
    | nil => cases h
    | cons b input =>
      rw [skipString] at h
      simp only [Scan.move] at h
      by_cases hquote : b = 0x22
      · subst hquote
        obtain rfl : input = rest := by simpa using h
        exact ⟨[], .nil, rfl⟩
      rw [if_neg hquote] at h
      by_cases hescape : b = 0x5C
      · subst hescape
        simp only [if_true] at h
        cases input with
        | nil => cases h
        | cons c input =>
          simp only [skipString, Scan.move] at h
          by_cases hu : c = 0x75
          · subst hu
            simp only [if_true] at h
            obtain ⟨b, c, d, e, more, rfl, ⟨hb, hc, hd, he⟩, hmore⟩ := exists_digits_of_skipString h
            obtain ⟨text, htext, rfl⟩ := ih more.length (by simp only [List.length_cons]; omega) hmore rfl
            exact ⟨_, .number hb hc hd he htext, rfl⟩
          · rw [if_neg hu] at h
            cases hletter : escapeLetter? c with
            | none => simp [hletter] at h
            | some char =>
              simp only [hletter] at h
              obtain ⟨text, htext, rfl⟩ := ih input.length (by simp only [List.length_cons]; omega) h rfl
              exact ⟨_, .letter (mem_escapeLetters hletter) htext, rfl⟩
      rw [if_neg hescape] at h
      by_cases hcontrol : b < 0x20
      · simp [hcontrol] at h
      · simp only [if_neg hcontrol] at h
        obtain ⟨text, htext, rfl⟩ := ih input.length (by simp) h rfl
        exact ⟨_, .raw hquote hescape hcontrol htext, rfl⟩

/-! ## Numbers -/

theorem exists_digits {b : UInt8} (hb : isDigit b = true) (input : Bytes) :
    ∃ digits, DigitsText (b :: digits) ∧ input = digits ++ input.dropWhile isDigit :=
  ⟨input.takeWhile isDigit, .digits hb fun _ hd => List.mem_takeWhile_imp hd,
    (List.takeWhile_append_dropWhile ..).symm⟩

theorem exists_text_of_skipExponent (h : skipExponent? input = .ok rest) :
    ∃ exponent, ExponentText exponent ∧ input = exponent ++ rest := by
  cases input with
  | nil =>
    cases h
    exact ⟨[], .missing, rfl⟩
  | cons mark input =>
    rw [skipExponent?] at h
    split at h
    · next hmark =>
      unfold skipAfterMark at h
      obtain ⟨sign, hsign, hinput⟩ : ∃ sign, (sign = [] ∨ sign = [0x2B] ∨ sign = [0x2D]) ∧
          input = sign ++ (exponentSign input).2 := by
        unfold exponentSign
        grind
      generalize (exponentSign input).2 = digits at h hinput
      cases digits with
      | nil => cases h
      | cons b digits =>
        simp only at h
        split at h
        · next hb =>
          cases h
          obtain ⟨more, hdigits, hmore⟩ := exists_digits hb digits
          refine ⟨_, .digits hmark hsign hdigits, ?_⟩
          rw [hinput]
          simpa using hmore
        · cases h
    · cases h
      exact ⟨[], .missing, rfl⟩

theorem exists_text_of_skipFraction (h : skipFraction? input = .ok rest) :
    ∃ fraction exponent, FractionText fraction ∧ ExponentText exponent ∧
      input = fraction ++ (exponent ++ rest) := by
  have hwhole (h : skipExponent? input = .ok rest) : ∃ fraction exponent, FractionText fraction ∧
      ExponentText exponent ∧ input = fraction ++ (exponent ++ rest) := by
    obtain ⟨exponent, hexponent, rfl⟩ := exists_text_of_skipExponent h
    exact ⟨[], exponent, .missing, hexponent, rfl⟩
  cases input with
  | nil => exact hwhole h
  | cons b input =>
    rw [skipFraction?] at h
    split at h
    · next hpoint =>
      subst hpoint
      cases input with
      | nil => cases h
      | cons d input =>
        split at h
        · next hd =>
          have hd : isDigit d = true := hd
          rw [List.dropWhile_cons_of_pos hd] at h
          obtain ⟨digits, hdigits, hinput⟩ := exists_digits hd input
          obtain ⟨exponent, hexponent, hrest⟩ := exists_text_of_skipExponent h
          refine ⟨_, exponent, .digits hdigits, hexponent, ?_⟩
          rw [hinput, hrest]
          rfl
        · cases h
    · exact hwhole h

theorem exists_text_of_skipNumber (h : skipNumber input = .ok rest) :
    ∃ text, UnsignedText text ∧ input = text ++ rest := by
  cases input with
  | nil => cases h
  | cons b input =>
    rw [skipNumber] at h
    split at h
    · next hzero =>
      subst hzero
      split at h
      · cases h
      · obtain ⟨fraction, exponent, hfraction, hexponent, rfl⟩ := exists_text_of_skipFraction h
        exact ⟨_, .parts .zero hfraction hexponent, by simp⟩
    next hzero =>
      split at h
      · next hb =>
        obtain ⟨digits, hdigits, hinput⟩ := exists_digits hb input
        obtain ⟨fraction, exponent, hfraction, hexponent, hrest⟩ := exists_text_of_skipFraction h
        refine ⟨_, .parts (.digits hzero hdigits) hfraction hexponent, ?_⟩
        rw [hinput, hrest]
        simp
      · cases h

/-! ## The machine -/

/-- What is each the text of something is the texts of a list. -/
theorem exists_map_of_forall {γ δ : Type} {p : γ → Prop} {f : γ → δ} {texts : List δ}
    (h : ∀ text ∈ texts, ∃ c, p c ∧ f c = text) : ∃ cs : List γ, (∀ c ∈ cs, p c) ∧ cs.map f = texts := by
  induction texts with
  | nil => exact ⟨[], List.forall_mem_nil _, rfl⟩
  | cons text texts ih =>
    obtain ⟨⟨c, hc, rfl⟩, htexts⟩ := List.forall_mem_cons.mp h
    obtain ⟨cs, hcs, rfl⟩ := ih htexts
    exact ⟨c :: cs, List.forall_mem_cons.mpr ⟨hc, hcs⟩, rfl⟩

/-- The text of what stands between commas in a bracket. -/
def PartText : Bracket → Bytes → Prop
  | .list, part => ∃ item : Item, ValueText item.value ∧ item.text = part
  | .object, part => ∃ m : Member, ValueText m.value ∧ m.text = part

/-- From the start of a value the machine gets to the place after a value of the grammar. -/
def FindsValue (steps : Nat) : Prop :=
  ∀ ⦃brackets : List Bracket⦄ ⦃input fin : Bytes⦄, skipFrom steps .value brackets input = .ok fin →
    ∃ before text rest, Blanks before ∧ ValueText text ∧ input = before ++ (text ++ rest) ∧
      ∃ fewer < steps, skipFrom fewer .after brackets rest = .ok fin

/-- From right after a bracket the machine gets to the place after its end, and parts of the grammar stand
between. -/
def FindsParts (steps : Nat) : Prop :=
  ∀ ⦃bracket : Bracket⦄ ⦃brackets : List Bracket⦄ ⦃input fin : Bytes⦄,
    skipFrom steps .opened (bracket :: brackets) input = .ok fin →
    ∃ inner parts rest, Blanks inner ∧ (∀ part ∈ parts, PartText bracket part) ∧
      input = inner ++ (commaSeparated parts ++ bracket.close :: rest) ∧
      ∃ fewer < steps, skipFrom fewer .after brackets rest = .ok fin

/-- From after a value within a bracket the machine gets to the place after the end of the bracket, and
parts of the grammar stand between, each after a comma. -/
def FindsMore (steps : Nat) : Prop :=
  ∀ ⦃bracket : Bracket⦄ ⦃brackets : List Bracket⦄ ⦃input fin : Bytes⦄,
    skipFrom steps .after (bracket :: brackets) input = .ok fin →
    ∃ (blanks : Bytes) (parts : List Bytes) (rest : Bytes),
      Blanks blanks ∧ (∀ part ∈ parts, PartText bracket part) ∧
      input = blanks ++ (parts.flatMap (0x2C :: ·) ++ bracket.close :: rest) ∧
      ∃ fewer < steps, skipFrom fewer .after brackets rest = .ok fin

/-- What is passed over at the start of a value is a scalar, or a bracket. -/
theorem exists_text_of_skipStart {bracket? : Option Bracket} (h : skipStart input = .ok (bracket?, rest)) :
    (bracket? = none ∧ ∃ before text, Blanks before ∧ ValueText text ∧ input = before ++ (text ++ rest)) ∨
      (bracket? = some .list ∧ skipBlanks input = 0x5B :: rest) ∨
      (bracket? = some .object ∧ skipBlanks input = 0x7B :: rest) := by
  obtain ⟨before, hbefore, hinput⟩ := exists_skipBlanks input
  -- a scalar whose text goes on after its first byte
  have scalar {b : UInt8} {start : Bytes} {outcome : Except Fault Bytes}
      (hstart : skipBlanks input = b :: start)
      (h : outcome.map (fun rest => (none, rest)) = .ok (bracket?, rest))
      (htext : outcome = .ok rest → ∃ text, ValueText text ∧ b :: start = text ++ rest) :
      bracket? = none ∧
        ∃ before text, Blanks before ∧ ValueText text ∧ input = before ++ (text ++ rest) := by
    obtain ⟨after, houtcome, heq⟩ := map_ok.mp h
    cases heq
    obtain ⟨text, hvalue, hrest⟩ := htext houtcome
    refine ⟨rfl, before, text, hbefore, hvalue, ?_⟩
    rw [← hrest, ← hstart, ← hinput]
  unfold skipStart at h
  split at h
  · cases h
  next b start hstart =>
    simp only at h
    split at h
    · next hb =>
      subst hb
      exact .inl (scalar hstart h fun hword => ⟨_, .null, by rw [word_ok.mp hword]; rfl⟩)
    split at h
    · next hb =>
      subst hb
      exact .inl (scalar hstart h fun hword => ⟨_, .true, by rw [word_ok.mp hword]; rfl⟩)
    split at h
    · next hb =>
      subst hb
      exact .inl (scalar hstart h fun hword => ⟨_, .false, by rw [word_ok.mp hword]; rfl⟩)
    split at h
    · next hb =>
      subst hb
      refine .inl (scalar hstart h fun hnumber => ?_)
      obtain ⟨text, htext, rfl⟩ := exists_text_of_skipNumber hnumber
      exact ⟨_, .negative htext, rfl⟩
    split at h
    · refine .inl (scalar hstart h fun hnumber => ?_)
      obtain ⟨text, htext, hrest⟩ := exists_text_of_skipNumber hnumber
      exact ⟨text, .number htext, hrest⟩
    split at h
    · next hb =>
      subst hb
      refine .inl (scalar hstart h fun hstring => ?_)
      obtain ⟨text, htext, rfl⟩ := exists_text_of_skipString hstring
      exact ⟨_, .string htext, by simp⟩
    split at h
    · next hb =>
      subst hb
      cases h
      exact .inr (.inl ⟨rfl, hstart⟩)
    split at h
    · next hb =>
      subst hb
      cases h
      exact .inr (.inr ⟨rfl, hstart⟩)
    · cases h

/-- A name and its colon. -/
theorem exists_name_of_skipName (h : skipName input = .ok rest) :
    ∃ beforeName name afterName, Blanks beforeName ∧ StringText name ∧ Blanks afterName ∧
      input = beforeName ++ 0x22 :: (name ++ 0x22 :: (afterName ++ 0x3A :: rest)) := by
  unfold skipName at h
  split at h
  · cases h
  next b start hstart =>
    split at h
    · next hb =>
      subst hb
      obtain ⟨beforeName, hbefore, rfl⟩ := exists_of_skipBlanks hstart
      split at h
      · cases h
      next after hstring =>
        obtain ⟨name, hname, rfl⟩ := exists_text_of_skipString hstring
        split at h
        · cases h
        next c colon hcolon =>
          split at h
          · next hc =>
            subst hc
            cases h
            obtain ⟨afterName, hafter, rfl⟩ := exists_of_skipBlanks hcolon
            exact ⟨beforeName, name, afterName, hbefore, hname, hafter, rfl⟩
          · cases h
    · cases h

/-- Where a part starts, the machine gets to the place after its value; with the blanks there it is a part
of the grammar. -/
theorem exists_part {bracket : Bracket} {brackets : List Bracket} {steps : Nat} {inside fin : Bytes}
    (hfinds : FindsValue steps) (henter : bracket.enter input = .ok inside)
    (h : skipFrom steps .value brackets inside = .ok fin) :
    ∃ front rest, (∀ blanks, Blanks blanks → PartText bracket (front ++ blanks)) ∧ input = front ++ rest ∧
      ∃ fewer < steps, skipFrom fewer .after brackets rest = .ok fin := by
  obtain ⟨before, text, rest, hbefore, htext, rfl, hrest⟩ := hfinds h
  cases bracket with
  | list =>
    cases henter
    refine ⟨before ++ text, rest, fun blanks hblanks => ?_, by simp, hrest⟩
    exact ⟨⟨before, text, blanks, hbefore, hblanks⟩, htext, by simp [Item.text]⟩
  | object =>
    obtain ⟨beforeName, name, afterName, hbeforeName, hname, hafterName, rfl⟩ :=
      exists_name_of_skipName henter
    refine ⟨beforeName ++ 0x22 :: (name ++ 0x22 :: (afterName ++ 0x3A :: (before ++ text))), rest,
      fun blanks hblanks => ?_, by simp, hrest⟩
    exact ⟨⟨⟨before, text, blanks, hbefore, hblanks⟩, beforeName, name, afterName, hbeforeName, hname,
      hafterName⟩, htext, by simp [Member.text, Member.textAfterQuote, Member.textAfterName, Item.text]⟩

theorem findsValue_of_lt {steps : Nat} (ih : ∀ fewer < steps, FindsParts fewer) : FindsValue steps := by
  intro brackets input fin h
  cases steps with
  | zero => cases h
  | succ steps =>
    rw [skipFrom] at h
    split at h
    · cases h
    · next bracket start hstart =>
      obtain ⟨inner, parts, rest, hinner, hparts, rfl, fewer, hfewer, hrest⟩ :=
        ih steps (Nat.lt_succ_self _) h
      obtain ⟨hnone, -⟩ | ⟨hlist, hopen⟩ | ⟨hobject, hopen⟩ := exists_text_of_skipStart hstart
      · cases hnone
      · cases hlist
        obtain ⟨before, hbefore, rfl⟩ := exists_of_skipBlanks hopen
        obtain ⟨items, hitems, rfl⟩ := exists_map_of_forall hparts
        exact ⟨before, _, rest, hbefore, .list hinner hitems, by simp [Bracket.close], fewer,
          by omega, hrest⟩
      · cases hobject
        obtain ⟨before, hbefore, rfl⟩ := exists_of_skipBlanks hopen
        obtain ⟨ms, hms, rfl⟩ := exists_map_of_forall hparts
        exact ⟨before, _, rest, hbefore, .object hinner hms, by simp [Bracket.close], fewer,
          by omega, hrest⟩
    · next start hstart =>
      obtain ⟨-, before, text, hbefore, htext, rfl⟩ | ⟨hsome, -⟩ | ⟨hsome, -⟩ :=
        exists_text_of_skipStart hstart
      · exact ⟨before, text, start, hbefore, htext, rfl, steps, Nat.lt_succ_self _, h⟩
      · cases hsome
      · cases hsome

theorem findsMore_of_lt {steps : Nat} (hvalue : ∀ fewer < steps, FindsValue fewer)
    (hmore : ∀ fewer < steps, FindsMore fewer) : FindsMore steps := by
  intro bracket brackets input fin h
  cases steps with
  | zero => cases h
  | succ steps =>
    rw [skipFrom] at h
    split at h
    · cases h
    next b start hstart =>
      obtain ⟨blanks, hblanks, rfl⟩ := exists_of_skipBlanks hstart
      split at h
      · next hclose =>
        subst hclose
        exact ⟨blanks, [], start, hblanks, List.forall_mem_nil _, rfl, steps, Nat.lt_succ_self _, h⟩
      split at h
      · next hcomma =>
        subst hcomma
        split at h
        · cases h
        next inside henter =>
          obtain ⟨front, rest, hpart, rfl, fewer, hfewer, hrest⟩ :=
            exists_part (hvalue steps (Nat.lt_succ_self _)) henter h
          obtain ⟨after, parts, rest, hafter, hparts, rfl, least, hleast, hrest⟩ :=
            hmore fewer (by omega) hrest
          exact ⟨blanks, (front ++ after) :: parts, rest, hblanks,
            List.forall_mem_cons.mpr ⟨hpart after hafter, hparts⟩, by simp, least, by omega, hrest⟩
      · cases h

theorem findsParts_of_lt {steps : Nat} (hvalue : ∀ fewer < steps, FindsValue fewer)
    (hmore : ∀ fewer < steps, FindsMore fewer) : FindsParts steps := by
  intro bracket brackets input fin h
  cases steps with
  | zero => cases h
  | succ steps =>
    rw [skipFrom] at h
    split at h
    · cases h
    next b start hstart =>
      obtain ⟨inner, hinner, rfl⟩ := exists_of_skipBlanks hstart
      split at h
      · next hclose =>
        subst hclose
        exact ⟨inner, [], start, hinner, List.forall_mem_nil _, rfl, steps, Nat.lt_succ_self _, h⟩
      split at h
      · cases h
      next inside henter =>
        obtain ⟨front, rest, hpart, hfront, fewer, hfewer, hrest⟩ :=
          exists_part (hvalue steps (Nat.lt_succ_self _)) henter h
        obtain ⟨after, parts, rest, hafter, hparts, rfl, least, hleast, hrest⟩ :=
          hmore fewer (by omega) hrest
        refine ⟨inner, (front ++ after) :: parts, rest, hinner,
          List.forall_mem_cons.mpr ⟨hpart after hafter, hparts⟩, ?_, least, by omega, hrest⟩
        rw [hfront]
        simp [commaSeparated]

theorem finds (steps : Nat) : FindsValue steps ∧ FindsParts steps ∧ FindsMore steps := by
  induction steps using Nat.strongRecOn with
  | ind steps ih =>
    have hvalue fewer (h : fewer < steps) := (ih fewer h).1
    have hmore fewer (h : fewer < steps) := (ih fewer h).2.2
    exact ⟨findsValue_of_lt fun fewer h => (ih fewer h).2.1, findsParts_of_lt hvalue hmore,
      findsMore_of_lt hvalue hmore⟩

/-! ## Values, lists and objects -/

/-- No bracket is open, so the machine is done. -/
theorem eq_of_skipFrom_done {steps : Nat} {fin : Bytes} (h : skipFrom steps .after [] input = .ok fin) :
    input = fin := by
  cases steps with
  | zero => cases h
  | succ steps =>
    rw [skipFrom] at h
    exact Except.ok.inj h

/-- **What is skipped is a value of the grammar**, after blanks. -/
theorem exists_text_of_skip (h : skip input = .ok rest) :
    ∃ before text, Blanks before ∧ ValueText text ∧ input = before ++ (text ++ rest) := by
  obtain ⟨before, text, after, hbefore, htext, rfl, fewer, -, hafter⟩ := (finds _).1 h
  obtain rfl := eq_of_skipFrom_done hafter
  exact ⟨before, text, hbefore, htext, rfl⟩

/-- Between an open bracket and its end stand parts of the grammar, with commas between them. -/
theorem exists_parts_of_closes {bracket : Bracket} (h : Closes .opened bracket input rest) :
    ∃ inner parts, Blanks inner ∧ (∀ part ∈ parts, PartText bracket part) ∧
      input = inner ++ (commaSeparated parts ++ bracket.close :: rest) := by
  obtain ⟨more, hmore, hskip⟩ := h [] _ (Nat.lt_succ_self _)
  obtain ⟨more, rfl⟩ := Nat.exists_eq_add_one_of_ne_zero (Nat.ne_zero_of_lt hmore)
  rw [skipFrom.eq_def (more + 1)] at hskip
  obtain ⟨inner, parts, after, hinner, hparts, rfl, fewer, -, hafter⟩ := (finds _).2.1 hskip
  obtain rfl := eq_of_skipFrom_done hafter
  exact ⟨inner, parts, hinner, hparts, rfl⟩

theorem exists_items_of_closes (h : Closes .opened .list input rest) :
    ∃ (inner : Bytes) (items : List Item), Blanks inner ∧ (∀ item ∈ items, ValueText item.value) ∧
      input = inner ++ (commaSeparated (items.map Item.text) ++ 0x5D :: rest) := by
  obtain ⟨inner, parts, hinner, hparts, hinput⟩ := exists_parts_of_closes h
  obtain ⟨items, hitems, rfl⟩ := exists_map_of_forall hparts
  exact ⟨inner, items, hinner, hitems, hinput⟩

theorem exists_members_of_closes (h : Closes .opened .object input rest) :
    ∃ (inner : Bytes) (ms : List Member), Blanks inner ∧ (∀ m ∈ ms, ValueText m.value) ∧
      input = inner ++ (commaSeparated (ms.map Member.text) ++ 0x7D :: rest) := by
  obtain ⟨inner, parts, hinner, hparts, hinput⟩ := exists_parts_of_closes h
  obtain ⟨ms, hms, rfl⟩ := exists_map_of_forall hparts
  exact ⟨inner, ms, hinner, hms, hinput⟩

/-! ## What is skipped passes -/

theorem ValueText.length_pos {text : Bytes} (h : ValueText text) : 0 < text.length := by
  obtain ⟨b, more, rfl, -⟩ := head_valueText h
  exact Nat.succ_pos _

theorem length_lt_of_skipStart {bracket? : Option Bracket} (h : skipStart input = .ok (bracket?, rest)) :
    rest.length < input.length := by
  obtain ⟨-, before, text, -, htext, rfl⟩ | ⟨-, hopen⟩ | ⟨-, hopen⟩ := exists_text_of_skipStart h
  · have hlength := htext.length_pos
    simp only [List.length_append]
    omega
  · exact length_lt_of_start hopen
  · exact length_lt_of_start hopen

theorem length_le_of_enter {bracket : Bracket} {inside : Bytes} (h : bracket.enter input = .ok inside) :
    inside.length ≤ input.length := by
  cases bracket with
  | list =>
    cases h
    exact Nat.le_refl _
  | object =>
    obtain ⟨beforeName, name, afterName, -, -, -, rfl⟩ := exists_name_of_skipName h
    simp only [List.length_append, List.length_cons]
    omega

/-- A machine that is done goes the same way where more brackets are open around it. -/
theorem reaches_of_skipFrom {steps : Nat} {place : Place} {brackets : List Bracket} {fin : Bytes}
    (h : skipFrom steps place brackets input = .ok fin) (hopened : place ≠ .opened ∨ brackets ≠ [])
    (around : List Bracket) : Reaches place (brackets ++ around) input around fin := by
  induction steps generalizing place brackets input with
  | zero => cases h
  | succ steps ih =>
    cases place with
    | value =>
      rw [skipFrom] at h
      split at h
      · cases h
      · next bracket start hstart =>
        have hlength := length_lt_of_skipStart hstart
        refine (ih h (.inr (List.cons_ne_nil _ _))).of_step (fun steps => ?_) ?_
        · rw [skipFrom, hstart]
          rfl
        · simp only [Place.cost]
          omega
      · next start hstart =>
        have hlength := length_lt_of_skipStart hstart
        refine (ih h (.inl (by decide))).of_step (fun steps => ?_) ?_
        · rw [skipFrom, hstart]
        · simp only [Place.cost]
          omega
    | opened =>
      obtain ⟨bracket, brackets, rfl⟩ := List.exists_cons_of_ne_nil (hopened.resolve_left (absurd rfl))
      rw [skipFrom] at h
      split at h
      · cases h
      next b start hstart =>
        have hlength := length_lt_of_start hstart
        split at h
        · next hclose =>
          refine (ih h (.inl (by decide))).of_step (fun steps => ?_) ?_
          · simp only [List.cons_append, skipFrom, hstart, if_pos hclose]
          · simp only [Place.cost]
            omega
        next hclose =>
          split at h
          · cases h
          next inside henter =>
            have hinside := length_le_of_enter henter
            refine (ih h (.inl (by decide))).of_step (fun steps => ?_) ?_
            · simp only [List.cons_append, skipFrom, hstart, if_neg hclose, henter]
            · simp only [Place.cost, List.length_cons] at hinside ⊢
              omega
    | after =>
      cases brackets with
      | nil =>
        rw [skipFrom] at h
        cases h
        exact Reaches.refl around _
      | cons bracket brackets =>
        rw [skipFrom] at h
        split at h
        · cases h
        next b start hstart =>
          have hlength := length_lt_of_start hstart
          split at h
          · next hclose =>
            refine (ih h (.inl (by decide))).of_step (fun steps => ?_) ?_
            · simp only [List.cons_append, skipFrom, hstart, if_pos hclose]
            · simp only [Place.cost]
              omega
          next hclose =>
            split at h
            · next hcomma =>
              split at h
              · cases h
              next inside henter =>
                have hinside := length_le_of_enter henter
                subst hcomma
                refine (ih h (.inl (by decide))).of_step (fun steps => ?_) ?_
                · simp only [List.cons_append, skipFrom, hstart, if_neg hclose, if_true, henter]
                · simp only [Place.cost]
                  omega
            · cases h

/-- **What is skipped ends where it passes**, whatever brackets are open around it. -/
theorem passes_of_skip (h : skip input = .ok rest) : Passes input rest :=
  reaches_of_skipFrom h (.inl (by decide))

end BuildBrowser.Json
