import BuildBrowser.Json.Document
import BuildBrowser.Proofs.Json.Lexical
import BuildBrowser.Proofs.Json.Numeral
import BuildBrowser.Proofs.Json.Plain

/-!
# Written values are read back

A reader **reads back** a value if it gives a stated result for the text of the value, written in any
style and at any depth, and stops right after it (`ReadsBack`). The relation is stated in front of any
bytes that do not go on with a numeral, and for any blanks before the value, so that it can be used
where the value stands within another one: after a bracket, a comma or a colon.

- `items_written`: a reader of lists reads back a list if the reader of its items reads back each;
- `members_written`: the members of a written object are folded one after another, as `Folds` says;
- `readsBack_value`: so any value is read back that is plain and no deeper than allowed. It is an
  induction on the allowance: what stands in a list or an object is read at one bracket less.
-/

namespace BuildBrowser.Json

open Utf8

/-- A style puts nothing but blanks. -/
structure Style.Blank (style : Style) : Prop where
  lineStart : ∀ depth, ∀ b ∈ encode (style.lineStart depth), isBlank b = true
  afterColon : ∀ b ∈ encode style.afterColon, isBlank b = true

theorem Style.compact_blank : Style.compact.Blank :=
  ⟨fun _ _ h => (nomatch h), fun _ h => (nomatch h)⟩

theorem Style.pretty_blank : Style.pretty.Blank where
  lineStart depth b hb := by
    have hspaces : ∀ n, ∀ b ∈ encode (List.replicate n ' '), isBlank b = true := by
      intro n
      induction n with
      | zero => exact fun _ h => nomatch h
      | succ n ih =>
        rw [List.replicate_succ, encode_ascii (by decide)]
        exact List.forall_mem_cons.mpr ⟨by decide, ih⟩
    rw [Style.pretty, encode_ascii (by decide)] at hb
    rcases List.mem_cons.mp hb with rfl | hb
    · decide
    · exact hspaces _ b hb
  afterColon b hb := by
    obtain rfl : b = 0x20 := List.mem_singleton.mp hb
    rfl

variable {α σ : Type}

/-- The reader gives `a` for the text of the value, and stops right after it. -/
def ReadsBack (reader : Bytes → Outcome α) (v : Value) (a : α) : Prop :=
  ∀ ⦃style : Style⦄, style.Blank → ∀ (depth : Nat) ⦃input rest : Bytes⦄, Stops rest →
    skipBlanks input = encode (write style depth v) ++ rest → reader input = .ok (a, rest)

/-- A result that is changed by a function of the reader's is read back changed. -/
theorem ReadsBack.map {β : Type} {reader : Bytes → Outcome α} {v : Value} {a : α}
    (h : ReadsBack reader v a) (f : α → β) :
    ReadsBack (fun input => (reader input).map fun (a, rest) => (f a, rest)) v (f a) := by
  intro style hstyle depth input rest hrest hinput
  simp only [h hstyle depth hrest hinput]
  rfl

/-! ## Scalars -/

section

variable {list object : Bytes → Outcome Value}

theorem readsBack_null : ReadsBack (valueWith list object) .null .null := by
  intro style _ depth input rest _ hinput
  have hinput : skipBlanks input = 0x6E :: 0x75 :: 0x6C :: 0x6C :: rest := by
    rw [hinput, write]
    rfl
  simp [valueWith, hinput, word, nullTail, Except.map]

theorem readsBack_bool (b : Bool) : ReadsBack (valueWith list object) (.bool b) (.bool b) := by
  intro style _ depth input rest _ hinput
  cases b with
  | true =>
    have hinput : skipBlanks input = 0x74 :: 0x72 :: 0x75 :: 0x65 :: rest := by
      rw [hinput, write]
      rfl
    simp [valueWith, hinput, word, trueTail, Except.map]
  | false =>
    have hinput : skipBlanks input = 0x66 :: 0x61 :: 0x6C :: 0x73 :: 0x65 :: rest := by
      rw [hinput, write]
      rfl
    simp [valueWith, hinput, word, falseTail, Except.map]

/-- The numeral of a natural number starts with a digit. -/
theorem encode_numeral (n : Nat) :
    ∃ b bytes, encode (Nat.toDigits 10 n) = b :: bytes ∧ isDigit b = true := by
  obtain ⟨c, digits, hnumeral⟩ := List.exists_cons_of_ne_nil (Nat.toDigits_ne_nil (n := n) (b := 10))
  have hc : c.isDigit = true :=
    isDigit_of_mem_numeral (n := n) (by rw [hnumeral]; exact List.mem_cons_self)
  exact ⟨_, _, by rw [hnumeral, encode_digit hc], (byte_of_isDigit hc).1⟩

/-- No digit starts anything but a number. -/
theorem ne_of_isDigit {b : UInt8} (h : isDigit b = true) {c : UInt8} (hc : isDigit c = false) : b ≠ c := by
  rintro rfl
  rw [h] at hc
  cases hc

theorem valueWith_digit {b : UInt8} {input rest : Bytes} (hb : isDigit b = true)
    (hinput : skipBlanks input = b :: rest) :
    valueWith list object input = (number false (b :: rest)).map fun (n, rest) => (.number n, rest) := by
  have hne {c : UInt8} (hc : isDigit c = false) : b ≠ c := ne_of_isDigit hb hc
  simp only [valueWith, hinput, if_neg (hne (c := 0x6E) rfl), if_neg (hne (c := 0x74) rfl),
    if_neg (hne (c := 0x66) rfl), if_neg (hne (c := 0x2D) rfl), if_pos hb]

theorem valueWith_minus {input rest : Bytes} (hinput : skipBlanks input = 0x2D :: rest) :
    valueWith list object input = (number true rest).map fun (n, rest) => (.number n, rest) := by
  simp [valueWith, hinput]

theorem readsBack_number {n : Number} (hn : n.toInt?.isSome) :
    ReadsBack (valueWith list object) (.number n) (.number n) := by
  intro style _ depth input rest hrest hinput
  rw [write] at hinput
  cases n with
  | nat n =>
    have hread := number_text n hrest
    obtain ⟨b, bytes, hbytes, hb⟩ := encode_numeral n.toNat
    rw [Number.text, hbytes, List.cons_append] at hinput
    rw [hbytes, List.cons_append] at hread
    rw [valueWith_digit hb hinput, hread]
    rfl
  | negSucc n =>
    have hread := number_text_negSucc n hrest
    rw [Number.text, encode_ascii (by decide), List.cons_append] at hinput
    rw [valueWith_minus hinput, hread]
    rfl
  | binary64 bits => cases hn

theorem readsBack_string (s : String) :
    ReadsBack (valueWith list object) (.string s) (.string s) := by
  intro style _ depth input rest _ hinput
  rw [write, encode_writeString] at hinput
  simp [valueWith, hinput, string_written, Except.map, isDigit]

end

/-! ## Written lists and objects -/

/-- What stands after the opening bracket of a written list. -/
def writeListTail (style : Style) (depth : Nat) : List Value → List Char
  | [] => [']']
  | v :: vs =>
    style.lineStart (depth + 1) ++ write style (depth + 1) v ++ writeItems style depth vs

/-- What stands after the name of a written member, up to its end. -/
def writeMemberTail (style : Style) (depth : Nat) (v : Value) : List Char :=
  ':' :: style.afterColon ++ write style (depth + 1) v

/-- What stands after the opening bracket of a written object. -/
def writeObjectTail (style : Style) (depth : Nat) : List (String × Value) → List Char
  | [] => ['\x7d']
  | (name, v) :: ms =>
    style.lineStart (depth + 1) ++ writeString name ++ writeMemberTail style depth v ++
      writeMembers style depth ms

theorem write_array (style : Style) (depth : Nat) (vs : List Value) :
    write style depth (.array vs) = '[' :: writeListTail style depth vs := by
  cases vs <;> simp [write, writeListTail]

theorem write_object (style : Style) (depth : Nat) (ms : List (String × Value)) :
    write style depth (.object ms) = '\x7b' :: writeObjectTail style depth ms := by
  cases ms <;> simp [write, writeObjectTail, writeMemberTail]

theorem writeMembers_cons (style : Style) (depth : Nat) (name : String) (v : Value)
    (ms : List (String × Value)) :
    writeMembers style depth ((name, v) :: ms) =
      ',' :: style.lineStart (depth + 1) ++ writeString name ++ writeMemberTail style depth v ++
        writeMembers style depth ms := by
  simp [writeMembers, writeMemberTail]

/-- A written value starts with a byte that is no blank and closes no list, and that is the first
letter of `null` only if the value is `null`. -/
theorem encode_write (style : Style) (depth : Nat) {v : Value} (hv : v.Integral) :
    ∃ b bytes, encode (write style depth v) = b :: bytes ∧ isBlank b = false ∧ b ≠ 0x5D ∧
      (b = 0x6E → v = .null) := by
  match v with
  | .null => exact ⟨0x6E, _, by rw [write]; rfl, by decide⟩
  | .bool true => exact ⟨0x74, _, by rw [write]; rfl, by decide⟩
  | .bool false => exact ⟨0x66, _, by rw [write]; rfl, by decide⟩
  | .number (.nat n) =>
    obtain ⟨b, bytes, hbytes, hb⟩ := encode_numeral n.toNat
    have hne {c : UInt8} (hc : isDigit c = false) : b ≠ c := ne_of_isDigit hb hc
    refine ⟨b, bytes, by rw [write, Number.text, hbytes], ?_, hne rfl, fun h => absurd h (hne rfl)⟩
    simp [isBlank, hne (c := 0x20) rfl, hne (c := 0x09) rfl, hne (c := 0x0A) rfl, hne (c := 0x0D) rfl]
  | .number (.negSucc n) =>
    exact ⟨0x2D, _, by rw [write, Number.text, encode_ascii (by decide)]; rfl, by decide, by decide,
      fun h => absurd h (by decide)⟩
  | .number (.binary64 _) => cases hv
  | .string s =>
    exact ⟨0x22, _, by rw [write, ← List.append_nil (encode _), encode_writeString], by decide,
      by decide, fun h => absurd h (by decide)⟩
  | .array vs =>
    exact ⟨0x5B, _, by rw [write_array, encode_ascii (by decide)]; rfl, by decide, by decide,
      fun h => absurd h (by decide)⟩
  | .object ms =>
    exact ⟨0x7B, _, by rw [write_object, encode_ascii (by decide)]; rfl, by decide, by decide,
      fun h => absurd h (by decide)⟩

/-- What a style puts at the start of a line changes nothing for a reader that skips blanks. -/
theorem skipBlanks_lineStart {style : Style} (hstyle : style.Blank) (depth : Nat) (rest : Bytes) :
    skipBlanks (encode (style.lineStart depth) ++ rest) = skipBlanks rest :=
  skipBlanks_append (hstyle.lineStart depth) rest

/-- A written value is not skipped. -/
theorem skipBlanks_write (style : Style) (depth : Nat) {v : Value} (hv : v.Integral) (rest : Bytes) :
    skipBlanks (encode (write style depth v) ++ rest) = encode (write style depth v) ++ rest := by
  obtain ⟨b, bytes, hbytes, hblank, -⟩ := encode_write style depth hv
  rw [hbytes, List.cons_append, skipBlanks_of_not_blank hblank]

theorem stops_of_isBlank {b : UInt8} (h : isBlank b = true) (rest : Bytes) : Stops (b :: rest) := by
  simp only [isBlank, Bool.or_eq_true, beq_iff_eq] at h
  rw [stops_cons]
  rcases h with ((rfl | rfl) | rfl) | rfl <;> decide

/-- Blanks and then a byte that does not go on with a numeral. -/
theorem stops_lineStart {style : Style} (hstyle : style.Blank) (depth : Nat) {rest : Bytes}
    (hrest : Stops rest) : Stops (encode (style.lineStart depth) ++ rest) := by
  cases hline : encode (style.lineStart depth) with
  | nil => exact hrest
  | cons b bytes =>
    exact stops_of_isBlank (hstyle.lineStart depth b (by rw [hline]; exact List.mem_cons_self)) _

theorem stops_writeItems {style : Style} (hstyle : style.Blank) (depth : Nat) (vs : List Value)
    (rest : Bytes) : Stops (encode (writeItems style depth vs) ++ rest) := by
  cases vs with
  | nil =>
    rw [writeItems, encode_append, List.append_assoc]
    exact stops_lineStart hstyle depth (stops_cons.mpr (by decide))
  | cons v vs =>
    rw [writeItems, List.append_assoc, List.cons_append, encode_ascii (by decide)]
    exact stops_cons.mpr (by decide)

theorem stops_writeMembers {style : Style} (hstyle : style.Blank) (depth : Nat)
    (ms : List (String × Value)) (rest : Bytes) :
    Stops (encode (writeMembers style depth ms) ++ rest) := by
  cases ms with
  | nil =>
    rw [writeMembers, encode_append, List.append_assoc]
    exact stops_lineStart hstyle depth (stops_cons.mpr (by decide))
  | cons m ms =>
    rw [writeMembers_cons, List.cons_append, List.cons_append, List.cons_append,
      encode_ascii (by decide)]
    exact stops_cons.mpr (by decide)

/-! ## Reading a written list -/

theorem nextItem_close (first : Bool) {input rest : Bytes} (h : skipBlanks input = 0x5D :: rest) :
    nextItem first input = .ok (.close rest) := by
  simp [nextItem, h]

theorem nextItem_first {b : UInt8} {input rest : Bytes} (h : skipBlanks input = b :: rest)
    (hb : b ≠ 0x5D) : nextItem true input = .ok (.item (b :: rest)) := by
  simp [nextItem, h, hb]

theorem nextItem_comma {b : UInt8} {input rest : Bytes} (h : skipBlanks input = b :: rest)
    (hb : b ≠ 0x5D) : nextItem false (0x2C :: input) = .ok (.item (b :: rest)) := by
  have hcomma : skipBlanks (0x2C :: input) = 0x2C :: input := skipBlanks_of_not_blank (by decide) _
  simp [nextItem, hcomma, h, hb]

/-- Every item takes a byte, and so does the bracket after them. -/
theorem length_lt_writeItems (style : Style) (depth : Nat) (vs : List Value) :
    vs.length < (encode (writeItems style depth vs)).length := by
  induction vs with
  | nil =>
    rw [writeItems, encode_append, List.length_append, encode_ascii (by decide)]
    exact Nat.lt_of_lt_of_le Nat.zero_lt_one (Nat.le_add_left _ _)
  | cons v vs ih =>
    rw [writeItems, List.cons_append, List.cons_append, encode_ascii (by decide), encode_append,
      List.length_cons, List.length_cons, List.length_append]
    omega

variable {item : Bytes → Outcome α} {vs : List Value} {as : List α}

/-- A written value that is read back is found after the start of its line. -/
theorem found_written {style : Style} (hstyle : style.Blank) (depth : Nat) {v : Value} {a : α}
    (h : ReadsBack item v a) (hv : v.Integral) {rest : Bytes} (hrest : Stops rest) :
    ∃ b bytes, skipBlanks (encode (style.lineStart depth) ++ (encode (write style depth v) ++ rest)) =
      b :: bytes ∧ b ≠ 0x5D ∧ item (b :: bytes) = .ok (a, rest) := by
  obtain ⟨b, bytes, hbytes, -, hb, -⟩ := encode_write style depth hv
  have hread := h hstyle depth hrest (skipBlanks_write style depth hv rest)
  rw [hbytes, List.cons_append] at hread
  refine ⟨b, bytes ++ rest, ?_, hb, hread⟩
  rw [skipBlanks_lineStart hstyle, skipBlanks_write style depth hv, hbytes, List.cons_append]

theorem itemsFrom_written {style : Style} (hstyle : style.Blank) (depth : Nat)
    (h : List.Forall₂ (ReadsBack item) vs as) (hvs : IntegralItems vs) (rest : Bytes) {steps : Nat}
    (hsteps : vs.length < steps) :
    itemsFrom item steps false (encode (writeItems style depth vs) ++ rest) = .ok (as, rest) := by
  induction h generalizing steps with
  | nil =>
    obtain ⟨steps, rfl⟩ := Nat.exists_eq_add_one_of_ne_zero (Nat.ne_zero_of_lt hsteps)
    refine itemsFrom_ok.mpr (.inl ⟨nextItem_close false ?_, rfl⟩)
    rw [writeItems, encode_append, List.append_assoc, skipBlanks_lineStart hstyle]
    exact skipBlanks_of_not_blank (by decide) rest
  | @cons v a vs as hv _ ih =>
    obtain ⟨steps, rfl⟩ := Nat.exists_eq_add_one_of_ne_zero (Nat.ne_zero_of_lt hsteps)
    obtain ⟨b, bytes, hstart, hb, hread⟩ :=
      found_written hstyle (depth + 1) hv hvs.1 (stops_writeItems hstyle depth vs rest)
    have htext : encode (writeItems style depth (v :: vs)) ++ rest =
        0x2C :: (encode (style.lineStart (depth + 1)) ++
          (encode (write style (depth + 1) v) ++ (encode (writeItems style depth vs) ++ rest))) := by
      simp only [writeItems, List.cons_append, encode_ascii (c := ',') (by decide), encode_append,
        List.append_assoc]
      rfl
    rw [htext]
    exact itemsFrom_ok.mpr (.inr ⟨_, a, _, as, nextItem_comma hstart hb, hread,
      ih hvs.2 (Nat.lt_of_succ_lt_succ hsteps), rfl⟩)

/-- **A written list is read back** by a reader of lists that reads back its items. -/
theorem items_written {style : Style} (hstyle : style.Blank) (depth : Nat)
    (h : List.Forall₂ (ReadsBack item) vs as) (hvs : IntegralItems vs) (rest : Bytes) :
    items item (encode (writeListTail style depth vs) ++ rest) = .ok (as, rest) := by
  unfold items
  cases h with
  | nil =>
    refine itemsFrom_ok.mpr (.inl ⟨nextItem_close true ?_, rfl⟩)
    exact skipBlanks_of_not_blank (by decide) rest
  | @cons v a vs as hv hmore =>
    obtain ⟨b, bytes, hstart, hb, hread⟩ :=
      found_written hstyle (depth + 1) hv hvs.1 (stops_writeItems hstyle depth vs rest)
    have hlength := length_lt_writeItems style depth vs
    rw [writeListTail, encode_append, encode_append, List.append_assoc, List.append_assoc]
    refine itemsFrom_ok.mpr (.inr ⟨_, a, _, as, nextItem_first hstart hb, hread,
      itemsFrom_written hstyle depth hmore hvs.2 rest ?_, rfl⟩)
    simp only [List.length_append]
    omega

/-! ## Reading a written object -/

theorem nextMember_close (first : Bool) {input rest : Bytes} (h : skipBlanks input = 0x7D :: rest) :
    nextMember first input = .ok (.close rest) := by
  simp [nextMember, h]

theorem nextMember_first {input rest : Bytes} (h : skipBlanks input = 0x22 :: rest) :
    nextMember true input = .ok (.item rest) := by
  simp [nextMember, h]

theorem nextMember_comma {input rest : Bytes} (h : skipBlanks input = 0x22 :: rest) :
    nextMember false (0x2C :: input) = .ok (.item rest) := by
  have hcomma : skipBlanks (0x2C :: input) = 0x2C :: input := skipBlanks_of_not_blank (by decide) _
  simp [nextMember, hcomma, h]

theorem length_lt_writeMembers (style : Style) (depth : Nat) (ms : List (String × Value)) :
    ms.length < (encode (writeMembers style depth ms)).length := by
  induction ms with
  | nil =>
    rw [writeMembers, encode_append, List.length_append, encode_ascii (by decide)]
    exact Nat.lt_of_lt_of_le Nat.zero_lt_one (Nat.le_add_left _ _)
  | cons m ms ih =>
    rw [writeMembers_cons, List.cons_append, List.cons_append, List.cons_append,
      encode_ascii (by decide), encode_append, List.length_cons, List.length_cons, List.length_append]
    omega

variable {member : σ → String → Bytes → Outcome σ} {s t : σ}

/-- A written member, of which the name has been read, takes one state to another. -/
def TakesMember (member : σ → String → Bytes → Outcome σ) (s : σ) (name : String) (v : Value) (t : σ) :
    Prop :=
  ∀ ⦃style : Style⦄, style.Blank → ∀ (depth : Nat) ⦃rest : Bytes⦄, Stops rest →
    member s name (encode (writeMemberTail style depth v) ++ rest) = .ok (t, rest)

/-- Written members, one after another, take one state to another. -/
inductive Folds (member : σ → String → Bytes → Outcome σ) : σ → List (String × Value) → σ → Prop
  | nil (s : σ) : Folds member s [] s
  | cons {s t u : σ} {name : String} {v : Value} {ms : List (String × Value)}
      (head : TakesMember member s name v t) (tail : Folds member t ms u) :
      Folds member s ((name, v) :: ms) u

/-- Members that are taken with a part of the state left alone are folded with it left alone. -/
theorem Folds.map {τ : Type} {other : τ → String → Bytes → Outcome τ} {f : σ → τ}
    {ms : List (String × Value)} (h : Folds member s ms t)
    (hother : ∀ s, ∀ name ∈ Members.names ms, ∀ input,
      other (f s) name input = (member s name input).map fun (s, rest) => (f s, rest)) :
    Folds other (f s) ms (f t) := by
  induction h with
  | nil s => exact .nil _
  | @cons s t u name v ms head _ ih =>
    refine .cons (fun style hstyle depth rest hrest => ?_)
      (ih fun s name hname => hother s name (List.mem_cons_of_mem _ hname))
    rw [hother s name List.mem_cons_self, head hstyle depth hrest]
    rfl

/-- The quote of a written name is found after the start of its line. -/
theorem found_name {style : Style} (hstyle : style.Blank) (depth : Nat) (name : String) (rest : Bytes) :
    skipBlanks (encode (style.lineStart depth) ++ (encode (writeString name) ++ rest)) =
      0x22 :: (encode (name.toList.flatMap escapeChar) ++ 0x22 :: rest) := by
  rw [skipBlanks_lineStart hstyle, encode_writeString]
  exact skipBlanks_of_not_blank (by decide) _

theorem membersFrom_written {style : Style} (hstyle : style.Blank) (depth : Nat)
    {ms : List (String × Value)} (h : Folds member s ms t) (rest : Bytes) {steps : Nat}
    (hsteps : ms.length < steps) :
    membersFrom member steps false s (encode (writeMembers style depth ms) ++ rest) = .ok (t, rest) := by
  induction h generalizing steps with
  | nil s =>
    obtain ⟨steps, rfl⟩ := Nat.exists_eq_add_one_of_ne_zero (Nat.ne_zero_of_lt hsteps)
    refine membersFrom_ok.mpr (.inl ⟨nextMember_close false ?_, rfl⟩)
    rw [writeMembers, encode_append, List.append_assoc, skipBlanks_lineStart hstyle]
    exact skipBlanks_of_not_blank (by decide) rest
  | @cons s t u name v ms head _ ih =>
    obtain ⟨steps, rfl⟩ := Nat.exists_eq_add_one_of_ne_zero (Nat.ne_zero_of_lt hsteps)
    have htext : encode (writeMembers style depth ((name, v) :: ms)) ++ rest =
        0x2C :: (encode (style.lineStart (depth + 1)) ++ (encode (writeString name) ++
          (encode (writeMemberTail style depth v) ++ (encode (writeMembers style depth ms) ++ rest)))) := by
      simp only [writeMembers_cons, List.cons_append, encode_ascii (c := ',') (by decide),
        encode_append, List.append_assoc]
      rfl
    rw [htext]
    exact membersFrom_ok.mpr (.inr ⟨_, name, _, t, _, nextMember_comma (found_name hstyle _ name _),
      string_written name _, head hstyle depth (stops_writeMembers hstyle depth ms rest),
      ih (Nat.lt_of_succ_lt_succ hsteps)⟩)

/-- **A written object is read back**: its members are folded one after another. -/
theorem members_written {style : Style} (hstyle : style.Blank) (depth : Nat)
    {ms : List (String × Value)} (h : Folds member s ms t) (rest : Bytes) :
    members member s (encode (writeObjectTail style depth ms) ++ rest) = .ok (t, rest) := by
  unfold members
  cases h with
  | nil s =>
    refine membersFrom_ok.mpr (.inl ⟨nextMember_close true ?_, rfl⟩)
    exact skipBlanks_of_not_blank (by decide) rest
  | @cons s u t name v ms head tail =>
    have hlength := length_lt_writeMembers style depth ms
    rw [writeObjectTail, encode_append, encode_append, encode_append, List.append_assoc,
      List.append_assoc, List.append_assoc]
    refine membersFrom_ok.mpr (.inr ⟨_, name, _, u, _, nextMember_first (found_name hstyle _ name _),
      string_written name _, head hstyle depth (stops_writeMembers hstyle depth ms rest),
      membersFrom_written hstyle depth tail rest ?_⟩)
    simp only [List.length_append]
    omega

/-! ## Members that are kept -/

/-- After the colon of a written member stands its value, after blanks. -/
theorem colon_written {style : Style} (hstyle : style.Blank) (depth : Nat) {v : Value}
    (hv : v.Integral) (rest : Bytes) :
    ∃ input, colon (encode (writeMemberTail style depth v) ++ rest) = .ok input ∧
      skipBlanks input = encode (write style (depth + 1) v) ++ rest := by
  refine ⟨encode style.afterColon ++ (encode (write style (depth + 1) v) ++ rest), ?_, ?_⟩
  · rw [writeMemberTail, List.cons_append, encode_ascii (by decide), encode_append, List.cons_append,
      List.append_assoc, colon, skipBlanks_of_not_blank (by decide)]
    rfl
  · rw [skipBlanks_append hstyle.afterColon, skipBlanks_write style _ hv]

theorem takesMember_keepMember {item : Bytes → Outcome α} {v : Value} {a : α} (h : ReadsBack item v a)
    (hv : v.Integral) (kept : Members α) (name : String) :
    TakesMember (keepMember item) kept name v (Members.insert name a kept) := by
  intro style hstyle depth rest hrest
  obtain ⟨input, hcolon, hinput⟩ := colon_written hstyle depth hv rest
  simp only [keepMember, hcolon, h hstyle (depth + 1) hrest hinput]

/-- Members with new and distinct names are kept after those before them. -/
theorem folds_keepMember_append {item : Bytes → Outcome α} {ms : List (String × Value)} {as : Members α}
    (h : List.Forall₂ (fun m a => m.1 = a.1 ∧ m.2.Integral ∧ ReadsBack item m.2 a.2) ms as)
    {kept : Members α} (hdistinct : Members.Distinct (kept ++ as)) :
    Folds (keepMember item) kept ms (kept ++ as) := by
  induction h generalizing kept with
  | nil =>
    rw [List.append_nil]
    exact .nil kept
  | @cons m a ms as hm _ ih =>
    obtain ⟨name, v⟩ := m
    obtain ⟨_, a⟩ := a
    obtain ⟨rfl, hint, hread⟩ := hm
    have hnew := Members.not_mem_names_before hdistinct
    rw [List.append_cons] at hdistinct ⊢
    refine .cons ?_ (ih hdistinct)
    rw [← Members.insert_of_not_mem hnew]
    exact takesMember_keepMember hread hint kept name

/-- Members with distinct names are kept in order. -/
theorem folds_keepMember {item : Bytes → Outcome α} {ms : List (String × Value)} {as : Members α}
    (h : List.Forall₂ (fun m a => m.1 = a.1 ∧ m.2.Integral ∧ ReadsBack item m.2 a.2) ms as)
    (hdistinct : as.Distinct) : Folds (keepMember item) [] ms as :=
  folds_keepMember_append h hdistinct

/-! ## Any value -/

theorem list_readsBack {list object : Bytes → Outcome Value} {v : Value} {vs : List Value}
    (h : ∀ ⦃style : Style⦄, style.Blank → ∀ depth rest,
      list (encode (writeListTail style depth vs) ++ rest) = .ok (v, rest)) :
    ReadsBack (valueWith list object) (.array vs) v := by
  intro style hstyle depth input rest _ hinput
  rw [write_array, encode_ascii (by decide), List.cons_append] at hinput
  simp [valueWith, hinput, isDigit, h hstyle]

theorem object_readsBack {list object : Bytes → Outcome Value} {v : Value}
    {ms : List (String × Value)}
    (h : ∀ ⦃style : Style⦄, style.Blank → ∀ depth rest,
      object (encode (writeObjectTail style depth ms) ++ rest) = .ok (v, rest)) :
    ReadsBack (valueWith list object) (.object ms) v := by
  intro style hstyle depth input rest _ hinput
  rw [write_object, encode_ascii (by decide), List.cons_append] at hinput
  simp [valueWith, hinput, isDigit, h hstyle]

/-- **A plain value is read back**, wherever as many brackets may still be opened as it has open at
once. -/
theorem readsBack_value {n : Nat} {v : Value} (hplain : v.Plain) (hdepth : v.depth ≤ n) :
    ReadsBack (value n) v v := by
  induction n generalizing v with
  | zero =>
    cases v with
    | null => exact readsBack_null
    | bool b => exact readsBack_bool b
    | number k => exact readsBack_number hplain
    | string s => exact readsBack_string s
    | array vs => cases hdepth
    | object ms => cases hdepth
  | succ n ih =>
    cases v with
    | null => exact readsBack_null
    | bool b => exact readsBack_bool b
    | number k => exact readsBack_number hplain
    | string s => exact readsBack_string s
    | array vs =>
      have hitems : List.Forall₂ (ReadsBack (value n)) vs vs :=
        List.forall₂_same.mpr fun w hw => ih (plainItems_iff.mp hplain w hw)
          (itemsDepth_le.mp (Nat.le_of_succ_le_succ hdepth) w hw)
      refine list_readsBack fun style hstyle depth rest => ?_
      rw [items_written hstyle depth hitems (integralItems_of_plain hplain) rest]
      rfl
    | object ms =>
      obtain ⟨hdistinct, hvalues⟩ := hplain
      have hmembers : List.Forall₂
          (fun m a => m.1 = a.1 ∧ m.2.Integral ∧ ReadsBack (value n) m.2 a.2) ms ms :=
        List.forall₂_same.mpr fun m hm =>
          have hm' := plainMembers_iff.mp hvalues m hm
          ⟨rfl, hm'.integral, ih hm' (membersDepth_le.mp (Nat.le_of_succ_le_succ hdepth) m hm)⟩
      have hfolds : Folds (keepMember (value n)) [] ms ms :=
        folds_keepMember hmembers hdistinct
      refine object_readsBack fun style hstyle depth rest => ?_
      rw [members_written hstyle depth hfolds rest]
      rfl

end BuildBrowser.Json
