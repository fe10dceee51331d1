import BuildBrowser.Proofs.Json.Local

/-!
# Where a number ends

A kept number and one that nobody keeps are read by different functions: the first gathers a
significand and a power of ten, drops digits that these do not hold and may refuse the result; the
second looks at the grammar alone. Both split their input into runs of digits (`Run`) with single bytes
between them, and a run is taken whole whatever the significand holds of it. So each part of a number
ends for both at the same place, and its value depends on the bytes up to there: `afterMark_ok`,
`exponent?_ok`, `afterPoint_ok` and `afterInteger_ok` say this of the parts, from the last to the first,
and **`number_ok` of the whole**.
-/

namespace BuildBrowser.Json

variable {input rest other digits after : Bytes}

/-! ## Runs of digits -/

theorem Follows.digitAhead (h : Follows rest other) (hrest : digitAhead rest = false) :
    digitAhead other = false := by
  have hhead : ∀ b ∈ other.head?, isDigit b = false := by
    refine h.head (fun b hb => ?_) fun b hb _ _ _ => hb
    obtain ⟨more, rfl⟩ := List.head?_eq_some_iff.mp hb
    exact hrest
  cases other with
  | nil => rfl
  | cons b other => exact hhead b rfl

/-- A run of digits stands before bytes that do not go on with it. -/
structure Run (digits after : Bytes) : Prop where
  digit : ∀ b ∈ digits, isDigit b = true
  ended : digitAhead after = false

theorem exists_run (input : Bytes) : ∃ digits after, input = digits ++ after ∧ Run digits after := by
  refine ⟨input.takeWhile isDigit, input.dropWhile isDigit, (List.takeWhile_append_dropWhile ..).symm,
    fun b => List.mem_takeWhile_imp, ?_⟩
  have hhead := List.head?_dropWhile_not isDigit input
  cases hrest : input.dropWhile isDigit with
  | nil => rfl
  | cons b rest => rwa [hrest] at hhead

namespace Run

theorem follows (h : Run digits after) (hother : Follows after other) : Run digits other :=
  ⟨h.digit, hother.digitAhead h.ended⟩

theorem tail {d : UInt8} (h : Run (d :: digits) after) : Run digits after :=
  ⟨fun b hb => h.digit b (List.mem_cons_of_mem _ hb), h.ended⟩

theorem dropWhile (h : Run digits after) : (digits ++ after).dropWhile isDigit = after := by
  rw [List.dropWhile_append_of_pos h.digit]
  cases after with
  | nil => rfl
  | cons b after => exact List.dropWhile_cons_of_neg (by simpa [digitAhead] using h.ended)

theorem takeWhile (h : Run digits after) : (digits ++ after).takeWhile isDigit = digits := by
  have htake : after.takeWhile isDigit = [] := by
    cases after with
    | nil => rfl
    | cons b after => exact List.takeWhile_cons_of_neg (by simpa [digitAhead] using h.ended)
  rw [List.takeWhile_append_of_pos h.digit, htake, List.append_nil]

theorem digitAhead_append (h : Run digits after) : digitAhead (digits ++ after) = digitAhead digits := by
  cases digits with
  | nil => exact h.ended
  | cons d digits => rfl

/-- The significand leaves the same digits of a run, whatever stands after it. -/
theorem gather (h : Run digits after) (significand : Nat) :
    ∃ left, Run left after ∧ ∃ gathered, ∀ other, Run digits other →
      gather significand (digits ++ other) = (gathered, left ++ other) := by
  induction digits generalizing significand with
  | nil =>
    refine ⟨[], h, significand, fun other hother => ?_⟩
    cases other with
    | nil => rfl
    | cons b other =>
      have hb : isDigit b = false := hother.ended
      simp [Json.gather, hb]
  | cons d digits ih =>
    by_cases hd : isDigit d ∧ significand * 10 + digitValue d < UInt64.size
    · obtain ⟨left, hleft, gathered, hgather⟩ := ih h.tail (significand * 10 + digitValue d)
      refine ⟨left, hleft, gathered, fun other hother => ?_⟩
      rw [List.cons_append, Json.gather, if_pos hd, hgather other hother.tail]
    · refine ⟨d :: digits, h, significand, fun other _ => ?_⟩
      rw [List.cons_append, Json.gather, if_neg hd]

/-- The same digits of a run are left by an exponent, whatever stands after it. -/
theorem exponentDigits (h : Run digits after) (e : Nat) :
    ∃ left, Run left after ∧ ∃ exponent fits, (fits = true → left = []) ∧ ∀ other, Run digits other →
      exponentDigits e (digits ++ other) = (exponent, fits, left ++ other) := by
  induction digits generalizing e with
  | nil =>
    refine ⟨[], h, e, true, fun _ => rfl, fun other hother => ?_⟩
    cases other with
    | nil => rfl
    | cons b other =>
      have hb : isDigit b = false := hother.ended
      simp [Json.exponentDigits, hb]
  | cons d digits ih =>
    have hd : isDigit d = true := h.digit d List.mem_cons_self
    by_cases hfits : e * 10 + digitValue d < 0x80000000
    · obtain ⟨left, hleft, exponent, fits, hnone, hdigits⟩ := ih h.tail (e * 10 + digitValue d)
      refine ⟨left, hleft, exponent, fits, hnone, fun other hother => ?_⟩
      rw [List.cons_append, Json.exponentDigits, if_pos hd, if_pos hfits, hdigits other hother.tail]
    · refine ⟨digits, h.tail, e, false, nofun, fun other _ => ?_⟩
      rw [List.cons_append, Json.exponentDigits, if_pos hd, if_neg hfits]

end Run

/-! ## The parts of a number -/

variable {negative : Bool} {significand : Nat} {exponent : Int} {n : Number}

theorem binary64_rest (h : binary64 negative significand exponent input = .ok (n, rest)) :
    input = rest ∧ ∀ other, binary64 negative significand exponent other = .ok (n, other) := by
  unfold binary64 at h ⊢
  cases hbits : binary64? negative significand exponent with
  | none =>
    rw [hbits] at h
    cases h
  | some bits =>
    rw [hbits] at h
    cases h
    exact ⟨rfl, fun _ => rfl⟩

/-- A sign before a digit is read, whatever stands after the digit. -/
theorem exists_sign {down : Bool} {d : UInt8} (hd : isDigit d = true)
    (h : exponentSign input = (down, d :: rest)) :
    ∃ sign, input = sign ++ d :: rest ∧ ∀ other, exponentSign (sign ++ d :: other) = (down, d :: other) := by
  have hplus : d ≠ 0x2B := by
    rintro rfl
    cases hd
  have hminus : d ≠ 0x2D := by
    rintro rfl
    cases hd
  cases input with
  | nil => cases h
  | cons b input =>
    rw [exponentSign] at h
    split at h
    · next hb =>
      cases h
      exact ⟨[b], rfl, fun other => by rw [List.singleton_append, exponentSign, if_pos hb]⟩
    split at h
    · next hb' hb =>
      cases h
      exact ⟨[b], rfl, fun other => by rw [List.singleton_append, exponentSign, if_neg hb', if_pos hb]⟩
    · cases h
      exact ⟨[], rfl, fun other => by rw [List.nil_append, exponentSign, if_neg hplus, if_neg hminus]⟩

/-- After its mark, an exponent ends with its digits. -/
theorem afterMark_ok (h : afterMark negative significand exponent input = .ok (n, rest)) :
    skipAfterMark input = .ok rest ∧
      ∃ used, input = used ++ rest ∧ Takes (afterMark negative significand exponent) used n rest := by
  unfold afterMark at h
  rcases hsign : exponentSign input with ⟨down, _ | ⟨d, start⟩⟩
  · simp only [hsign] at h
    cases h
  · simp only [hsign] at h
    split at h
    next hd =>
      obtain ⟨sign, rfl, hsigns⟩ := exists_sign hd hsign
      obtain ⟨digits, after, rfl, hrun⟩ := exists_run start
      obtain ⟨left, hleft, e, fits, hnone, hdigits⟩ := hrun.exponentDigits (digitValue d)
      have hskip : skipAfterMark (sign ++ d :: (digits ++ after)) = .ok after := by
        simp only [skipAfterMark, hsign, if_pos hd, hrun.dropWhile]
      rw [hdigits after hrun] at h
      cases fits with
      | true =>
        obtain rfl := hnone rfl
        obtain ⟨rfl, hbits⟩ := binary64_rest h
        refine ⟨hskip, sign ++ d :: digits, by simp, fun other hother => ?_⟩
        rw [List.append_assoc, List.cons_append, afterMark, hsigns]
        simp only [if_pos hd, hdigits other (hrun.follows hother)]
        exact hbits other
      | false =>
        dsimp only at h
        split at h
        · cases h
        next hrange =>
          rw [hleft.dropWhile] at h
          obtain ⟨rfl, hbits⟩ := binary64_rest h
          refine ⟨hskip, sign ++ d :: digits, by simp, fun other hother => ?_⟩
          rw [List.append_assoc, List.cons_append, afterMark, hsigns]
          simp only [if_pos hd, hdigits other (hrun.follows hother), if_neg hrange,
            (hleft.follows hother).dropWhile]
          exact hbits other
    · cases h

/-- Without an exponent mark, a number is over. -/
theorem exponent?_of_unmarked (h : ∀ b ∈ input.head?, ¬(b = 0x65 ∨ b = 0x45)) :
    exponent? negative significand exponent input = binary64 negative significand exponent input := by
  cases input with
  | nil => rfl
  | cons b input => exact if_neg (h b rfl)

theorem skipExponent?_of_unmarked (h : ∀ b ∈ input.head?, ¬(b = 0x65 ∨ b = 0x45)) :
    skipExponent? input = .ok input := by
  cases input with
  | nil => rfl
  | cons b input => exact if_neg (h b rfl)

/-- An exponent, if there is one, ends with its digits. -/
theorem exponent?_ok (h : exponent? negative significand exponent input = .ok (n, rest)) :
    skipExponent? input = .ok rest ∧
      ∃ used, input = used ++ rest ∧ Takes (exponent? negative significand exponent) used n rest := by
  by_cases hmark : ∃ mark more, input = mark :: more ∧ (mark = 0x65 ∨ mark = 0x45)
  · obtain ⟨mark, more, rfl, hmark⟩ := hmark
    rw [exponent?, if_pos hmark] at h
    obtain ⟨hskip, used, rfl, htakes⟩ := afterMark_ok h
    refine ⟨by rw [skipExponent?, if_pos hmark, hskip], mark :: used, rfl, fun other hother => ?_⟩
    rw [List.cons_append, exponent?, if_pos hmark, htakes hother]
  · have hunmarked : ∀ b ∈ input.head?, ¬(b = 0x65 ∨ b = 0x45) := by
      intro b hb hmarked
      obtain ⟨more, rfl⟩ := List.head?_eq_some_iff.mp hb
      exact hmark ⟨b, more, rfl, hmarked⟩
    rw [exponent?_of_unmarked hunmarked] at h
    obtain ⟨rfl, hbits⟩ := binary64_rest h
    refine ⟨skipExponent?_of_unmarked hunmarked, [], rfl, fun other hother => ?_⟩
    have hother := hother.head hunmarked fun b _ _ he hE => not_or.mpr ⟨he, hE⟩
    rw [List.nil_append, exponent?_of_unmarked hother, hbits]

/-- After its point, a fraction ends with its digits and its exponent. -/
theorem afterPoint_ok (h : afterPoint negative significand exponent input = .ok (n, rest)) :
    skipFraction? (0x2E :: input) = .ok rest ∧
      ∃ used, input = used ++ rest ∧ Takes (afterPoint negative significand exponent) used n rest := by
  obtain ⟨digits, after, rfl, hrun⟩ := exists_run input
  obtain ⟨left, hleft, gathered, hgather⟩ := hrun.gather significand
  -- the power of ten counts the digits taken, so it does not depend on what follows them
  have hpoint : ∀ other, Run digits other → digitAhead digits = true →
      afterPoint negative significand exponent (digits ++ other) =
        exponent? negative gathered (exponent - (digits.length - left.length : Nat)) other := by
    intro other hother hahead
    have hlength : (digits ++ other).length - (left ++ other).length = digits.length - left.length := by
      rw [List.length_append, List.length_append, Nat.add_sub_add_right]
    simp only [afterPoint, hgather other hother, hother.digitAhead_append, if_pos hahead, hlength,
      Run.dropWhile ⟨hleft.digit, hother.ended⟩]
  by_cases hahead : digitAhead digits = true
  · rw [hpoint after hrun hahead] at h
    obtain ⟨hskip, used, rfl, htakes⟩ := exponent?_ok h
    refine ⟨?_, digits ++ used, by rw [List.append_assoc], fun other hother => ?_⟩
    · rw [skipFraction?, if_pos rfl, hrun.digitAhead_append, if_pos hahead, hrun.dropWhile, hskip]
    · rw [List.append_assoc, hpoint _ (hrun.follows (hother.append used)) hahead, htakes hother]
  · rw [afterPoint, hrun.digitAhead_append] at h
    simp only [if_neg hahead] at h
    split at h <;> cases h

/-- The first digits of a number are a run, of which the significand leaves some. -/
theorem Run.leadingDigits (h : Run digits after) {left : Bytes}
    (hread : leadingDigits (digits ++ after) = .ok (significand, left)) :
    skipNumber (digits ++ after) = skipFraction? after ∧ digits ≠ [] ∧
      ∃ left, Run left after ∧ ∀ other, Run digits other →
        leadingDigits (digits ++ other) = .ok (significand, left ++ other) := by
  cases digits with
  | nil =>
    exfalso
    cases after with
    | nil => cases hread
    | cons b after =>
      have hb : isDigit b = false := h.ended
      have hzero : b ≠ 0x30 := by
        rintro rfl
        cases hb
      rw [List.nil_append, Json.leadingDigits, if_neg hzero, hb] at hread
      cases hread
  | cons d digits =>
    rw [List.cons_append, Json.leadingDigits] at hread
    split at hread
    · next hzero =>
      split at hread
      · cases hread
      next hahead =>
        cases hread
        rw [h.tail.digitAhead_append] at hahead
        obtain rfl : digits = [] := by
          cases digits with
          | nil => rfl
          | cons e digits => exact absurd (h.tail.digit e List.mem_cons_self) hahead
        refine ⟨?_, List.cons_ne_nil _ _, [], h.tail, fun other hother => ?_⟩
        · simp only [List.cons_append, List.nil_append, skipNumber, if_pos hzero,
            show digitAhead after = false from h.ended, Bool.false_eq_true, if_false]
        · simp only [List.cons_append, List.nil_append, Json.leadingDigits, if_pos hzero,
            show digitAhead other = false from hother.ended, Bool.false_eq_true, if_false]
    · next hzero =>
      have hd : isDigit d = true := h.digit d List.mem_cons_self
      obtain ⟨left, hleft, gathered, hgather⟩ := h.tail.gather (digitValue d)
      rw [if_pos hd, hgather after h.tail] at hread
      cases hread
      refine ⟨?_, List.cons_ne_nil _ _, left, hleft, fun other hother => ?_⟩
      · rw [List.cons_append, skipNumber, if_neg hzero, if_pos hd, h.tail.dropWhile]
      · rw [List.cons_append, Json.leadingDigits, if_neg hzero, if_pos hd, hgather other hother.tail]

/-- A number without a fraction and an exponent is over. -/
theorem integer_rest {dropped : Nat}
    (h : (if dropped = 0 then integer negative significand input
      else binary64 negative significand dropped input) = .ok (n, rest)) :
    input = rest ∧ ∀ other, (if dropped = 0 then integer negative significand other
      else binary64 negative significand dropped other) = .ok (n, other) := by
  by_cases hdropped : dropped = 0
  · simp only [if_pos hdropped] at h ⊢
    unfold integer at h ⊢
    cases negative with
    | false =>
      cases h
      exact ⟨rfl, fun _ => rfl⟩
    | true =>
      simp only [Bool.not_true, Bool.false_eq_true, if_false] at h ⊢
      cases significand with
      | zero => exact binary64_rest h
      | succ k =>
        dsimp only at h ⊢
        split at h
        · next hk =>
          cases h
          exact ⟨rfl, fun _ => dif_pos hk⟩
        · next hk =>
          simp only [dif_neg hk]
          exact binary64_rest h
  · simp only [if_neg hdropped] at h ⊢
    exact binary64_rest h

/-- The byte is no decimal point and no exponent mark. -/
def Unmarked (b : UInt8) : Prop :=
  b ≠ 0x2E ∧ b ≠ 0x65 ∧ b ≠ 0x45

theorem unmarked_of_ne (hpoint : ∀ more, input ≠ 0x2E :: more) (he : ∀ more, input ≠ 0x65 :: more)
    (hE : ∀ more, input ≠ 0x45 :: more) : ∀ b ∈ input.head?, Unmarked b := by
  intro b hb
  obtain ⟨more, rfl⟩ := List.head?_eq_some_iff.mp hb
  refine ⟨?_, ?_, ?_⟩
  · rintro rfl
    exact hpoint more rfl
  · rintro rfl
    exact he more rfl
  · rintro rfl
    exact hE more rfl

theorem skipFraction?_of_unmarked (h : ∀ b ∈ input.head?, Unmarked b) : skipFraction? input = .ok input := by
  cases input with
  | nil => rfl
  | cons b input =>
    obtain ⟨hpoint, he, hE⟩ := h b rfl
    rw [skipFraction?, if_neg hpoint, skipExponent?, if_neg (not_or.mpr ⟨he, hE⟩)]

/-- The rest of a number of which the integer part has been read, and so many digits of it dropped. -/
def afterInteger (negative : Bool) (significand dropped : Nat) : Bytes → Outcome Number
  | 0x2E :: after => afterPoint negative significand dropped after
  | 0x65 :: after => afterMark negative significand dropped after
  | 0x45 :: after => afterMark negative significand dropped after
  | after =>
    if dropped = 0 then integer negative significand after
    else binary64 negative significand dropped after

theorem Run.number {left : Bytes} (h : Run left after)
    (hleading : Json.leadingDigits (digits ++ after) = .ok (significand, left ++ after)) :
    number negative (digits ++ after) = afterInteger negative significand left.length after := by
  simp only [Json.number, hleading, h.takeWhile, h.dropWhile]
  rfl

theorem afterInteger_of_unmarked {dropped : Nat} (h : ∀ b ∈ input.head?, Unmarked b) :
    afterInteger negative significand dropped input =
      if dropped = 0 then integer negative significand input
      else binary64 negative significand dropped input := by
  unfold afterInteger
  split
  · exact absurd rfl (h _ rfl).1
  · exact absurd rfl (h _ rfl).2.1
  · exact absurd rfl (h _ rfl).2.2
  · rfl

/-- After its integer part, a number ends with its fraction and its exponent. -/
theorem afterInteger_ok {dropped : Nat}
    (h : afterInteger negative significand dropped input = .ok (n, rest)) :
    skipFraction? input = .ok rest ∧
      ∃ used, input = used ++ rest ∧ Takes (afterInteger negative significand dropped) used n rest := by
  by_cases hunmarked : ∀ b ∈ input.head?, Unmarked b
  · rw [afterInteger_of_unmarked hunmarked] at h
    obtain ⟨rfl, hends⟩ := integer_rest h
    refine ⟨skipFraction?_of_unmarked hunmarked, [], rfl, fun other hother => ?_⟩
    have hother := hother.head hunmarked fun b _ hpoint he hE => ⟨hpoint, he, hE⟩
    rw [List.nil_append, afterInteger_of_unmarked hother, hends]
  · unfold afterInteger at h
    split at h
    case h_1 after =>
      obtain ⟨hskip, used, rfl, htakes⟩ := afterPoint_ok h
      exact ⟨hskip, 0x2E :: used, rfl, htakes⟩
    case h_2 after =>
      obtain ⟨hskip, used, rfl, htakes⟩ := afterMark_ok h
      exact ⟨hskip, 0x65 :: used, rfl, htakes⟩
    case h_3 after =>
      obtain ⟨hskip, used, rfl, htakes⟩ := afterMark_ok h
      exact ⟨hskip, 0x45 :: used, rfl, htakes⟩
    case h_4 hpoint he hE => exact absurd (unmarked_of_ne hpoint he hE) hunmarked

/-- **A number ends where it ends if nobody keeps it**, and what it is depends on the bytes up to there
alone. -/
theorem number_ok (h : number negative input = .ok (n, rest)) :
    skipNumber input = .ok rest ∧
      ∃ used, used ≠ [] ∧ input = used ++ rest ∧ Takes (number negative) used n rest := by
  obtain ⟨digits, after, rfl, hrun⟩ := exists_run input
  cases hleading : leadingDigits (digits ++ after) with
  | error fault =>
    rw [number, hleading] at h
    cases h
  | ok found =>
    obtain ⟨significand, more⟩ := found
    obtain ⟨hskip, hdigits, left, hleft, hread⟩ := hrun.leadingDigits hleading
    rw [hleft.number (hread after hrun)] at h
    obtain ⟨hfraction, used, rfl, htakes⟩ := afterInteger_ok h
    refine ⟨hskip.trans hfraction, digits ++ used, by simp [hdigits], by simp, fun other hother => ?_⟩
    have hother' := hother.append used
    rw [List.append_assoc, (hleft.follows hother').number (hread _ (hrun.follows hother')),
      htakes hother]

theorem local_number (negative : Bool) : Local (number negative) :=
  fun _ _ _ h => (number_ok h).2

end BuildBrowser.Json
