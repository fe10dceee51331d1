import BuildBrowser.Proofs.Json.Items
import BuildBrowser.Proofs.Json.Reread

/-!
# The numbers that are kept exactly

An integer of 64 bits without sign is read from its numeral and from no other text (`unsigned_ok`). A
numeral is an integer text of the grammar, without sign, fraction and exponent, and its value is what its
digits write (`Numeral`); there is one for each number, which is the one that is written
(`numeral_iff`).

The significand takes in the digits of a numeral exactly if 64 bits hold what they write. If it leaves
some, or a fraction or an exponent follows, or the sign is a minus, then the number is kept as a binary64
or as a negative integer, and neither is taken for an integer without sign. So **no number that is read
has been rounded**.
-/

namespace BuildBrowser.Json

open Utf8

variable {input rest text digits after : Bytes} {negative : Bool} {significand : Nat} {exponent : Int}

/-! ## Numerals -/

/-- The number that digits write, after a number. -/
def digitsValue (n : Nat) (digits : Bytes) : Nat :=
  digits.foldl (fun n b => n * 10 + digitValue b) n

/-- The text is a numeral of the number: zero, or digits that do not start with zero. -/
structure Numeral (text : Bytes) (n : Nat) : Prop where
  integer : IntegerText text
  value : digitsValue 0 text = n

theorem digitsValue_concat (n : Nat) (digits : Bytes) (b : UInt8) :
    digitsValue n (digits ++ [b]) = digitsValue n digits * 10 + digitValue b := by
  rw [digitsValue, List.foldl_append]
  rfl

theorem digitValue_lt {b : UInt8} (hb : isDigit b = true) : digitValue b < 10 := by
  have hbounds := isDigit_iff.mp hb
  rw [digitValue]
  omega

theorem encode_digitChar : ∀ n < 10, encode [Nat.digitChar n] = [UInt8.ofNat (n + 0x30)] := by decide

/-- A digit is the byte of its value. -/
theorem encode_digitValue {b : UInt8} (hb : isDigit b = true) :
    encode [Nat.digitChar (digitValue b)] = [b] := by
  have hbounds := isDigit_iff.mp hb
  rw [encode_digitChar _ (digitValue_lt hb), digitValue, Nat.sub_add_cancel hbounds.1, UInt8.ofNat_toNat]

/-- Digits that do not start with zero are written for the number that they write. -/
theorem encode_digitsValue {b : UInt8} (hb : isDigit b = true) (hzero : b ≠ 0x30) {more : Bytes}
    (hmore : ∀ d ∈ more, isDigit d = true) :
    digitsValue 0 (b :: more) ≠ 0 ∧ encode (Nat.toDigits 10 (digitsValue 0 (b :: more))) = b :: more := by
  induction more using List.reverseRecOn with
  | nil =>
    have hvalue : digitsValue 0 [b] = digitValue b := Nat.zero_add _
    have hne : digitValue b ≠ 0 := by
      have hbounds := isDigit_iff.mp hb
      have hbyte : b.toNat ≠ 0x30 := fun h => hzero (UInt8.toNat_inj.mp h)
      rw [digitValue]
      omega
    rw [hvalue, Nat.toDigits_of_lt_base (digitValue_lt hb), encode_digitValue hb]
    exact ⟨hne, rfl⟩
  | append_singleton more c ih =>
    obtain ⟨hfront, hlast⟩ := List.forall_mem_append.mp hmore
    have hc := hlast c (List.mem_singleton_self c)
    have hlt := digitValue_lt hc
    obtain ⟨hne, hencode⟩ := ih hfront
    rw [← List.cons_append, digitsValue_concat]
    generalize digitsValue 0 (b :: more) = n at hne hencode ⊢
    refine ⟨by omega, ?_⟩
    rw [Nat.toDigits_eq_if (by decide), if_neg (by omega), encode_append,
      show (n * 10 + digitValue c) / 10 = n by omega,
      show (n * 10 + digitValue c) % 10 = digitValue c by omega, hencode, encode_digitValue hc]

/-- The bytes of digits are digits. -/
theorem isDigit_of_mem_encode {digits : List Char} (h : ∀ c ∈ digits, c.isDigit = true) {b : UInt8}
    (hb : b ∈ encode digits) : isDigit b = true := by
  induction digits with
  | nil => cases hb
  | cons c digits ih =>
    obtain ⟨hc, hdigits⟩ := List.forall_mem_cons.mp h
    rw [encode_digit hc] at hb
    rcases List.mem_cons.mp hb with rfl | hb
    · exact (byte_of_isDigit hc).1
    · exact ih hdigits hb

theorem integerText_numeral (n : Nat) : IntegerText (encode (Nat.toDigits 10 n)) := by
  by_cases hn : n = 0
  · subst hn
    exact .zero
  · obtain ⟨c, digits, hnumeral⟩ := List.exists_cons_of_ne_nil (Nat.toDigits_ne_nil (n := n) (b := 10))
    have hdigits : ∀ d ∈ c :: digits, d.isDigit = true := fun d hd =>
      isDigit_of_mem_numeral (hnumeral ▸ hd)
    obtain ⟨hc, hmore⟩ := List.forall_mem_cons.mp hdigits
    rw [hnumeral, encode_digit hc]
    exact .digits (head_byte_ne_zero hn hnumeral)
      (.digits (byte_of_isDigit hc).1 fun b hb => isDigit_of_mem_encode hmore hb)

theorem digitsValue_encode {digits : List Char} (h : ∀ c ∈ digits, c.isDigit = true) (n : Nat) :
    digitsValue n (encode digits) = Nat.ofDigitChars 10 digits n := by
  induction digits generalizing n with
  | nil => rfl
  | cons c digits ih =>
    obtain ⟨hc, hdigits⟩ := List.forall_mem_cons.mp h
    rw [encode_digit hc, Nat.ofDigitChars_cons, ← ih hdigits, Nat.mul_comm, ← (byte_of_isDigit hc).2]
    rfl

/-- **There is one numeral for each number**: the one that is written. -/
theorem numeral_iff {n : Nat} : Numeral text n ↔ text = encode (Nat.toDigits 10 n) := by
  constructor
  · rintro ⟨hinteger, rfl⟩
    cases hinteger with
    | zero => decide
    | digits hzero h =>
      cases h with
      | digits hb hmore => exact (encode_digitsValue hb hzero hmore).2.symm
  · rintro rfl
    have hdigits : ∀ c ∈ Nat.toDigits 10 n, c.isDigit = true := fun c => isDigit_of_mem_numeral
    refine ⟨integerText_numeral n, ?_⟩
    rw [digitsValue_encode hdigits, Nat.ofDigitChars_ten_toDigits]

/-! ## What is kept as a binary64 -/

/-- The number is kept as a binary64. -/
def IsBinary64 (n : Number) : Prop :=
  ∃ bits, n = .binary64 bits

variable {n : Number}

theorem isBinary64_binary64 (h : binary64 negative significand exponent input = .ok (n, rest)) :
    IsBinary64 n := by
  unfold binary64 at h
  split at h
  · cases h
    exact ⟨_, rfl⟩
  · cases h

theorem isBinary64_afterMark (h : afterMark negative significand exponent input = .ok (n, rest)) :
    IsBinary64 n := by
  unfold afterMark at h
  rcases hsign : exponentSign input with ⟨down, _ | ⟨b, start⟩⟩
  · simp only [hsign] at h
    cases h
  · simp only [hsign] at h
    split at h
    · split at h
      · exact isBinary64_binary64 h
      · split at h
        · cases h
        · exact isBinary64_binary64 h
    · cases h

theorem isBinary64_exponent? (h : exponent? negative significand exponent input = .ok (n, rest)) :
    IsBinary64 n := by
  unfold exponent? at h
  split at h
  · exact isBinary64_binary64 h
  · split at h
    · exact isBinary64_afterMark h
    · exact isBinary64_binary64 h

theorem isBinary64_afterPoint (h : afterPoint negative significand exponent input = .ok (n, rest)) :
    IsBinary64 n := by
  unfold afterPoint at h
  dsimp only at h
  split at h
  · exact isBinary64_exponent? h
  · split at h <;> cases h

theorem not_isBinary64_nat (k : UInt64) : ¬IsBinary64 (.nat k) := by
  rintro ⟨bits, hbits⟩
  cases hbits

/-! ## What is kept as an integer -/

/-- Only what has no sign is kept as an integer that is not negative, and that as its significand. -/
theorem integer_nat {k : UInt64} (h : integer negative significand input = .ok (.nat k, rest)) :
    negative = false ∧ k = significand.toUInt64 ∧ rest = input := by
  unfold integer at h
  cases negative with
  | false =>
    simp only [Bool.not_false, if_true] at h
    cases h
    exact ⟨rfl, rfl, rfl⟩
  | true =>
    simp only [Bool.not_true, Bool.false_eq_true, if_false] at h
    split at h
    · exact absurd (isBinary64_binary64 h) (not_isBinary64_nat k)
    · split at h
      · cases h
      · exact absurd (isBinary64_binary64 h) (not_isBinary64_nat k)

/-- Only a number of which no digit was dropped, and that nothing goes on with, is kept as an integer. -/
theorem afterInteger_nat {dropped : Nat} {k : UInt64}
    (h : afterInteger negative significand dropped input = .ok (.nat k, rest)) :
    dropped = 0 ∧ (∀ b ∈ input.head?, Unmarked b) ∧
      integer negative significand input = .ok (.nat k, rest) := by
  by_cases hunmarked : ∀ b ∈ input.head?, Unmarked b
  · rw [afterInteger_of_unmarked hunmarked] at h
    split at h
    · next hdropped => exact ⟨hdropped, hunmarked, h⟩
    · exact absurd (isBinary64_binary64 h) (not_isBinary64_nat k)
  · unfold afterInteger at h
    split at h
    · exact absurd (isBinary64_afterPoint h) (not_isBinary64_nat k)
    · exact absurd (isBinary64_afterMark h) (not_isBinary64_nat k)
    · exact absurd (isBinary64_afterMark h) (not_isBinary64_nat k)
    · next hpoint he hE => exact absurd (unmarked_of_ne hpoint he hE) hunmarked

/-! ## Reading a numeral -/

/-- A significand that takes in all digits is what they write, and 64 bits hold it. -/
theorem Run.gather_all (h : Run digits after) {gathered : Nat} (hsignificand : significand < UInt64.size)
    (hread : Json.gather significand (digits ++ after) = (gathered, after)) :
    gathered = digitsValue significand digits ∧ gathered < UInt64.size := by
  induction digits generalizing significand with
  | nil =>
    have hnone : Json.gather significand after = (significand, after) := by
      cases after with
      | nil => rfl
      | cons b after => simp [Json.gather, show isDigit b = false from h.ended]
    rw [List.nil_append, hnone] at hread
    cases hread
    exact ⟨rfl, hsignificand⟩
  | cons b digits ih =>
    rw [List.cons_append, Json.gather] at hread
    split at hread
    · next hfits => exact ih h.tail hfits.2 hread
    · have hlength := congrArg List.length (Prod.mk.inj hread).2
      simp only [List.length_cons, List.length_append] at hlength
      omega

/-- The digits of a number that are all taken in are a numeral. -/
theorem Run.numeral_of_leadingDigits (h : Run digits after)
    (hread : Json.leadingDigits (digits ++ after) = .ok (significand, after)) :
    Numeral digits significand ∧ significand < UInt64.size := by
  cases digits with
  | nil =>
    obtain ⟨-, hne, -⟩ := h.leadingDigits hread
    exact absurd rfl hne
  | cons b digits =>
    rw [List.cons_append, Json.leadingDigits] at hread
    split at hread
    · next hzero =>
      split at hread
      · cases hread
      · obtain ⟨rfl, hrest⟩ := Prod.mk.inj (Except.ok.inj hread)
        obtain rfl : digits = [] := by
          have hlength := congrArg List.length hrest
          rw [List.length_append] at hlength
          exact List.length_eq_zero_iff.mp (by omega)
        subst hzero
        exact ⟨⟨.zero, rfl⟩, by decide⟩
    · next hzero =>
      have hb : isDigit b = true := h.digit b List.mem_cons_self
      rw [if_pos hb] at hread
      have hlt : digitValue b < UInt64.size := Nat.lt_trans (digitValue_lt hb) (by decide)
      obtain ⟨hvalue, hfits⟩ := h.tail.gather_all hlt (Except.ok.inj hread)
      refine ⟨⟨.digits hzero (.digits hb h.tail.digit), ?_⟩, hfits⟩
      rw [hvalue, digitsValue, List.foldl_cons, digitsValue, Nat.zero_mul, Nat.zero_add]

/-- **A number is kept as an integer that is not negative exactly if it is a numeral without sign of a
number that 64 bits hold**, and nothing follows that goes on with it. -/
theorem number_nat {k : UInt64} : number negative input = .ok (.nat k, rest) ↔
    negative = false ∧ ∃ text, Numeral text k.toNat ∧ input = text ++ rest ∧ Stops rest := by
  constructor
  · intro h
    obtain ⟨digits, after, rfl, hrun⟩ := exists_run input
    cases hleading : leadingDigits (digits ++ after) with
    | error fault =>
      rw [number, hleading] at h
      cases h
    | ok found =>
      obtain ⟨significand, more⟩ := found
      obtain ⟨-, -, left, hleft, hread⟩ := hrun.leadingDigits hleading
      rw [hleft.number (hread after hrun)] at h
      obtain ⟨hnone, hunmarked, hinteger⟩ := afterInteger_nat h
      obtain rfl := List.length_eq_zero_iff.mp hnone
      obtain ⟨hnumeral, hfits⟩ := hrun.numeral_of_leadingDigits (hread after hrun)
      obtain ⟨hpositive, rfl, rfl⟩ := integer_nat hinteger
      refine ⟨hpositive, digits, ?_, rfl, fun b hb => ?_⟩
      · rwa [Nat.toUInt64_eq, UInt64.toNat_ofNat', Nat.mod_eq_of_lt hfits]
      · obtain ⟨hpoint, he, hE⟩ := hunmarked b hb
        obtain ⟨more, rfl⟩ := List.head?_eq_some_iff.mp hb
        exact ⟨hrun.ended, hpoint, he, hE⟩
  · rintro ⟨rfl, text, hnumeral, rfl, hrest⟩
    rw [numeral_iff.mp hnumeral]
    exact number_text k hrest

/-- **An integer of 64 bits without sign is read from its numeral**, after blanks, and from nothing
else. -/
theorem unsigned_ok {n : Nat} {k : UInt64} : unsigned n input = .ok (k, rest) ↔
    ∃ before text, Blanks before ∧ Numeral text k.toNat ∧ input = before ++ (text ++ rest) ∧
      Stops rest := by
  constructor
  · intro h
    unfold unsigned at h
    split at h
    · obtain ⟨hpositive, -⟩ := number_nat.mp (asUnsigned_ok.mp h)
      cases hpositive
    · next hstart =>
      split at h
      · obtain ⟨-, text, hnumeral, htext, hrest⟩ := number_nat.mp (asUnsigned_ok.mp h)
        obtain ⟨before, hbefore, rfl⟩ := exists_of_skipBlanks hstart
        exact ⟨before, text, hbefore, hnumeral, by rw [htext], hrest⟩
      · cases h
    · cases h
  · rintro ⟨before, text, hbefore, hnumeral, rfl, hrest⟩
    refine readsBack_unsigned n k Style.compact_blank 0 hrest ?_
    obtain rfl := numeral_iff.mp hnumeral
    rw [skipBlanks_append hbefore, write]
    exact skipBlanks_write .compact 0 (v := .number (.nat k)) rfl rest

theorem Numeral.isDigit_of_mem {n : Nat} (h : Numeral text n) {b : UInt8} (hb : b ∈ text) :
    isDigit b = true := by
  rw [numeral_iff.mp h] at hb
  exact isDigit_of_mem_encode (fun _ => isDigit_of_mem_numeral) hb

theorem Numeral.valueText {n : Nat} (h : Numeral text n) : ValueText text := by
  have hparts : UnsignedText (text ++ ([] ++ [])) := .parts h.integer .missing .missing
  rw [List.append_nil, List.append_nil] at hparts
  exact .number hparts

/-- An item is read as an integer of 64 bits without sign exactly if its value is the numeral. -/
theorem unsigned_item {item : Item} {n : Nat} {k : UInt64} (h : ValueText item.value) :
    item.Reads (unsigned n) k ↔ Numeral item.value k.toNat := by
  constructor
  · intro hread
    obtain ⟨before, text, hbefore, hnumeral, htext, -⟩ := unsigned_ok.mp hread
    obtain ⟨b, more, rfl, hb, -⟩ := head_valueText hnumeral.valueText
    have hstart : skipBlanks item.text = b :: more ++ item.after := by
      rw [htext, skipBlanks_append hbefore]
      exact skipBlanks_of_not_blank hb _
    rwa [item.eq_value h hstart]
  · intro hnumeral
    exact unsigned_ok.mpr
      ⟨item.before, item.value, item.before_blank, hnumeral, rfl, item.stops_after⟩

end BuildBrowser.Json
