import BuildBrowser.Json.Numeral
import BuildBrowser.Proofs.Text.Utf8

/-!
# Integers are read back from their numerals

A numeral has no end mark, so it is read back only in front of bytes that do not go on with it
(`Stops`): no digit, no point, no exponent mark. In front of such bytes the significand takes in every
digit as long as 64 bits hold it, and 64 bits hold what the numeral of a kept integer stands for:

- `number_digits`: digits are read as the integer that they write, with the sign that came before;
- `number_text`, `number_text_negSucc`: so the text of a kept integer is read as that integer.

Nothing is said here of numbers that are kept as binary64.
-/

namespace BuildBrowser.Json

open Utf8

/-- The bytes do not go on with a numeral that ends before them. -/
def Stops (rest : Bytes) : Prop :=
  ∀ b ∈ rest.head?, isDigit b = false ∧ b ≠ 0x2E ∧ b ≠ 0x65 ∧ b ≠ 0x45

theorem stops_nil : Stops [] :=
  fun _ h => nomatch h

theorem stops_cons {b : UInt8} {rest : Bytes} :
    Stops (b :: rest) ↔ isDigit b = false ∧ b ≠ 0x2E ∧ b ≠ 0x65 ∧ b ≠ 0x45 := by
  simp [Stops]

/-! ## Digits as bytes -/

theorem isDigit_iff {b : UInt8} : isDigit b = true ↔ 0x30 ≤ b.toNat ∧ b.toNat ≤ 0x39 := by
  simp [isDigit, UInt8.le_iff_toNat_le]

theorem toNat_of_isDigit {c : Char} (h : c.isDigit = true) : 0x30 ≤ c.toNat ∧ c.toNat ≤ 0x39 := by
  simpa [Char.isDigit, UInt32.le_iff_toNat_le] using h

/-- The byte of a digit is a digit and has its value. -/
theorem byte_of_isDigit {c : Char} (h : c.isDigit = true) :
    isDigit (UInt8.ofNat c.toNat) = true ∧ digitValue (UInt8.ofNat c.toNat) = c.toNat - '0'.toNat := by
  have hc := toNat_of_isDigit h
  have hbyte : (UInt8.ofNat c.toNat).toNat = c.toNat := by
    rw [UInt8.toNat_ofNat', Nat.mod_eq_of_lt (by omega)]
  rw [isDigit_iff, digitValue, hbyte]
  exact ⟨hc, rfl⟩

theorem encode_digit {c : Char} (h : c.isDigit = true) (text : List Char) :
    encode (c :: text) = UInt8.ofNat c.toNat :: encode text :=
  encode_ascii (Nat.lt_of_le_of_lt (toNat_of_isDigit h).2 (by decide)) text

/-! ## Gathering -/

/-- More digits never write a smaller number. -/
theorem le_ofDigitChars (digits : List Char) (n : Nat) : n ≤ Nat.ofDigitChars 10 digits n := by
  induction digits generalizing n with
  | nil => exact Nat.le_refl n
  | cons c digits ih =>
    rw [Nat.ofDigitChars_cons]
    exact Nat.le_trans (by omega) (ih _)

theorem gather_of_stops (significand : Nat) {rest : Bytes} (hrest : Stops rest) :
    gather significand rest = (significand, rest) := by
  cases rest with
  | nil => rfl
  | cons b rest => simp [gather, (stops_cons.mp hrest).1]

/-- The significand takes in all digits of a number that it holds. -/
theorem gather_digits {digits : List Char} (hdigits : ∀ c ∈ digits, c.isDigit = true)
    (significand : Nat) (hfits : Nat.ofDigitChars 10 digits significand < UInt64.size) {rest : Bytes}
    (hrest : Stops rest) :
    gather significand (encode digits ++ rest) =
      (Nat.ofDigitChars 10 digits significand, rest) := by
  induction digits generalizing significand with
  | nil => exact gather_of_stops significand hrest
  | cons c digits ih =>
    have hc := hdigits c List.mem_cons_self
    obtain ⟨hdigit, hvalue⟩ := byte_of_isDigit hc
    rw [Nat.ofDigitChars_cons, Nat.mul_comm] at hfits ⊢
    have hfit := Nat.lt_of_le_of_lt (le_ofDigitChars digits _) hfits
    rw [encode_digit hc, List.cons_append, gather, hvalue, if_pos ⟨hdigit, hfit⟩]
    exact ih (fun d hd => hdigits d (List.mem_cons_of_mem _ hd)) _ hfits

/-! ## Numerals -/

theorem isDigit_of_mem_numeral {n : Nat} {c : Char} (h : c ∈ Nat.toDigits 10 n) :
    c.isDigit = true :=
  Nat.isDigit_of_mem_toDigits (by decide) (by decide) h

/-- Only zero has a numeral that starts with zero. -/
theorem head_numeral_ne_zero {n : Nat} (hn : n ≠ 0) {c : Char} {digits : List Char}
    (h : Nat.toDigits 10 n = c :: digits) : c ≠ '0' := by
  induction n using Nat.strongRecOn generalizing digits with
  | ind n ih =>
    rw [Nat.toDigits_eq_if (by decide)] at h
    split at h
    · next hlt =>
      obtain ⟨rfl, -⟩ := List.cons.inj h
      rw [Ne, Nat.digitChar_eq_zero]
      exact hn
    · next hlt =>
      obtain ⟨d, ds, hds⟩ := List.exists_cons_of_ne_nil (Nat.toDigits_ne_nil (n := n / 10) (b := 10))
      rw [hds, List.cons_append] at h
      obtain ⟨rfl, -⟩ := List.cons.inj h
      exact ih (n / 10) (by omega) (by omega) hds

theorem head_byte_ne_zero {n : Nat} (hn : n ≠ 0) {c : Char} {digits : List Char}
    (h : Nat.toDigits 10 n = c :: digits) : UInt8.ofNat c.toNat ≠ 0x30 := by
  intro hbyte
  have hc : c.isDigit = true := isDigit_of_mem_numeral (h ▸ List.mem_cons_self)
  have hbounds := toNat_of_isDigit hc
  have hvalue := congrArg UInt8.toNat hbyte
  rw [UInt8.toNat_ofNat', Nat.mod_eq_of_lt (by omega)] at hvalue
  exact head_numeral_ne_zero hn h (Char.toNat_inj.mp hvalue)

/-- A numeral that the significand holds is read whole, up to bytes that do not go on with it. -/
theorem leadingDigits_numeral {n : Nat} (hn : n < UInt64.size) {rest : Bytes} (hrest : Stops rest) :
    leadingDigits (encode (Nat.toDigits 10 n) ++ rest) = .ok (n, rest) := by
  by_cases hzero : n = 0
  · subst hzero
    have hahead : digitAhead rest = false := by
      cases rest with
      | nil => rfl
      | cons b rest => exact (stops_cons.mp hrest).1
    rw [Nat.toDigits_zero, encode_ascii (by decide)]
    simp [encode, leadingDigits, hahead]
  · have hvalue : Nat.ofDigitChars 10 (Nat.toDigits 10 n) 0 = n := Nat.ofDigitChars_ten_toDigits
    have hdigits : ∀ c ∈ Nat.toDigits 10 n, c.isDigit = true := fun c => isDigit_of_mem_numeral
    obtain ⟨c, digits, hnumeral⟩ := List.exists_cons_of_ne_nil (Nat.toDigits_ne_nil (n := n) (b := 10))
    have hc := hdigits c (by rw [hnumeral]; exact List.mem_cons_self)
    obtain ⟨hdigit, hdigitValue⟩ := byte_of_isDigit hc
    have hne := head_byte_ne_zero hzero hnumeral
    rw [hnumeral, Nat.ofDigitChars_cons] at hvalue
    rw [hnumeral] at hdigits
    rw [hnumeral, encode_digit hc, List.cons_append, leadingDigits, if_neg hne, if_pos hdigit,
      hdigitValue, gather_digits (fun d hd => hdigits d (List.mem_cons_of_mem _ hd)) _ ?_ hrest]
    · rw [← hvalue]
      simp
    · rw [← hvalue] at hn
      simpa using hn

/-- **Digits are read as the integer that they write**, in front of bytes that do not go on with
them. -/
theorem number_digits (negative : Bool) {n : Nat} (hn : n < UInt64.size) {rest : Bytes}
    (hrest : Stops rest) :
    number negative (encode (Nat.toDigits 10 n) ++ rest) = integer negative n rest := by
  rw [number, leadingDigits_numeral hn hrest]
  cases rest with
  | nil => rfl
  | cons b rest =>
    obtain ⟨hdigit, hpoint, he, hE⟩ := stops_cons.mp hrest
    simp only [List.takeWhile_cons, List.dropWhile_cons, hdigit, Bool.false_eq_true, if_false]
    split
    · next heq => exact absurd (List.cons.inj heq).1 hpoint
    · next heq => exact absurd (List.cons.inj heq).1 he
    · next heq => exact absurd (List.cons.inj heq).1 hE
    · rfl

/-- The numeral of a natural number of 64 bits is read as that number. -/
theorem number_text (n : UInt64) {rest : Bytes} (hrest : Stops rest) :
    number false (encode (Nat.toDigits 10 n.toNat) ++ rest) = .ok (.nat n, rest) := by
  rw [number_digits false n.toNat_lt hrest]
  simp [integer]

/-- The numeral of a negative integer of 64 bits, without its sign, is read after the sign as that
integer. -/
theorem number_text_negSucc (n : Fin 0x8000000000000000) {rest : Bytes} (hrest : Stops rest) :
    number true (encode (Nat.toDigits 10 (n.val + 1)) ++ rest) = .ok (.negSucc n, rest) := by
  have hn : n.val + 1 < UInt64.size := Nat.lt_of_le_of_lt n.isLt (by decide)
  rw [number_digits true hn hrest]
  simp [integer]

end BuildBrowser.Json
