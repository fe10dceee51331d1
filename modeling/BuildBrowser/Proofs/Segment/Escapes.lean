import BuildBrowser.Proofs.Segment
import BuildBrowser.Proofs.Text.Utf8.WellFormed

/-!
# What decoding changes in a segment

An escape is a percent sign with two hexadecimal digits behind it. Decoding takes its three characters
for one byte, and every other character for its own bytes. The bytes are then read as UTF-8, and next
to each other they may be read as anything: an escaped byte may start a scalar value that the next one
does not continue, or may stand within one.

**The law** (`decode_touches_only_escapes`): a segment is decoded as itself exactly if it has no escape,
and gets shorter otherwise. The step is `length_scan_bytes_le`, over what is left open between bytes: an
escape adds at most one to what is decided and what is open (`Utf8.length_step_le`), and a character
ends what is open and is then read as itself (`Utf8.scan_open_encodeChar`), so each adds at most one,
and an escape takes three characters for it.
-/

namespace BuildBrowser.Segment

open Utf8

/-! ## Escapes -/

/-- An ASCII hexadecimal digit of either case. -/
def IsHexDigit (c : Char) : Prop :=
  ('0' ≤ c ∧ c ≤ '9') ∨ ('A' ≤ c ∧ c ≤ 'F') ∨ ('a' ≤ c ∧ c ≤ 'f')

instance (c : Char) : Decidable (IsHexDigit c) :=
  inferInstanceAs (Decidable (_ ∨ _ ∨ _))

/-- Whether a text starts with an escape. -/
def startsEscape : List Char → Bool
  | '%' :: high :: low :: _ => decide (IsHexDigit high ∧ IsHexDigit low)
  | _ => false

/-- A text has an escape somewhere. -/
def HasEscape (segment : List Char) : Prop :=
  ∃ before high low after, segment = before ++ '%' :: high :: low :: after ∧
    IsHexDigit high ∧ IsHexDigit low

theorem startsEscape_iff {segment : List Char} :
    startsEscape segment = true ↔ ∃ high low rest, segment = '%' :: high :: low :: rest ∧
      IsHexDigit high ∧ IsHexDigit low := by
  constructor
  · intro h
    unfold startsEscape at h
    split at h
    · exact ⟨_, _, _, rfl, of_decide_eq_true h⟩
    · cases h
  · intro h
    obtain ⟨high, low, rest, rfl, hdigits⟩ := h
    exact decide_eq_true hdigits

theorem hasEscape_cons {c : Char} {rest : List Char} :
    HasEscape (c :: rest) ↔ startsEscape (c :: rest) = true ∨ HasEscape rest := by
  rw [startsEscape_iff]
  constructor
  · intro h
    obtain ⟨before, high, low, after, hsegment, hdigits⟩ := h
    cases before with
    | nil => exact .inl ⟨high, low, after, hsegment, hdigits⟩
    | cons d before => exact .inr ⟨before, high, low, after, (List.cons.inj hsegment).2, hdigits⟩
  · intro h
    rcases h with ⟨high, low, after, hsegment, hdigits⟩ | ⟨before, high, low, after, hsegment, hdigits⟩
    · exact ⟨[], high, low, after, hsegment, hdigits⟩
    · exact ⟨c :: before, high, low, after, by rw [hsegment, List.cons_append], hdigits⟩

/-- The number of places where an escape starts. -/
def escapes : List Char → Nat
  | [] => 0
  | c :: rest => (if startsEscape (c :: rest) then 1 else 0) + escapes rest

theorem escapes_pos_iff {segment : List Char} : 0 < escapes segment ↔ HasEscape segment := by
  induction segment with
  | nil => simp [escapes, HasEscape]
  | cons c rest ih =>
    rw [hasEscape_cons, ← ih, escapes]
    split
    · next h => exact iff_of_true (by omega) (.inl h)
    · next h => rw [Nat.zero_add, or_iff_right h]

theorem not_startsEscape_of_ne {c : Char} (hc : c ≠ '%') (rest : List Char) :
    ¬startsEscape (c :: rest) = true := by
  intro h
  obtain ⟨high, low, after, hsegment, -⟩ := startsEscape_iff.mp h
  exact hc (List.cons.inj hsegment).1

/-- No escape starts within an escape. -/
theorem escapes_escape {high low : Char} (hhigh : IsHexDigit high) (hlow : IsHexDigit low)
    (rest : List Char) : escapes ('%' :: high :: low :: rest) = 1 + escapes rest := by
  have ne_percent {c : Char} (h : IsHexDigit c) : c ≠ '%' := by
    rintro rfl
    exact absurd h (by decide)
  have hhighNot := not_startsEscape_of_ne (ne_percent hhigh) (low :: rest)
  have hlowNot := not_startsEscape_of_ne (ne_percent hlow) rest
  have hstarts : startsEscape ('%' :: high :: low :: rest) = true := decide_eq_true ⟨hhigh, hlow⟩
  rw [escapes, escapes, escapes, if_pos hstarts, if_neg hhighNot, if_neg hlowNot, Nat.zero_add,
    Nat.zero_add]

/-! ## The bytes of a segment, one escape or character at a time -/

theorem hexValue?_eq_none_iff {c : Char} : hexValue? c = none ↔ ¬IsHexDigit c := by
  unfold hexValue? IsHexDigit
  simp only [Bool.and_eq_true, decide_eq_true_eq]
  split
  · next h => simp [h]
  · split
    · next h => simp [h]
    · split
      · next h => simp [h]
      · next hdigit hupper hlower => simp [hdigit, hupper, hlower]

theorem exists_hexValue? {c : Char} (h : IsHexDigit c) : ∃ n, hexValue? c = some n :=
  Option.ne_none_iff_exists'.mp fun hnone => hexValue?_eq_none_iff.mp hnone h

theorem isHexDigit_of_hexValue? {c : Char} {n : Nat} (h : hexValue? c = some n) : IsHexDigit c :=
  Decidable.byContradiction fun hnot => by
    rw [hexValue?_eq_none_iff.mpr hnot] at h
    cases h

/-- A character that starts no escape stands for its own bytes. -/
theorem bytes_cons_of_not_startsEscape {c : Char} {rest : List Char} (h : ¬startsEscape (c :: rest) = true) :
    bytes (c :: rest) = String.utf8EncodeChar c ++ bytes rest := by
  by_cases hc : c = '%'
  · subst hc
    match rest with
    | [] => rfl
    | [_] => rfl
    | high :: low :: after =>
      rw [bytes]
      split
      · next m n hm hn =>
        have hdigits := And.intro (isHexDigit_of_hexValue? hm) (isHexDigit_of_hexValue? hn)
        exact absurd (decide_eq_true hdigits) h
      · rfl
  · exact bytes_cons_of_ne hc rest

/-- A segment without escapes stands for its own bytes. -/
theorem bytes_of_not_hasEscape {segment : List Char} (h : ¬HasEscape segment) :
    bytes segment = Utf8.encode segment := by
  induction segment with
  | nil => rfl
  | cons c rest ih =>
    rw [hasEscape_cons, not_or] at h
    rw [bytes_cons_of_not_startsEscape h.1, ih h.2, encode_cons]

/-- **A segment is read as at most its characters, and two less for each escape**, also behind bytes
that leave a scalar value open. -/
theorem length_scan_bytes_le : ∀ (segment : List Char) (open? : Option Partial),
    (∀ p ∈ open?, p.Bounded) →
      (scan open? (bytes segment)).length + 2 * escapes segment ≤
        (finish open?).length + segment.length
  | [], open?, _ => Nat.le_refl _
  | c :: rest, open?, hbounded => by
    by_cases hstarts : startsEscape (c :: rest) = true
    · obtain ⟨high, low, after, hsegment, hhigh, hlow⟩ := startsEscape_iff.mp hstarts
      obtain ⟨m, hm⟩ := exists_hexValue? hhigh
      obtain ⟨n, hn⟩ := exists_hexValue? hlow
      have hstep := length_step_le open? (UInt8.ofNat (m * 16 + n))
      have hafter := length_scan_bytes_le after (step open? (UInt8.ofNat (m * 16 + n))).2
        fun p hp => bounded_of_step hp
      rw [hsegment, bytes_escape hm hn, scan, List.length_append, escapes_escape hhigh hlow]
      simp only [List.length_cons]
      omega
    · have hrest := length_scan_bytes_le rest none bounded_none
      rw [bytes_cons_of_not_startsEscape hstarts, scan_open_encodeChar hbounded, escapes,
        if_neg hstarts, List.length_append, List.length_cons, List.length_cons]
      change _ ≤ 0 + rest.length at hrest
      omega
  termination_by segment => segment.length
  decreasing_by
    · rw [hsegment]
      simp only [List.length_cons]
      omega
    · exact Nat.lt_succ_self _

/-! ## Decoded segments -/

theorem length_decodeChars_le (segment : List Char) :
    (decodeChars segment).length + 2 * escapes segment ≤ segment.length := by
  have h := length_scan_bytes_le segment none bounded_none
  change _ ≤ 0 + segment.length at h
  rw [decodeChars, decodeLossy, List.length_map]
  omega

theorem decodeChars_of_not_hasEscape {segment : List Char} (h : ¬HasEscape segment) :
    decodeChars segment = segment := by
  have hread := decodeLossy_encode_append segment []
  rw [List.append_nil, show decodeLossy [] = [] from rfl, List.append_nil] at hread
  rw [decodeChars, bytes_of_not_hasEscape h, hread]

/-- **Decoding touches only escapes, and never makes a segment longer.** A segment without escapes is
decoded as itself, any other gets shorter, and none but the empty one is decoded as nothing. -/
theorem decode_touches_only_escapes (t : String) :
    (decode t).length ≤ t.length ∧
      (decode t = t ↔ ¬HasEscape t.toList) ∧
      ((decode t).length < t.length ↔ HasEscape t.toList) ∧
      (decode t = "" ↔ t = "") := by
  have hlength : (decode t).length + 2 * escapes t.toList ≤ t.length := by
    rw [decode, String.length_ofList, ← String.length_toList]
    exact length_decodeChars_le t.toList
  have hkept (h : ¬HasEscape t.toList) : decode t = t := by
    rw [decode, decodeChars_of_not_hasEscape h, String.ofList_toList]
  have hshorter (h : HasEscape t.toList) : (decode t).length < t.length := by
    have hpos := escapes_pos_iff.mpr h
    omega
  refine ⟨by omega, ⟨fun h hescape => ?_, hkept⟩, ⟨fun hless => ?_, hshorter⟩, ?_⟩
  · have hless := hshorter hescape
    rw [h] at hless
    exact Nat.lt_irrefl _ hless
  · apply Classical.byContradiction
    intro hnone
    rw [hkept hnone] at hless
    exact Nat.lt_irrefl _ hless
  · rw [decode, String.ofList_eq_empty_iff, decodeChars_eq_nil, String.toList_eq_nil_iff]

/-- Bytes of escapes do not join a character beside them, and a percent sign alone is none. -/
example : decode "%41%C3é%A9%4" = "A\uFFFDé\uFFFD%4" := by decide

end BuildBrowser.Segment
