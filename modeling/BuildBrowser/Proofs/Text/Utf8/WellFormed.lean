import BuildBrowser.Proofs.Text.Utf8

/-!
# Reading any bytes as UTF-8

Written text is read as itself; this module is about bytes that nothing was written as. A first byte
is told by its range (`FirstByte`), and the bytes after it by the bounds that are kept of what is open:
they are always bounds of continuation bytes (`Partial.Bounded`), so no written scalar value starts
between them.

**The laws.**

- `decode?_eq_some_iff`: the strict reading accepts written text and nothing else. A scalar value that
  is read first was written first (`exists_encodeChar`), by the four kinds of first bytes; the text
  follows by induction.
- `scan_open_encodeChar`: whatever is open, a written scalar value ends it as ill-formed and is then
  read as itself. So it is never split by what stands before it, and joins nothing.
- `length_step_le`: one byte adds at most one to what is decided and what is open together.
-/

namespace BuildBrowser.Utf8

/-! ## The ranges of first bytes -/

theorem lead_stray_tail : ∀ n < 66, lead (UInt8.ofNat (n + 0x80)) = .stray := by decide

theorem lead_stray_high : ∀ n < 11, lead (UInt8.ofNat (n + 0xF5)) = .stray := by decide

/-- A byte where a scalar value may start: it is ASCII, or the first of two, three or four bytes, or
starts nothing. -/
inductive FirstByte : UInt8 → Prop
  | ascii {n : Nat} (lt : n < 0x80) : FirstByte (UInt8.ofNat n)
  | two {n : Nat} (lt : n < 32) (shortest : 2 ≤ n) : FirstByte (UInt8.ofNat (n + 0xC0))
  | three {n : Nat} (lt : n < 16) : FirstByte (UInt8.ofNat (n + 0xE0))
  | four {n : Nat} (lt : n < 5) : FirstByte (UInt8.ofNat (n + 0xF0))
  | stray {b : UInt8} (stray : lead b = .stray) : FirstByte b

theorem firstByte (b : UInt8) : FirstByte b := by
  have hb : b = UInt8.ofNat b.toNat := UInt8.ofNat_toNat.symm
  have hlt : b.toNat < 256 := b.toNat_lt
  rw [hb]
  generalize b.toNat = n at hlt
  by_cases hascii : n < 0x80
  · exact .ascii hascii
  by_cases htail : n < 0xC2
  · obtain ⟨k, rfl⟩ := Nat.exists_eq_add_of_le' (Nat.le_of_not_lt hascii)
    exact .stray (lead_stray_tail k (by omega))
  by_cases htwo : n < 0xE0
  · obtain ⟨k, rfl⟩ : ∃ k, n = k + 0xC0 := ⟨n - 0xC0, by omega⟩
    exact .two (by omega) (by omega)
  by_cases hthree : n < 0xF0
  · obtain ⟨k, rfl⟩ := Nat.exists_eq_add_of_le' (Nat.le_of_not_lt htwo)
    exact .three (by omega)
  by_cases hfour : n < 0xF5
  · obtain ⟨k, rfl⟩ := Nat.exists_eq_add_of_le' (Nat.le_of_not_lt hthree)
    exact .four (by omega)
  · obtain ⟨k, rfl⟩ := Nat.exists_eq_add_of_le' (Nat.le_of_not_lt hfour)
    exact .stray (lead_stray_high k (by omega))

/-! ## The bounds of what is open -/

/-- The next byte of an open scalar value lies between the bounds of continuation bytes. -/
structure Partial.Bounded (p : Partial) : Prop where
  low : 0x80 ≤ p.low.toNat
  high : p.high.toNat ≤ 0xBF

theorem Partial.bounded_continuation (bits due : Nat) : Partial.Bounded ⟨bits, due, 0x80, 0xBF⟩ :=
  ⟨Nat.le_refl 0x80, Nat.le_refl 0xBF⟩

theorem bounded_none : ∀ p ∈ (none : Option Partial), p.Bounded := by
  intro p hp
  cases hp

theorem bounded_of_lead {b : UInt8} {p : Partial} (h : lead b = .opens p) : p.Bounded := by
  cases firstByte b with
  | ascii hn =>
    rw [lead_ascii _ hn] at h
    cases h
  | two hn htwo =>
    rw [lead_two _ hn htwo] at h
    cases h
    exact Partial.bounded_continuation _ 0
  | three hn =>
    rw [lead_three _ hn] at h
    cases h
    exact ⟨by dsimp only; split <;> decide, by dsimp only; split <;> decide⟩
  | four hn =>
    rw [lead_four _ hn] at h
    cases h
    exact ⟨by dsimp only; split <;> decide, by dsimp only; split <;> decide⟩
  | stray hstray =>
    rw [hstray] at h
    cases h

theorem bounded_of_start {b : UInt8} {p : Partial} (h : p ∈ (start b).2) : p.Bounded := by
  unfold start at h
  cases hlead : lead b with
  | scalar c =>
    rw [hlead] at h
    cases h
  | opens q =>
    rw [hlead] at h
    cases h
    exact bounded_of_lead hlead
  | stray =>
    rw [hlead] at h
    cases h

theorem Partial.bounded_of_push {p q : Partial} {b : UInt8} (h : p.push b = .inr q) : q.Bounded := by
  unfold Partial.push at h
  dsimp only at h
  split at h
  · cases h
  · rw [← Sum.inr.inj h]
    exact Partial.bounded_continuation _ _

/-- What a byte leaves open is bounded. -/
theorem bounded_of_step {open? : Option Partial} {b : UInt8} {p : Partial}
    (h : p ∈ (step open? b).2) : p.Bounded := by
  cases open? with
  | none => exact bounded_of_start h
  | some q =>
    unfold step at h
    dsimp only at h
    split at h
    · cases hpush : q.push b with
      | inl c =>
        rw [hpush] at h
        cases h
      | inr r =>
        rw [hpush] at h
        cases h
        exact Partial.bounded_of_push hpush
    · exact bounded_of_start h

/-! ## Well-formed bytes -/

theorem encodeChar_two {n x : Nat} (hn : n < 32) (htwo : 2 ≤ n) (hx : x < 64) :
    String.utf8EncodeChar (Char.ofNat (n * 64 + x)) = [UInt8.ofNat (n + 0xC0), UInt8.ofNat (x + 0x80)] := by
  have hlead : (n * 64 + x) / 64 % 32 = n := by omega
  have htail : (n * 64 + x) % 64 = x := by omega
  have hv : (Char.ofNat (n * 64 + x)).val.toNat = n * 64 + x := toNat_ofNat (.inl (by omega))
  simp only [String.utf8EncodeChar, hv]
  rw [if_neg (by omega), if_pos (by omega), hlead, htail]

theorem encodeChar_three {n x y : Nat} (hn : n < 16) (hx : x < 64) (hy : y < 64)
    (hlow : n = 0 → 0x20 ≤ x) (hhigh : n = 13 → x < 0x20) :
    String.utf8EncodeChar (Char.ofNat ((n * 64 + x) * 64 + y)) =
      [UInt8.ofNat (n + 0xE0), UInt8.ofNat (x + 0x80), UInt8.ofNat (y + 0x80)] := by
  have hlead : ((n * 64 + x) * 64 + y) / 4096 % 16 = n := by omega
  have hnext : ((n * 64 + x) * 64 + y) / 64 % 64 = x := by omega
  have htail : ((n * 64 + x) * 64 + y) % 64 = y := by omega
  have hvalid : ((n * 64 + x) * 64 + y).isValidChar := by
    unfold Nat.isValidChar
    omega
  have hv : (Char.ofNat ((n * 64 + x) * 64 + y)).val.toNat = (n * 64 + x) * 64 + y :=
    toNat_ofNat hvalid
  simp only [String.utf8EncodeChar, hv]
  rw [if_neg (by omega), if_neg (by omega), if_pos (by omega), hlead, hnext, htail]

theorem encodeChar_four {n x y z : Nat} (hn : n < 5) (hx : x < 64) (hy : y < 64) (hz : z < 64)
    (hlow : n = 0 → 0x10 ≤ x) (hhigh : n = 4 → x < 0x10) :
    String.utf8EncodeChar (Char.ofNat (((n * 64 + x) * 64 + y) * 64 + z)) =
      [UInt8.ofNat (n + 0xF0), UInt8.ofNat (x + 0x80), UInt8.ofNat (y + 0x80), UInt8.ofNat (z + 0x80)] := by
  have hlead : (((n * 64 + x) * 64 + y) * 64 + z) / 262144 % 8 = n := by omega
  have hnext : (((n * 64 + x) * 64 + y) * 64 + z) / 4096 % 64 = x := by omega
  have hthird : (((n * 64 + x) * 64 + y) * 64 + z) / 64 % 64 = y := by omega
  have htail : (((n * 64 + x) * 64 + y) * 64 + z) % 64 = z := by omega
  have hv : (Char.ofNat (((n * 64 + x) * 64 + y) * 64 + z)).val.toNat =
      ((n * 64 + x) * 64 + y) * 64 + z := toNat_ofNat (.inr (by omega))
  simp only [String.utf8EncodeChar, hv]
  rw [if_neg (by omega), if_neg (by omega), if_neg (by omega), hlead, hnext, hthird, htail]

/-- If what is open is read as a scalar value, then a continuation byte within the bounds comes next,
and either completes it or is followed by the rest of it. -/
theorem exists_tail {p : Partial} (hp : p.Bounded) {bytes : Bytes} {c : Char} {out : List (Option Char)}
    (h : scan (some p) bytes = some c :: out) :
    ∃ x < 64, p.low.toNat ≤ x + 0x80 ∧ x + 0x80 ≤ p.high.toNat ∧
      ∃ rest, bytes = UInt8.ofNat (x + 0x80) :: rest ∧
        match p.due with
        | 0 => Char.ofNat (p.bits * 64 + x) = c ∧ scan none rest = out
        | due + 1 => scan (some ⟨p.bits * 64 + x, due, 0x80, 0xBF⟩) rest = some c :: out := by
  cases bytes with
  | nil => cases h
  | cons b rest =>
    by_cases hadmits : p.admits b = true
    · have hlow := hp.low
      have hhigh := hp.high
      simp only [Partial.admits, UInt8.le_iff_toNat_le, decide_eq_true_eq] at hadmits
      obtain ⟨x, hx⟩ : ∃ x, b.toNat = x + 0x80 := ⟨b.toNat - 0x80, by omega⟩
      have hb : b = UInt8.ofNat (x + 0x80) := by rw [← hx, UInt8.ofNat_toNat]
      rw [hb, scan_tail (by omega) (by omega) (by omega)] at h
      refine ⟨x, by omega, by omega, by omega, rest, by rw [hb], ?_⟩
      obtain ⟨bits, due, low, high⟩ := p
      cases due with
      | zero => exact ⟨Option.some.inj (List.cons.inj h).1, (List.cons.inj h).2⟩
      | succ due => exact h
    · simp only [scan, step, hadmits] at h
      cases h

/-- **A scalar value that is read first was written first.** The first byte tells how many follow, and
each of those gives six bits. -/
theorem exists_encodeChar {bytes : Bytes} {c : Char} {out : List (Option Char)}
    (h : scan none bytes = some c :: out) :
    ∃ rest, bytes = String.utf8EncodeChar c ++ rest ∧ scan none rest = out := by
  cases bytes with
  | nil => cases h
  | cons b rest =>
    cases firstByte b with
    | @ascii n hn =>
      have hchar : (Char.ofNat n).toNat = n := toNat_ofNat (.inl (by omega))
      simp only [scan, step, start, lead_ascii n hn, List.singleton_append] at h
      obtain ⟨hc, hout⟩ := List.cons.inj h
      refine ⟨rest, ?_, hout⟩
      rw [← Option.some.inj hc, encodeChar_ascii (by rw [hchar]; exact hn), hchar]
      rfl
    | @two n hn htwo =>
      have hlead := lead_two n hn htwo
      rw [scan_opens hlead] at h
      obtain ⟨x, hx, -, -, rest, rfl, rfl, hout⟩ := exists_tail (bounded_of_lead hlead) h
      refine ⟨rest, ?_, hout⟩
      rw [encodeChar_two hn htwo hx]
      rfl
    | @three n hn =>
      have hlead := lead_three n hn
      rw [scan_opens hlead] at h
      obtain ⟨x, hx, hlow, hhigh, rest, rfl, hsecond⟩ := exists_tail (bounded_of_lead hlead) h
      obtain ⟨y, hy, -, -, rest, rfl, rfl, hout⟩ :=
        exists_tail (Partial.bounded_continuation _ _) hsecond
      refine ⟨rest, ?_, hout⟩
      rw [encodeChar_three hn hx hy ?low ?high]
      · rfl
      case low =>
        intro hzero
        rw [if_pos hzero] at hlow
        change 0xA0 ≤ x + 0x80 at hlow
        omega
      case high =>
        intro hlast
        rw [if_pos hlast] at hhigh
        change x + 0x80 ≤ 0x9F at hhigh
        omega
    | @four n hn =>
      have hlead := lead_four n hn
      rw [scan_opens hlead] at h
      obtain ⟨x, hx, hlow, hhigh, rest, rfl, hsecond⟩ := exists_tail (bounded_of_lead hlead) h
      obtain ⟨y, hy, -, -, rest, rfl, hthird⟩ :=
        exists_tail (Partial.bounded_continuation _ _) hsecond
      obtain ⟨z, hz, -, -, rest, rfl, rfl, hout⟩ :=
        exists_tail (Partial.bounded_continuation _ _) hthird
      refine ⟨rest, ?_, hout⟩
      rw [encodeChar_four hn hx hy hz ?low ?high]
      · rfl
      case low =>
        intro hzero
        rw [if_pos hzero] at hlow
        change 0x90 ≤ x + 0x80 at hlow
        omega
      case high =>
        intro hlast
        rw [if_pos hlast] at hhigh
        change x + 0x80 ≤ 0x8F at hhigh
        omega
    | stray hstray =>
      simp only [scan, step, start, hstray, List.singleton_append] at h
      cases h

/-- Bytes that are read as scalar values only are the text of these. -/
theorem eq_encode_of_scan {text : List Char} {bytes : Bytes} (h : scan none bytes = text.map some) :
    bytes = encode text := by
  induction text generalizing bytes with
  | nil =>
    cases bytes with
    | nil => rfl
    | cons b rest => exact absurd (by rw [decodeLossy, h]; rfl) (decodeLossy_ne_nil (List.cons_ne_nil b rest))
  | cons c text ih =>
    obtain ⟨rest, rfl, hrest⟩ := exists_encodeChar h
    rw [encode_cons, ← ih hrest]

/-- **The strict reading accepts written text and nothing else.** -/
theorem decode?_eq_some_iff {bytes : Bytes} {text : List Char} :
    decode? bytes = some text ↔ bytes = encode text := by
  rw [decode?, mapM_id_eq_some_iff]
  constructor
  · exact eq_encode_of_scan
  · intro h
    have hread := scan_encode text []
    rw [List.append_nil, ← h] at hread
    rw [hread]
    exact List.append_nil _

/-! ## What is open before written text -/

/-- A written scalar value does not start with a continuation byte. -/
theorem exists_first_encodeChar (c : Char) :
    ∃ b rest, String.utf8EncodeChar c = b :: rest ∧ (b.toNat < 0x80 ∨ 0xBF < b.toNat) := by
  unfold String.utf8EncodeChar
  dsimp only
  split
  · exact ⟨_, _, rfl, .inl (by rw [UInt8.toNat_ofNat']; omega)⟩
  · split
    · exact ⟨_, _, rfl, .inr (by rw [UInt8.toNat_ofNat']; omega)⟩
    · split
      · exact ⟨_, _, rfl, .inr (by rw [UInt8.toNat_ofNat']; omega)⟩
      · exact ⟨_, _, rfl, .inr (by rw [UInt8.toNat_ofNat']; omega)⟩

/-- **A written scalar value is read as itself whatever is open**, which it ends as ill-formed. -/
theorem scan_open_encodeChar {open? : Option Partial} (h : ∀ p ∈ open?, p.Bounded) (c : Char)
    (rest : Bytes) :
    scan open? (String.utf8EncodeChar c ++ rest) = finish open? ++ some c :: scan none rest := by
  rw [← scan_encodeChar]
  cases open? with
  | none => rfl
  | some p =>
    obtain ⟨b, more, hfirst, hb⟩ := exists_first_encodeChar c
    have hlow := (h p rfl).low
    have hhigh := (h p rfl).high
    have hends : ¬p.admits b = true := by
      simp only [Partial.admits, UInt8.le_iff_toNat_le, decide_eq_true_eq]
      omega
    have hstep : step (some p) b = (none :: (start b).1, (start b).2) := by
      rw [step, if_neg hends]
    rw [hfirst, List.cons_append, scan, hstep]
    rfl

/-- **One byte adds at most one** to what is decided and what is open. -/
theorem length_step_le (open? : Option Partial) (b : UInt8) :
    (step open? b).1.length + (finish (step open? b).2).length ≤ (finish open?).length + 1 := by
  have hstart : (start b).1.length + (finish (start b).2).length = 1 := by
    unfold start
    cases lead b <;> rfl
  cases open? with
  | none =>
    rw [step, hstart]
    exact Nat.le_add_left 1 _
  | some p =>
    rw [step]
    split
    · cases p.push b <;> exact Nat.le_succ 1
    · rw [List.length_cons, Nat.add_right_comm, hstart]
      exact Nat.le_refl 2

end BuildBrowser.Utf8
