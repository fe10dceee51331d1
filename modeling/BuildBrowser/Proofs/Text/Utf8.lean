import BuildBrowser.Text.Utf8

/-!
# Reading UTF-8 after writing it

`scan` reads one byte at a time, `encode` writes one scalar value at a time. The bridge is the first
byte: `lead_ascii`, `lead_two`, `lead_three` and `lead_four` say what the first byte of a written
scalar value opens, and `scan_tail` says what one continuation byte does to what is open. From them
`scan_encodeChar` follows by the four lengths of a written scalar value, and by induction on the text
the laws that this module is for:

- `scan_encode`: a written text is read as itself, in front of any bytes;
- `decodeLossy_encode_append`: so the lenient reading undoes writing, in front of any bytes.

`feed` is the part of a reading that is done before the input ends, for readers that stop within it.

Of bytes that are not written text, `decodeLossy_ne_nil` says that they are read as something.
-/

namespace BuildBrowser.Utf8

/-! ## First bytes -/

theorem lead_ascii : ∀ n < 0x80, lead (UInt8.ofNat n) = .scalar (Char.ofNat n) := by decide

theorem lead_two : ∀ n < 32, 2 ≤ n → lead (UInt8.ofNat (n + 0xC0)) = .opens ⟨n, 0, 0x80, 0xBF⟩ := by
  decide

theorem lead_three : ∀ n < 16, lead (UInt8.ofNat (n + 0xE0)) =
    .opens ⟨n, 1, if n = 0 then 0xA0 else 0x80, if n = 13 then 0x9F else 0xBF⟩ := by
  decide

theorem lead_four : ∀ n < 5, lead (UInt8.ofNat (n + 0xF0)) =
    .opens ⟨n, 2, if n = 0 then 0x90 else 0x80, if n = 4 then 0x8F else 0xBF⟩ := by
  decide

/-! ## Continuation bytes -/

theorem toNat_tail {x : Nat} (hx : x < 64) : (UInt8.ofNat (x + 0x80)).toNat = x + 0x80 := by
  simp; omega

/-- A continuation byte within the bounds adds its six bits, and closes the scalar value if no more
bytes are due. -/
theorem scan_tail {p : Partial} {x : Nat} (hx : x < 64) (hlow : p.low.toNat ≤ x + 0x80)
    (hhigh : x + 0x80 ≤ p.high.toNat) (rest : Bytes) :
    scan (some p) (UInt8.ofNat (x + 0x80) :: rest) =
      match p.due with
      | 0 => some (Char.ofNat (p.bits * 64 + x)) :: scan none rest
      | due + 1 => scan (some ⟨p.bits * 64 + x, due, 0x80, 0xBF⟩) rest := by
  have hbyte := toNat_tail hx
  have hadmits : p.admits (UInt8.ofNat (x + 0x80)) = true := by
    simp only [Partial.admits, UInt8.le_iff_toNat_le, hbyte, decide_eq_true_eq]
    exact ⟨hlow, hhigh⟩
  have hbits : x + 0x80 - 0x80 = x := by omega
  obtain ⟨bits, due, low, high⟩ := p
  cases due with
  | zero => simp only [scan, step, hadmits, Partial.push, hbyte, hbits, if_true, List.singleton_append]
  | succ due => simp only [scan, step, hadmits, Partial.push, hbyte, hbits, if_true, List.nil_append]

/-! ## Scalar values and texts -/

theorem scan_opens {b : UInt8} {p : Partial} (h : lead b = .opens p) (rest : Bytes) :
    scan none (b :: rest) = scan (some p) rest := by
  simp only [scan, step, start, h, List.nil_append]

theorem toNat_ofNat {n : Nat} (h : n.isValidChar) : (Char.ofNat n).toNat = n := by
  rw [Char.ofNat, dif_pos h]
  rfl

theorem encodeChar_ascii {c : Char} (h : c.toNat < 0x80) :
    String.utf8EncodeChar c = [UInt8.ofNat c.toNat] := by
  rw [String.utf8EncodeChar]
  exact if_pos (Nat.le_of_lt_succ h)

theorem encode_cons (c : Char) (text : List Char) :
    encode (c :: text) = String.utf8EncodeChar c ++ encode text :=
  List.flatMap_cons

theorem encode_append (text more : List Char) : encode (text ++ more) = encode text ++ encode more :=
  List.flatMap_append

/-- An ASCII character is written as its code. -/
theorem encode_ascii {c : Char} (h : c.toNat < 0x80) (text : List Char) :
    encode (c :: text) = UInt8.ofNat c.toNat :: encode text := by
  rw [encode_cons, encodeChar_ascii h, List.singleton_append]

/-- A written scalar value that is not ASCII has no ASCII byte. -/
theorem le_of_mem_encodeChar {c : Char} {b : UInt8} (hb : b ∈ String.utf8EncodeChar c)
    (hc : 0x80 ≤ c.toNat) : 0x80 ≤ b := by
  have above {x : Nat} (hlow : 0x80 ≤ x) (hx : x < 256) : 0x80 ≤ UInt8.ofNat x := by
    rw [UInt8.le_iff_toNat_le, UInt8.toNat_ofNat', Nat.mod_eq_of_lt hx]
    exact hlow
  unfold String.utf8EncodeChar at hb
  simp only [show c.val.toNat = c.toNat from rfl] at hb
  generalize c.toNat = v at hb hc
  split at hb
  · omega
  · split at hb
    · simp only [List.mem_cons, List.not_mem_nil, or_false] at hb
      rcases hb with rfl | rfl <;> exact above (by omega) (by omega)
    · split at hb
      · simp only [List.mem_cons, List.not_mem_nil, or_false] at hb
        rcases hb with rfl | rfl | rfl <;> exact above (by omega) (by omega)
      · simp only [List.mem_cons, List.not_mem_nil, or_false] at hb
        rcases hb with rfl | rfl | rfl | rfl <;> exact above (by omega) (by omega)

/-- **A written scalar value is read as itself**, whatever follows it. -/
theorem scan_encodeChar (c : Char) (rest : Bytes) :
    scan none (String.utf8EncodeChar c ++ rest) = some c :: scan none rest := by
  have hvalid : c.toNat < 0xD800 ∨ 0xDFFF < c.toNat ∧ c.toNat < 0x110000 := c.valid
  have hc : Char.ofNat c.toNat = c := Char.ofNat_toNat c
  unfold String.utf8EncodeChar
  simp only [show c.val.toNat = c.toNat from rfl]
  generalize c.toNat = v at hvalid hc
  split
  · next h1 =>
    simp only [List.singleton_append, scan, step, start, lead_ascii v (by omega), hc]
  · split
    · next h1 h2 =>
      have hlead : v / 64 % 0x20 = v / 64 := by omega
      have hbits : v / 64 * 64 + v % 64 = v := by omega
      rw [List.cons_append, hlead, scan_opens (lead_two _ (by omega) (by omega)), List.cons_append,
        scan_tail (by omega) (by simp) (by simp; omega), List.nil_append]
      simp only [hbits, hc]
    · split
      · next h1 h2 h3 =>
        have hlead : v / 4096 % 0x10 = v / 4096 := by omega
        have hbits : (v / 4096 * 64 + v / 64 % 64) * 64 + v % 64 = v := by omega
        rw [List.cons_append, hlead, scan_opens (lead_three _ (by omega)), List.cons_append,
          scan_tail (by omega) (by dsimp only; split <;> simp <;> omega)
            (by dsimp only; split <;> simp <;> omega)]
        dsimp only
        rw [List.cons_append, scan_tail (by omega) (by simp) (by simp; omega), List.nil_append]
        simp only [hbits, hc]
      · next h1 h2 h3 =>
        have hlead : v / 262144 % 0x08 = v / 262144 := by omega
        have hbits : ((v / 262144 * 64 + v / 4096 % 64) * 64 + v / 64 % 64) * 64 + v % 64 = v := by
          omega
        rw [List.cons_append, hlead, scan_opens (lead_four _ (by omega)), List.cons_append,
          scan_tail (by omega) (by dsimp only; split <;> simp <;> omega)
            (by dsimp only; split <;> simp <;> omega)]
        dsimp only
        rw [List.cons_append, scan_tail (by omega) (by simp) (by simp; omega)]
        dsimp only
        rw [List.cons_append, scan_tail (by omega) (by simp) (by simp; omega), List.nil_append]
        simp only [hbits, hc]

/-- Written text is read as itself, whatever bytes follow it. -/
theorem scan_encode (text : List Char) (rest : Bytes) :
    scan none (encode text ++ rest) = text.map some ++ scan none rest := by
  induction text with
  | nil => rfl
  | cons c text ih =>
    simp only [encode, List.flatMap_cons, List.append_assoc] at ih ⊢
    rw [scan_encodeChar, ih]
    rfl

/-- A reading without ill-formed pieces is the text of its scalar values. -/
theorem mapM_id_eq_some_iff {entries : List (Option Char)} {text : List Char} :
    entries.mapM id = some text ↔ entries = text.map some := by
  constructor
  · intro h
    induction entries generalizing text with
    | nil =>
      cases h
      rfl
    | cons entry entries ih =>
      rw [List.mapM_cons] at h
      obtain ⟨c, hc, h⟩ := Option.bind_eq_some_iff.mp h
      obtain ⟨rest, hrest, heq⟩ := Option.bind_eq_some_iff.mp h
      cases heq
      rw [List.map_cons, ← ih hrest, show entry = some c from hc]
  · intro h
    subst h
    induction text with
    | nil => rfl
    | cons c text ih =>
      rw [List.map_cons, List.mapM_cons, ih]
      rfl

/-- Reading leniently undoes writing, also in front of other bytes. -/
theorem decodeLossy_encode_append (text : List Char) (rest : Bytes) :
    decodeLossy (encode text ++ rest) = text ++ decodeLossy rest := by
  have hread : (text.map some).map (·.getD '\uFFFD') = text := by
    rw [List.map_map]
    exact List.map_id text
  rw [decodeLossy, scan_encode, List.map_append, hread, decodeLossy]

/-! ## Bytes in parts -/

/-- What is decided on the way through bytes, and the state after them. -/
def feed (open? : Option Partial) : Bytes → List (Option Char) × Option Partial
  | [] => ([], open?)
  | b :: rest => ((step open? b).1 ++ (feed (step open? b).2 rest).1, (feed (step open? b).2 rest).2)

theorem scan_append (open? : Option Partial) (bytes rest : Bytes) :
    scan open? (bytes ++ rest) = (feed open? bytes).1 ++ scan (feed open? bytes).2 rest := by
  induction bytes generalizing open? with
  | nil => rfl
  | cons b bytes ih => rw [List.cons_append, scan, ih, feed, List.append_assoc]

/-- The bytes of a scalar value decide it and leave nothing open. -/
theorem feed_encodeChar (c : Char) : feed none (String.utf8EncodeChar c) = ([some c], none) := by
  have h := scan_append none (String.utf8EncodeChar c) []
  rw [scan_encodeChar] at h
  generalize feed none (String.utf8EncodeChar c) = fed at h ⊢
  obtain ⟨decided, open?⟩ := fed
  cases open? with
  | none =>
    simp only [scan, finish, List.append_nil] at h
    rw [h]
  | some p =>
    have hlast := congrArg List.getLast? h
    simp [scan, finish] at hlast

/-! ## Any bytes -/

/-- A scalar value that is open gets decided, as itself or as an ill-formed piece. -/
theorem scan_open_ne_nil (p : Partial) (bytes : Bytes) : scan (some p) bytes ≠ [] := by
  induction bytes generalizing p with
  | nil => exact List.cons_ne_nil _ _
  | cons b rest ih =>
    rw [scan]
    by_cases hadmits : p.admits b = true
    · cases hpush : p.push b with
      | inl c => simp [step, hadmits, hpush]
      | inr q => simpa [step, hadmits, hpush] using ih q
    · simp [step, hadmits]

/-- Any bytes are read as something. -/
theorem decodeLossy_ne_nil {bytes : Bytes} (h : bytes ≠ []) : decodeLossy bytes ≠ [] := by
  obtain ⟨b, rest, rfl⟩ := List.exists_cons_of_ne_nil h
  intro hempty
  have hscan : scan none (b :: rest) = [] := List.map_eq_nil_iff.mp hempty
  cases hlead : lead b with
  | scalar c => simp [scan, step, start, hlead] at hscan
  | opens p => exact scan_open_ne_nil p rest ((scan_opens hlead rest).symm.trans hscan)
  | stray => simp [scan, step, start, hlead] at hscan

end BuildBrowser.Utf8
