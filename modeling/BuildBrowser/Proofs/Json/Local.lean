import BuildBrowser.Proofs.Json.Kinds
import BuildBrowser.Proofs.Json.Lexical
import BuildBrowser.Proofs.Json.Numeral
import Mathlib.Data.List.TakeWhile

/-!
# Readers see only what they take

A reader that succeeds takes some bytes off its input and leaves the rest. What it gives depends on
the bytes taken alone (`Local`): with other bytes after them, it gives the same and leaves the others.
One byte of these is looked at, since a numeral has no end mark. So the others must begin with the same
byte as the rest, or must not go on with a numeral (`Follows`).

Every reader of a kind of value is local. Readers that call each other one after another pass the
property on, since what is taken last stands in front of the rest for what is taken before
(`Follows.append`).
-/

namespace BuildBrowser.Json

variable {α β σ : Type} {input rest other : Bytes}

/-- Other bytes may stand in for a rest: they begin with the same byte, or do not go on with a
numeral. -/
def Follows (rest other : Bytes) : Prop :=
  other.head? = rest.head? ∨ Stops other

theorem Follows.append (h : Follows rest other) (used : Bytes) :
    Follows (used ++ rest) (used ++ other) := by
  cases used with
  | nil => exact h
  | cons b used => exact .inl rfl

theorem follows_append_of_ne_nil {used : Bytes} (h : used ≠ []) (rest other : Bytes) :
    Follows (used ++ rest) (used ++ other) := by
  cases used with
  | nil => exact absurd rfl h
  | cons b used => exact .inl rfl

/-- What reads a numeral stops at other bytes if it stops at the rest. -/
theorem Follows.head {p : UInt8 → Prop} (h : Follows rest other) (hrest : ∀ b ∈ rest.head?, p b)
    (hp : ∀ b, isDigit b = false → b ≠ 0x2E → b ≠ 0x65 → b ≠ 0x45 → p b) :
    ∀ b ∈ other.head?, p b := by
  intro b hb
  rcases h with h | h
  · exact hrest b (h ▸ hb)
  · obtain ⟨hdigit, hpoint, he, hE⟩ := h b hb
    exact hp b hdigit hpoint he hE

/-- The reader gives `a` wherever the bytes taken stand before what may stand in for the rest. -/
def Takes (reader : Bytes → Outcome α) (used : Bytes) (a : α) (rest : Bytes) : Prop :=
  ∀ ⦃other : Bytes⦄, Follows rest other → reader (used ++ other) = .ok (a, other)

/-- What the reader gives depends on the bytes that it takes alone. It takes at least one. -/
def Local (reader : Bytes → Outcome α) : Prop :=
  ∀ ⦃input rest : Bytes⦄ ⦃a : α⦄, reader input = .ok (a, rest) →
    ∃ used, used ≠ [] ∧ input = used ++ rest ∧ Takes reader used a rest

theorem Local.map {reader : Bytes → Outcome α} (h : Local reader) (f : α → β) :
    Local fun input => (reader input).map fun (a, rest) => (f a, rest) := by
  intro input rest b hread
  obtain ⟨⟨a, after⟩, hread, heq⟩ := map_ok.mp hread
  cases heq
  obtain ⟨used, hused, rfl, htakes⟩ := h hread
  refine ⟨used, hused, rfl, fun other hother => ?_⟩
  simp only [htakes hother]
  rfl

/-! ## Blanks and first bytes -/

/-- The blanks before a byte are skipped, whatever follows it. -/
theorem exists_blanks {b : UInt8} (h : skipBlanks input = b :: rest) :
    ∃ blanks, input = blanks ++ b :: rest ∧
      ∀ other, skipBlanks (blanks ++ b :: other) = b :: other := by
  have hblank : isBlank b = false := by
    have hhead := List.head?_dropWhile_not isBlank input
    rwa [show input.dropWhile isBlank = b :: rest from h] at hhead
  refine ⟨input.takeWhile isBlank, ?_, fun other => ?_⟩
  · rw [← h]
    exact (List.takeWhile_append_dropWhile ..).symm
  · rw [skipBlanks_append fun c hc => List.mem_takeWhile_imp hc, skipBlanks_of_not_blank hblank]

/-- A reader that goes on with a local one after the first byte takes that byte, the blanks before it,
and what the other takes. -/
theorem takes_of_start {reader tail : Bytes → Outcome α} {b : UInt8} {start : Bytes} {a : α}
    (hinput : skipBlanks input = b :: start)
    (htail : ∃ used, start = used ++ rest ∧ Takes tail used a rest)
    (hreader : ∀ ⦃input start⦄, skipBlanks input = b :: start → reader input = tail start) :
    ∃ used, used ≠ [] ∧ input = used ++ rest ∧ Takes reader used a rest := by
  obtain ⟨blanks, rfl, hblanks⟩ := exists_blanks hinput
  obtain ⟨used, rfl, htakes⟩ := htail
  refine ⟨blanks ++ b :: used, by simp, by simp, fun other hother => ?_⟩
  rw [List.append_assoc, List.cons_append, hreader (hblanks _), htakes hother]

theorem Local.exists_takes {reader : Bytes → Outcome α} (h : Local reader) {a : α}
    (hread : reader input = .ok (a, rest)) : ∃ used, input = used ++ rest ∧ Takes reader used a rest := by
  obtain ⟨used, -, hinput, htakes⟩ := h hread
  exact ⟨used, hinput, htakes⟩

/-- What a local reader takes, it takes also where the result is changed. -/
theorem Local.takes_map {β : Type} {reader : Bytes → Outcome α} (h : Local reader) {a : α}
    (hread : reader input = .ok (a, rest)) (f : α → β) :
    ∃ used, input = used ++ rest ∧
      Takes (fun input => (reader input).map fun (a, rest) => (f a, rest)) used (f a) rest :=
  (h.map f).exists_takes (map_ok.mpr ⟨_, hread, rfl⟩)

/-- What a local reader takes after the first byte, where that byte is known. -/
theorem Local.takes_tail {reader : Bytes → Outcome α} (h : Local reader) {b : UInt8} {start : Bytes}
    {a : α} (hread : reader (b :: start) = .ok (a, rest)) :
    ∃ used, start = used ++ rest ∧ Takes (fun start => reader (b :: start)) used a rest := by
  obtain ⟨_ | ⟨_, used⟩, hused, hinput, htakes⟩ := h hread
  · exact absurd rfl hused
  · obtain ⟨rfl, rfl⟩ := List.cons.inj hinput
    exact ⟨used, rfl, htakes⟩

theorem word_ok {expected : Bytes} : word expected input = .ok rest ↔ input = expected ++ rest := by
  induction expected generalizing input with
  | nil => simp [word]
  | cons e expected ih =>
    cases input with
    | nil => simp [word]
    | cons b input =>
      rw [word]
      by_cases hb : b = e
      · simp [hb, ih]
      · simp [hb]

/-- A word that stands for a value takes its letters. -/
theorem takes_word {expected : Bytes} (h : word expected input = .ok rest) (a : α) :
    ∃ used, input = used ++ rest ∧
      Takes (fun input => (word expected input).map fun rest => (a, rest)) used a rest := by
  refine ⟨expected, word_ok.mp h, fun other _ => ?_⟩
  simp only [word_ok.mpr rfl]
  rfl

/-! ## Strings -/

theorem local_pieces (scan : Scan) : Local (pieces scan) := by
  intro input rest found h
  induction input generalizing scan found with
  | nil => cases h
  | cons b input ih =>
    rw [pieces] at h
    cases hmove : scan.move true b with
    | close =>
      rw [hmove] at h
      cases h
      refine ⟨[b], List.cons_ne_nil _ _, rfl, fun other _ => ?_⟩
      rw [List.singleton_append, pieces, hmove]
    | fail cause =>
      rw [hmove] at h
      cases h
    | go next piece? =>
      simp only [hmove] at h
      cases hmore : pieces next input with
      | error fault =>
        rw [hmore] at h
        cases h
      | ok more =>
        rw [hmore] at h
        cases h
        obtain ⟨used, -, rfl, htakes⟩ := ih next hmore
        exact ⟨b :: used, List.cons_ne_nil _ _, rfl,
          fun other hother => pieces_go hmove (htakes hother)⟩

theorem local_string : Local string := by
  intro input rest s h
  unfold string at h
  split at h
  · cases h
  next found after hpieces =>
    split at h
    · next text htext =>
      cases h
      obtain ⟨used, hused, hinput, htakes⟩ := local_pieces _ hpieces
      refine ⟨used, hused, hinput, fun other hother => ?_⟩
      simp only [string, htakes hother, htext]
    · cases h

end BuildBrowser.Json
