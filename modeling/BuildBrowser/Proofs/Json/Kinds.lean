import BuildBrowser.Proofs.Json.Loop

/-!
# Readers by the kind of what they read

The first byte of a value that is not blank says of what kind it is. So a reader of any value
(`valueWith`) reads a string, a list or an object as the reader of that kind does, and each of these
is opened here once, by an equivalence: `text_ok`, `list_ok`, `fold_ok` for the readers of one kind,
and the fields of `ReadsKinds` for a reader of any value.
-/

namespace BuildBrowser.Json

variable {α σ : Type} {input rest : Bytes}

theorem map_ok {ε α β : Type} {x : Except ε α} {f : α → β} {b : β} :
    x.map f = .ok b ↔ ∃ a, x = .ok a ∧ f a = b := by
  cases x <;> simp [Except.map]

theorem mapError_ok {ε ε' α : Type} {x : Except ε α} {f : ε → ε'} {a : α} :
    x.mapError f = .ok a ↔ x = .ok a := by
  cases x <;> simp [Except.mapError]

/-! ## Readers of one kind -/

theorem text_ok {n : Nat} {s : String} :
    text n input = .ok (s, rest) ↔
      ∃ start, skipBlanks input = 0x22 :: start ∧ string start = .ok (s, rest) := by
  unfold text
  constructor
  · intro h
    split at h
    · next start hstart => exact ⟨start, hstart, h⟩
    · cases h
  · rintro ⟨start, hstart, h⟩
    simp [hstart, h]

/-- A list was read as a list of items that were read. -/
theorem list_ok {item : Decoder α} {n : Nat} {as : List α} :
    list item n input = .ok (as, rest) ↔
      ∃ m start, n = m + 1 ∧ skipBlanks input = 0x5B :: start ∧
        items (item m) start = .ok (as, rest) := by
  unfold list
  constructor
  · intro h
    split at h
    · next start hstart =>
      cases n with
      | zero => cases h
      | succ m => exact ⟨m, start, rfl, hstart, h⟩
    · cases h
  · rintro ⟨m, start, rfl, hstart, h⟩
    simp [hstart, h]

/-- An object was read as the fold of members that were read. -/
theorem fold_ok {wanted : Wanted} {member : (allowance : Nat) → σ → String → Bytes → Outcome σ}
    {s t : σ} {n : Nat} :
    fold wanted member s n input = .ok (t, rest) ↔
      ∃ m start, n = m + 1 ∧ skipBlanks input = 0x7B :: start ∧
        members (member m) s start = .ok (t, rest) := by
  unfold fold
  constructor
  · intro h
    split at h
    · next start hstart =>
      cases n with
      | zero => cases h
      | succ m => exact ⟨m, start, rfl, hstart, h⟩
    · cases h
  · rintro ⟨m, start, rfl, hstart, h⟩
    simp [hstart, h]

/-! ## Readers of any value -/

variable {list object : Bytes → Outcome Value} {v : Value}

/-- How a value was read: the byte that it starts with, and what read the bytes after it. -/
inductive ReadAs (list object : Bytes → Outcome Value) (input rest : Bytes) : Value → Prop
  | null {start : Bytes} (hinput : skipBlanks input = 0x6E :: start)
      (h : word nullTail start = .ok rest) : ReadAs list object input rest .null
  | true {start : Bytes} (hinput : skipBlanks input = 0x74 :: start)
      (h : word trueTail start = .ok rest) : ReadAs list object input rest (.bool .true)
  | false {start : Bytes} (hinput : skipBlanks input = 0x66 :: start)
      (h : word falseTail start = .ok rest) : ReadAs list object input rest (.bool .false)
  | negative {start : Bytes} {n : Number} (hinput : skipBlanks input = 0x2D :: start)
      (h : number .true start = .ok (n, rest)) : ReadAs list object input rest (.number n)
  | digits {b : UInt8} {start : Bytes} {n : Number} (hb : isDigit b = .true)
      (hinput : skipBlanks input = b :: start) (h : number .false (b :: start) = .ok (n, rest)) :
      ReadAs list object input rest (.number n)
  | string {start : Bytes} {s : String} (hinput : skipBlanks input = 0x22 :: start)
      (h : Json.string start = .ok (s, rest)) : ReadAs list object input rest (.string s)
  | list {start : Bytes} {v : Value} (hinput : skipBlanks input = 0x5B :: start)
      (h : list start = .ok (v, rest)) : ReadAs list object input rest v
  | object {start : Bytes} {v : Value} (hinput : skipBlanks input = 0x7B :: start)
      (h : object start = .ok (v, rest)) : ReadAs list object input rest v

theorem readAs_of_ok (h : valueWith list object input = .ok (v, rest)) :
    ReadAs list object input rest v := by
  unfold valueWith at h
  split at h
  · cases h
  next b start hinput =>
    split at h
    · next hb =>
      obtain ⟨_, hword, heq⟩ := map_ok.mp h
      cases heq
      exact .null (hb ▸ hinput) hword
    split at h
    · next hb =>
      obtain ⟨_, hword, heq⟩ := map_ok.mp h
      cases heq
      exact .true (hb ▸ hinput) hword
    split at h
    · next hb =>
      obtain ⟨_, hword, heq⟩ := map_ok.mp h
      cases heq
      exact .false (hb ▸ hinput) hword
    split at h
    · next hb =>
      obtain ⟨_, hnumber, heq⟩ := map_ok.mp h
      cases heq
      exact .negative (hb ▸ hinput) hnumber
    split at h
    · next hb =>
      obtain ⟨_, hnumber, heq⟩ := map_ok.mp h
      cases heq
      exact .digits hb hinput hnumber
    split at h
    · next hb =>
      obtain ⟨_, hstring, heq⟩ := map_ok.mp h
      cases heq
      exact .string (hb ▸ hinput) hstring
    split at h
    · next hb => exact .list (hb ▸ hinput) h
    split at h
    · next hb => exact .object (hb ▸ hinput) h
    · cases h

/-- The first of two readers gives lists, the other objects. -/
structure Bracketed (list object : Bytes → Outcome Value) : Prop where
  list : ∀ ⦃input v rest⦄, list input = .ok (v, rest) → ∃ vs, v = .array vs
  object : ∀ ⦃input v rest⦄, object input = .ok (v, rest) → ∃ ms, v = .object ms

theorem valueWith_string (h : Bracketed list object) {s : String} :
    valueWith list object input = .ok (.string s, rest) ↔
      ∃ start, skipBlanks input = 0x22 :: start ∧ string start = .ok (s, rest) := by
  constructor
  · intro hread
    cases readAs_of_ok hread with
    | string hstart hstring => exact ⟨_, hstart, hstring⟩
    | list _ hlist =>
      obtain ⟨_, hv⟩ := h.list hlist
      cases hv
    | object _ hobject =>
      obtain ⟨_, hv⟩ := h.object hobject
      cases hv
  · rintro ⟨start, hstart, hstring⟩
    simp [valueWith, hstart, hstring, isDigit, Except.map]

theorem valueWith_array (h : Bracketed list object) {vs : List Value} :
    valueWith list object input = .ok (.array vs, rest) ↔
      ∃ start, skipBlanks input = 0x5B :: start ∧ list start = .ok (.array vs, rest) := by
  constructor
  · intro hread
    cases readAs_of_ok hread with
    | list hstart hlist => exact ⟨_, hstart, hlist⟩
    | object _ hobject =>
      obtain ⟨_, hv⟩ := h.object hobject
      cases hv
  · rintro ⟨start, hstart, hlist⟩
    simp [valueWith, hstart, hlist, isDigit]

theorem valueWith_object (h : Bracketed list object) {ms : List (String × Value)} :
    valueWith list object input = .ok (.object ms, rest) ↔
      ∃ start, skipBlanks input = 0x7B :: start ∧ object start = .ok (.object ms, rest) := by
  constructor
  · intro hread
    cases readAs_of_ok hread with
    | list _ hlist =>
      obtain ⟨_, hv⟩ := h.list hlist
      cases hv
    | object hstart hobject => exact ⟨_, hstart, hobject⟩
  · rintro ⟨start, hstart, hobject⟩
    simp [valueWith, hstart, hobject, isDigit]

/-- How a reader of any value reads strings, lists and objects; `member` is what it makes of one more
member of an object. -/
structure ReadsKinds (reader : Decoder Value)
    (member : (allowance : Nat) → List (String × Value) → String → Bytes →
      Outcome (List (String × Value))) : Prop where
  string : ∀ {n : Nat} {input rest : Bytes} {s : String},
    reader n input = .ok (.string s, rest) ↔
      ∃ start, skipBlanks input = 0x22 :: start ∧ Json.string start = .ok (s, rest)
  array : ∀ {n : Nat} {input rest : Bytes} {vs : List Value},
    reader n input = .ok (.array vs, rest) ↔
      ∃ m start, n = m + 1 ∧ skipBlanks input = 0x5B :: start ∧
        items (reader m) start = .ok (vs, rest)
  object : ∀ {n : Nat} {input rest : Bytes} {ms : List (String × Value)},
    reader n input = .ok (.object ms, rest) ↔
      ∃ m start, n = m + 1 ∧ skipBlanks input = 0x7B :: start ∧
        members (member m) [] start = .ok (ms, rest)

theorem ReadsKinds.of_eq {reader : Decoder Value}
    {member : (allowance : Nat) → List (String × Value) → String → Bytes →
      Outcome (List (String × Value))}
    (hzero : reader 0 = valueWith (fun rest => .error (.here .tooDeep rest))
      fun rest => .error (.here .tooDeep rest))
    (hsucc : ∀ n, reader (n + 1) = valueWith
      (fun rest => (items (reader n) rest).map fun (vs, rest) => (.array vs, rest))
      fun rest => (members (member n) [] rest).map fun (ms, rest) => (.object ms, rest)) :
    ReadsKinds reader member := by
  have bracketed_zero : Bracketed (fun rest => .error (.here .tooDeep rest))
      fun rest => .error (.here .tooDeep rest) := by
    constructor <;>
    · intro input v rest h
      cases h
  have bracketed_succ (n : Nat) : Bracketed
      (fun rest => (items (reader n) rest).map fun (vs, rest) => (.array vs, rest))
      fun rest => (members (member n) [] rest).map fun (ms, rest) => (.object ms, rest) := by
    constructor
    · intro input v rest h
      obtain ⟨⟨vs, after⟩, -, heq⟩ := map_ok.mp h
      cases heq
      exact ⟨vs, rfl⟩
    · intro input v rest h
      obtain ⟨⟨ms, after⟩, -, heq⟩ := map_ok.mp h
      cases heq
      exact ⟨ms, rfl⟩
  refine ⟨fun {n _ _ _} => ?strings, fun {n _ _ _} => ?arrays, fun {n _ _ _} => ?objects⟩
  case strings =>
    cases n with
    | zero => rw [hzero, valueWith_string bracketed_zero]
    | succ n => rw [hsucc, valueWith_string (bracketed_succ n)]
  case arrays =>
    cases n with
    | zero => simp [hzero, valueWith_array bracketed_zero]
    | succ n => simp [hsucc, valueWith_array (bracketed_succ n), map_ok]
  case objects =>
    cases n with
    | zero => simp [hzero, valueWith_object bracketed_zero]
    | succ n => simp [hsucc, valueWith_object (bracketed_succ n), map_ok]

theorem value_kinds : ReadsKinds value fun n => keepMember (value n) :=
  .of_eq (by rw [value]) fun n => by rw [value]

/-! ## Whole documents -/

/-- A document is a value with blanks after it. -/
theorem decode_ok {decoder : Decoder α} {input : Bytes} {a : α} :
    decode decoder input = .ok a ↔
      ∃ rest, decoder maxDepth input = .ok (a, rest) ∧ skipBlanks rest = [] := by
  rw [decode, mapError_ok, whole]
  constructor
  · intro h
    split at h
    · cases h
    next found rest hdecoder =>
      split at h
      · next hrest =>
        cases h
        exact ⟨rest, hdecoder, hrest⟩
      · cases h
  · rintro ⟨rest, hdecoder, hrest⟩
    simp only [hdecoder, hrest]

end BuildBrowser.Json
