import BuildBrowser.Proofs.Json.Kinds
import BuildBrowser.Proofs.Members

/-!
# Documents as they are written

A text may name a member of an object more than once. `verbatim` reads any value and keeps every
member, in the order of the text; `Value.settle` then writes the members of every object one after
another, so that a repeated name has its first place and its last value. **What the reader of any
value gives is what is written, settled** (`value_eq`), and it refuses a text for the same fault.

Statements about the repeated names of a text are stated of its verbatim value.
-/

namespace BuildBrowser.Json

variable {α : Type}

/-! ## Reading without settling -/

/-- A member that is put after those before it, also if its name is there already. -/
def appendMember (value : Bytes → Outcome α) (kept : List (String × α)) (name : String)
    (input : Bytes) : Outcome (List (String × α)) :=
  match colon input with
  | .error fault => .error fault
  | .ok rest => (value rest).map fun (a, rest) => (kept ++ [(name, a)], rest)

/-- Any value, with every member that is written in its objects. -/
def verbatim : Decoder Value
  | 0 => valueWith (fun rest => .error (.here .tooDeep rest)) fun rest => .error (.here .tooDeep rest)
  | allowance + 1 =>
    valueWith
      (fun rest => (items (verbatim allowance) rest).map fun (vs, rest) => (.array vs, rest))
      fun rest =>
        (members (appendMember (verbatim allowance)) [] rest).map fun (ms, rest) => (.object ms, rest)

mutual

/-- The value with the members of its objects written one after another. -/
def Value.settle : Value → Value
  | .null => .null
  | .bool b => .bool b
  | .number n => .number n
  | .string s => .string s
  | .array vs => .array (settleItems vs)
  | .object ms => .object (Members.ofWrites (settleMembers ms))

/-- The items, each of them settled. -/
def settleItems : List Value → List Value
  | [] => []
  | v :: vs => v.settle :: settleItems vs

/-- The members, the value of each of them settled. -/
def settleMembers : List (String × Value) → List (String × Value)
  | [] => []
  | (name, v) :: ms => (name, v.settle) :: settleMembers ms

end

theorem settleItems_eq_map (vs : List Value) : settleItems vs = vs.map Value.settle := by
  induction vs with
  | nil => rfl
  | cons v vs ih => rw [settleItems, ih, List.map_cons]

theorem settleMembers_eq_map (ms : List (String × Value)) :
    settleMembers ms = ms.map fun (name, v) => (name, v.settle) := by
  induction ms with
  | nil => rfl
  | cons m ms ih => rw [settleMembers, ih, List.map_cons]

theorem names_settleMembers (ms : List (String × Value)) :
    Members.names (settleMembers ms) = Members.names ms := by
  rw [settleMembers_eq_map, Members.names_map]

/-- Settling gives an object from nothing but an object. -/
theorem exists_object_of_settle {v : Value} {ms : List (String × Value)} (h : v.settle = .object ms) :
    ∃ ws, v = .object ws := by
  cases v with
  | object ws => exact ⟨ws, rfl⟩
  | null | bool _ | number _ | string _ | array _ => cases h

/-! ## The reader of any value -/

section

variable {list object list' object' : Bytes → Outcome Value}

/-- Settling what the two arguments give settles what is read with them. -/
theorem valueWith_settle
    (hlist : ∀ input, list' input = (list input).map fun (v, rest) => (v.settle, rest))
    (hobject : ∀ input, object' input = (object input).map fun (v, rest) => (v.settle, rest))
    (input : Bytes) :
    valueWith list' object' input =
      (valueWith list object input).map fun (v, rest) => (v.settle, rest) := by
  unfold valueWith
  cases skipBlanks input with
  | nil => rfl
  | cons b rest =>
    dsimp only
    split_ifs
    · cases word nullTail rest <;> rfl
    · cases word trueTail rest <;> rfl
    · cases word falseTail rest <;> rfl
    · cases number true rest <;> rfl
    · cases number false (b :: rest) <;> rfl
    · cases string rest <;> rfl
    · exact hlist rest
    · exact hobject rest
    · rfl

end

/-- A member that is written to those before it, settled, settles one that is put after them. -/
theorem keepMember_settle {reader other : Bytes → Outcome Value}
    (h : ∀ input, other input = (reader input).map fun (v, rest) => (v.settle, rest))
    (ws : List (String × Value)) (name : String) (input : Bytes) :
    keepMember other (Members.ofWrites (settleMembers ws)) name input =
      (appendMember reader ws name input).map fun (ws, rest) =>
        (Members.ofWrites (settleMembers ws), rest) := by
  unfold keepMember appendMember
  cases colon input with
  | error fault => rfl
  | ok start =>
    simp only [h]
    cases reader start with
    | error fault => rfl
    | ok found =>
      obtain ⟨v, rest⟩ := found
      simp only [Except.map, settleMembers_eq_map, List.map_append, List.map_cons, List.map_nil,
        Members.ofWrites_concat]

/-- **What the reader of any value gives is what is written, settled.** -/
theorem value_eq (n : Nat) (input : Bytes) :
    value n input = (verbatim n input).map fun (v, rest) => (v.settle, rest) := by
  induction n generalizing input with
  | zero =>
    rw [value, verbatim]
    refine valueWith_settle (fun _ => ?_) (fun _ => ?_) input
    · rfl
    · rfl
  | succ n ih =>
    refine valueWith_settle (fun input => ?_) (fun input => ?_) input
    · rw [items_map (f := Value.settle) ih]
      cases items (verbatim n) input with
      | error fault => rfl
      | ok found => simp only [Except.map, Value.settle, settleItems_eq_map]
    · have hmembers := members_map (f := fun ws => Members.ofWrites (settleMembers ws))
        (keepMember_settle ih) [] input
      rw [show Members.ofWrites (settleMembers []) = [] from rfl] at hmembers
      rw [hmembers]
      cases members (appendMember (verbatim n)) [] input with
      | error fault => rfl
      | ok found => simp only [Except.map, Value.settle]

/-- What a document holds is what is written in it, settled. -/
theorem decode_value_ok {input : Bytes} {v : Value} :
    decode value input = .ok v ↔ ∃ w, decode verbatim input = .ok w ∧ w.settle = v := by
  rw [decode_ok]
  constructor
  · rintro ⟨rest, hvalue, hrest⟩
    obtain ⟨⟨w, after⟩, hw, heq⟩ := map_ok.mp ((value_eq _ _).symm.trans hvalue)
    cases heq
    exact ⟨w, decode_ok.mpr ⟨rest, hw, hrest⟩, rfl⟩
  · rintro ⟨w, hw, rfl⟩
    obtain ⟨rest, hw, hrest⟩ := decode_ok.mp hw
    exact ⟨rest, (value_eq _ _).trans (map_ok.mpr ⟨(w, rest), hw, rfl⟩), hrest⟩

theorem verbatim_kinds : ReadsKinds verbatim fun n => appendMember (verbatim n) :=
  .of_eq (by rw [verbatim]) fun n => by rw [verbatim]

theorem appendMember_ok {reader : Bytes → Outcome α} {kept next : List (String × α)} {name : String}
    {input rest : Bytes} :
    appendMember reader kept name input = .ok (next, rest) ↔
      ∃ start a, colon input = .ok start ∧ reader start = .ok (a, rest) ∧
        next = kept ++ [(name, a)] := by
  rw [appendMember]
  cases colon input with
  | error fault => simp
  | ok start =>
    rw [map_ok]
    constructor
    · rintro ⟨⟨a, after⟩, hread, heq⟩
      cases heq
      exact ⟨start, a, rfl, hread, rfl⟩
    · rintro ⟨_, a, hstart, hread, rfl⟩
      cases hstart
      exact ⟨(a, rest), hread, rfl⟩

end BuildBrowser.Json
