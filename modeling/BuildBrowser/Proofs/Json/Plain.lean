import BuildBrowser.Proofs.Json.Kinds
import BuildBrowser.Proofs.Members

/-!
# What the reader of any value gives

A value is **plain** if no object in it repeats a name and every number in it is kept as an integer.
Of what has been read only the second can fail: a repeated name is written to the place where it first
stood, so no object that was read repeats one. And a value that was read has no more brackets open at
once than the reader allowed.

Both are said by `depth_and_plain_of_value`. It is an induction on the allowance, since a list or an
object is read by a reader of what stands in it that allows one bracket less.
-/

namespace BuildBrowser.Json

/-! ## Integers, and how deep a value goes -/

mutual

/-- Every number in the value is kept as an integer. -/
def Value.Integral : Value → Prop
  | .null | .bool _ | .string _ => True
  | .number n => n.toInt?.isSome
  | .array items => IntegralItems items
  | .object members => IntegralMembers members

/-- Every number in the items is kept as an integer. -/
def IntegralItems : List Value → Prop
  | [] => True
  | v :: rest => v.Integral ∧ IntegralItems rest

/-- Every number in the values of the members is kept as an integer. -/
def IntegralMembers : List (String × Value) → Prop
  | [] => True
  | (_, v) :: rest => v.Integral ∧ IntegralMembers rest

end

mutual

/-- How many brackets of the value are open at once. -/
def Value.depth : Value → Nat
  | .null | .bool _ | .number _ | .string _ => 0
  | .array items => itemsDepth items + 1
  | .object members => membersDepth members + 1

/-- How many brackets of an item are open at once. -/
def itemsDepth : List Value → Nat
  | [] => 0
  | v :: rest => max v.depth (itemsDepth rest)

/-- How many brackets of the value of a member are open at once. -/
def membersDepth : List (String × Value) → Nat
  | [] => 0
  | (_, v) :: rest => max v.depth (membersDepth rest)

end

theorem integralItems_iff {vs : List Value} : IntegralItems vs ↔ ∀ v ∈ vs, v.Integral := by
  induction vs with
  | nil => simp [IntegralItems]
  | cons v vs ih => simp [IntegralItems, ih]

theorem integralMembers_iff {ms : List (String × Value)} :
    IntegralMembers ms ↔ ∀ m ∈ ms, m.2.Integral := by
  induction ms with
  | nil => simp [IntegralMembers]
  | cons m ms ih => simp [IntegralMembers, ih]

theorem plainItems_iff {vs : List Value} : Value.PlainItems vs ↔ ∀ v ∈ vs, v.Plain := by
  induction vs with
  | nil => simp [Value.PlainItems]
  | cons v vs ih => simp [Value.PlainItems, ih]

theorem plainMembers_iff {ms : List (String × Value)} :
    Value.PlainMembers ms ↔ ∀ m ∈ ms, m.2.Plain := by
  induction ms with
  | nil => simp [Value.PlainMembers]
  | cons m ms ih => simp [Value.PlainMembers, ih]

theorem itemsDepth_le {vs : List Value} {n : Nat} : itemsDepth vs ≤ n ↔ ∀ v ∈ vs, v.depth ≤ n := by
  induction vs with
  | nil => simp [itemsDepth]
  | cons v vs ih => rw [itemsDepth, Nat.max_le, ih, List.forall_mem_cons]

theorem membersDepth_le {ms : List (String × Value)} {n : Nat} :
    membersDepth ms ≤ n ↔ ∀ m ∈ ms, m.2.depth ≤ n := by
  induction ms with
  | nil => simp [membersDepth]
  | cons m ms ih => rw [membersDepth, Nat.max_le, ih, List.forall_mem_cons]

mutual

/-- A plain value has integers only. -/
theorem Value.Plain.integral : {v : Value} → v.Plain → v.Integral
  | .null, _ | .bool _, _ | .string _, _ => trivial
  | .number _, h => h
  | .array _, h => integralItems_of_plain h
  | .object _, h => integralMembers_of_plain h.2

theorem integralItems_of_plain : {vs : List Value} → Value.PlainItems vs → IntegralItems vs
  | [], _ => trivial
  | _ :: _, ⟨h, hs⟩ => ⟨h.integral, integralItems_of_plain hs⟩

theorem integralMembers_of_plain : {ms : List (String × Value)} → Value.PlainMembers ms →
    IntegralMembers ms
  | [], _ => trivial
  | _ :: _, ⟨h, hs⟩ => ⟨h.integral, integralMembers_of_plain hs⟩

end

/-! ## Readers of any value -/

variable {list object : Bytes → Outcome Value} {input rest : Bytes} {v : Value}

/-- What every reading of a value has: a scalar has it, and so have the lists and the objects that
the two arguments give. -/
theorem valueWith_ok {P : Value → Prop} (hnull : P .null) (hbool : ∀ b, P (.bool b))
    (hnumber : ∀ n, P (.number n)) (hstring : ∀ s, P (.string s))
    (hlist : ∀ input v rest, list input = .ok (v, rest) → P v)
    (hobject : ∀ input v rest, object input = .ok (v, rest) → P v)
    (h : valueWith list object input = .ok (v, rest)) : P v := by
  cases readAs_of_ok h with
  | null => exact hnull
  | true | false => exact hbool _
  | negative | digits => exact hnumber _
  | string => exact hstring _
  | list _ h => exact hlist _ v rest h
  | object _ h => exact hobject _ v rest h

/-- Members that are kept have distinct names, and values that were read. -/
theorem keepMember_members {α : Type} {item : Bytes → Outcome α} {kept : Members α}
    (h : members (keepMember item) [] input = .ok (kept, rest)) :
    kept.Distinct ∧ ∀ m ∈ kept, ∃ start after, item start = .ok (m.2, after) := by
  refine invariant_of_members (P := fun kept : Members α => kept.Distinct ∧
    ∀ m ∈ kept, ∃ start after, item start = .ok (m.2, after)) ?_ ⟨Members.distinct_nil, by simp⟩ h
  rintro kept name input next after ⟨hdistinct, hkept⟩ hmember
  obtain ⟨start, a, -, hitem, rfl⟩ := keepMember_ok.mp hmember
  refine ⟨Members.distinct_insert hdistinct _, fun m hm => ?_⟩
  rcases Members.mem_insert hm with rfl | hm
  · exact ⟨_, _, hitem⟩
  · exact hkept m hm

/-- **A value that was read has no more brackets open at once than were allowed**, and is plain if its
numbers are integers. -/
theorem depth_and_plain_of_value {n : Nat} (h : value n input = .ok (v, rest)) :
    v.depth ≤ n ∧ (v.Integral → v.Plain) := by
  induction n generalizing input v rest with
  | zero =>
    refine valueWith_ok (P := fun v => v.depth ≤ 0 ∧ (v.Integral → v.Plain)) ?_ ?_ ?_ ?_ ?_ ?_ h
    · simp [Value.depth, Value.Plain]
    · simp [Value.depth, Value.Plain]
    · simp [Value.depth, Value.Plain, Value.Integral]
    · simp [Value.depth, Value.Plain]
    · intro _ _ _ h
      cases h
    · intro _ _ _ h
      cases h
  | succ n ih =>
    refine valueWith_ok (P := fun v => v.depth ≤ n + 1 ∧ (v.Integral → v.Plain)) ?_ ?_ ?_ ?_ ?_ ?_ h
    · simp [Value.depth, Value.Plain]
    · simp [Value.depth, Value.Plain]
    · simp [Value.depth, Value.Plain, Value.Integral]
    · simp [Value.depth, Value.Plain]
    · intro input v rest h
      obtain ⟨⟨vs, after⟩, hitems, heq⟩ := map_ok.mp h
      cases heq
      have hvs : ∀ w ∈ vs, w.depth ≤ n ∧ (w.Integral → w.Plain) := by
        intro w hw
        obtain ⟨start, after, hread⟩ := forall_of_items hitems w hw
        exact ih hread
      refine ⟨Nat.succ_le_succ (itemsDepth_le.mpr fun w hw => (hvs w hw).1), fun hint => ?_⟩
      exact plainItems_iff.mpr fun w hw => (hvs w hw).2 (integralItems_iff.mp hint w hw)
    · intro input v rest h
      obtain ⟨⟨ms, after⟩, hmembers, heq⟩ := map_ok.mp h
      cases heq
      obtain ⟨hdistinct, hkept⟩ := keepMember_members hmembers
      have hms : ∀ m ∈ ms, m.2.depth ≤ n ∧ (m.2.Integral → m.2.Plain) := by
        intro m hm
        obtain ⟨start, after, hread⟩ := hkept m hm
        exact ih hread
      refine ⟨Nat.succ_le_succ (membersDepth_le.mpr fun m hm => (hms m hm).1), fun hint => ?_⟩
      exact ⟨hdistinct,
        plainMembers_iff.mpr fun m hm => (hms m hm).2 (integralMembers_iff.mp hint m hm)⟩

end BuildBrowser.Json
