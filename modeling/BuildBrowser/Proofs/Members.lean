import BuildBrowser.Members
import Mathlib.Data.List.Induction
import Mathlib.Data.List.Nodup

/-!
# Writing to named values

A write replaces the value of a name in its place, or puts a new name at the end (`Written`). So the
names stay distinct, every other member keeps its value and its place, and only the name that is
written to is found with another value (`find?_insert`) or is missed (`erase_insert_self`). Of many
writes to one name the last one counts, at the place of the first.
-/

namespace BuildBrowser.Members

variable {α : Type}

theorem mem_insert {name : String} {a : α} {m : Members α} {member : String × α}
    (h : member ∈ insert name a m) : member = (name, a) ∨ member ∈ m := by
  induction m with
  | nil => exact .inl (List.mem_singleton.mp h)
  | cons first m ih =>
    obtain ⟨n, b⟩ := first
    by_cases hn : n = name
    · rw [insert, if_pos hn, hn] at h
      rcases List.mem_cons.mp h with h | h
      · exact .inl h
      · exact .inr (List.mem_cons_of_mem _ h)
    · rw [insert, if_neg hn] at h
      rcases List.mem_cons.mp h with h | h
      · exact .inr (h ▸ List.mem_cons_self)
      · exact (ih h).imp id (List.mem_cons_of_mem _)

/-- A new name is written to the end. -/
theorem insert_of_not_mem {name : String} {m : Members α} (h : name ∉ m.names) (a : α) :
    insert name a m = m ++ [(name, a)] := by
  induction m with
  | nil => rfl
  | cons first m ih =>
    obtain ⟨n, b⟩ := first
    obtain ⟨hn, hm⟩ := not_or.mp (mt List.mem_cons.mpr h)
    rw [insert, if_neg (Ne.symm hn), ih hm, List.cons_append]

/-- A name that is there is written to its place. -/
theorem insert_append_cons {name : String} {before after : Members α} (h : name ∉ before.names)
    (a b : α) : insert name a (before ++ (name, b) :: after) = before ++ (name, a) :: after := by
  induction before with
  | nil => rw [List.nil_append, insert, if_pos rfl, List.nil_append]
  | cons first before ih =>
    obtain ⟨n, c⟩ := first
    obtain ⟨hn, hbefore⟩ := not_or.mp (mt List.mem_cons.mpr h)
    rw [List.cons_append, insert, if_neg (Ne.symm hn), ih hbefore, List.cons_append]

/-- The names after a write: as before, or with the new name at the end. -/
theorem names_insert (name : String) (a : α) (m : Members α) :
    (insert name a m).names = if name ∈ m.names then m.names else m.names ++ [name] := by
  induction m with
  | nil => rfl
  | cons first m ih =>
    obtain ⟨n, b⟩ := first
    by_cases hn : n = name
    · subst hn
      simp [insert, names]
    · have hmem : name ∈ names ((n, b) :: m) ↔ name ∈ names m := by
        simp [names, Ne.symm hn]
      rw [insert, if_neg hn]
      simp only [hmem]
      change n :: names (insert name a m) = if _ then n :: names m else n :: names m ++ [name]
      rw [ih]
      split <;> rfl

theorem mem_names_insert {n name : String} {a : α} {m : Members α} :
    n ∈ (insert name a m).names ↔ n ∈ m.names ∨ n = name := by
  rw [names_insert]
  split
  · next hname =>
    constructor
    · exact .inl
    · rintro (hn | rfl)
      · exact hn
      · exact hname
  · rw [List.mem_append, List.mem_singleton]

/-- A write to members in two parts is a write to the part that has the name, or to the second one if
neither has it. -/
theorem insert_append (name : String) (a : α) (before after : Members α) :
    insert name a (before ++ after) =
      if name ∈ before.names then insert name a before ++ after else before ++ insert name a after := by
  induction before with
  | nil => rfl
  | cons first before ih =>
    obtain ⟨n, b⟩ := first
    by_cases hn : n = name
    · simp [insert, names, hn]
    · have hmem : name ∈ names ((n, b) :: before) ↔ name ∈ names before := by
        simp [names, Ne.symm hn]
      simp only [List.cons_append, insert, if_neg hn, ih, hmem]
      split <;> rfl

theorem distinct_nil : Distinct ([] : Members α) :=
  List.nodup_nil

/-- Writing keeps the names distinct. -/
theorem distinct_insert {name : String} {m : Members α} (h : m.Distinct) (a : α) :
    (insert name a m).Distinct := by
  rw [Distinct, names_insert]
  split
  · exact h
  · next hname =>
    refine List.nodup_append.mpr ⟨h, List.nodup_singleton name, ?_⟩
    rintro n hn m hm rfl
    exact hname (List.mem_singleton.mp hm ▸ hn)

/-- A name that stands at one place stands at no place before it. -/
theorem not_mem_names_before {before after : Members α} {name : String} {a : α}
    (h : Distinct (before ++ (name, a) :: after)) : name ∉ names before := by
  intro hname
  rw [Distinct, names, List.map_append, List.nodup_append] at h
  exact h.2.2 name hname name List.mem_cons_self rfl

/-- Writes to changed members change as the members do. -/
theorem insert_map {β : Type} (f : α → β) (name : String) (a : α) (m : Members α) :
    insert name (f a) (m.map fun (n, a) => (n, f a)) =
      (insert name a m).map fun (n, a) => (n, f a) := by
  induction m with
  | nil => rfl
  | cons first m ih =>
    obtain ⟨n, b⟩ := first
    by_cases hn : n = name
    · rw [List.map_cons, insert, insert, if_pos hn, if_pos hn, List.map_cons]
    · rw [List.map_cons, insert, insert, if_neg hn, if_neg hn, List.map_cons, ih]

theorem names_map {β : Type} (f : α → β) (m : Members α) :
    names (m.map fun (n, a) => (n, f a)) = m.names := by
  simp [names]

/-! ## Finding and erasing -/

theorem find?_eq_none {name : String} {m : Members α} : find? name m = none ↔ name ∉ m.names := by
  induction m with
  | nil => simp [find?, names]
  | cons first m ih =>
    obtain ⟨n, a⟩ := first
    by_cases hn : n = name
    · simp [find?, names, hn]
    · simpa [find?, names, hn, Ne.symm hn] using ih

/-- A name that was written to has the value that was written, and others what they had. -/
theorem find?_insert (n name : String) (a : α) (m : Members α) :
    find? n (insert name a m) = if name = n then some a else find? n m := by
  induction m with
  | nil => rfl
  | cons first m ih =>
    obtain ⟨k, b⟩ := first
    by_cases hk : k = name
    · subst hk
      rw [insert, if_pos rfl, find?, find?]
      split <;> rfl
    · rw [insert, if_neg hk, find?, find?, ih]
      by_cases hn : name = n
      · rw [if_pos hn, if_neg (hn ▸ hk), if_pos hn]
      · rw [if_neg hn, if_neg hn]

/-- Without the name that was written to, nothing was written. -/
theorem erase_insert_self (name : String) (a : α) (m : Members α) :
    erase name (insert name a m) = erase name m := by
  induction m with
  | nil => simp [insert, erase]
  | cons first m ih =>
    obtain ⟨k, b⟩ := first
    by_cases hk : k = name
    · simp [insert, erase, hk]
    · simpa [insert, erase, hk] using ih

/-- Without another name, it was written as well. -/
theorem erase_insert_of_ne {n name : String} (h : name ≠ n) (a : α) (m : Members α) :
    erase n (insert name a m) = insert name a (erase n m) := by
  induction m with
  | nil => simp [insert, erase, h]
  | cons first m ih =>
    obtain ⟨k, b⟩ := first
    by_cases hk : k = name
    · simp [insert, erase, hk, h]
    · by_cases hn : k = n
      · simpa [insert, erase, hk, hn, Ne.symm h] using ih
      · simpa [insert, erase, hk, hn] using ih

/-! ## What a write changes -/

/-- Members before and after a value was written to a name: it took the place of the value that the
name had, or stands at the end if there was none. All other members are as they were. -/
inductive Written (name : String) (a : α) : Members α → Members α → Prop
  | inPlace {before after : Members α} {b : α} (hbefore : name ∉ before.names)
      (hafter : name ∉ after.names) :
      Written name a (before ++ (name, b) :: after) (before ++ (name, a) :: after)
  | atEnd {m : Members α} (h : name ∉ m.names) : Written name a m (m ++ [(name, a)])

theorem written_insert {m : Members α} (h : m.Distinct) (name : String) (a : α) :
    Written name a m (insert name a m) := by
  by_cases hname : name ∈ m.names
  · obtain ⟨⟨_, b⟩, hmem, rfl⟩ := List.mem_map.mp hname
    obtain ⟨before, after, rfl⟩ := List.append_of_mem hmem
    have hbefore := not_mem_names_before h
    rw [Distinct, names, List.map_append, List.nodup_append] at h
    rw [insert_append_cons hbefore]
    exact .inPlace hbefore (List.nodup_cons.mp h.2.1).1
  · rw [insert_of_not_mem hname]
    exact .atEnd hname

/-! ## Many writes -/

theorem ofWrites_concat (writes : List (String × α)) (name : String) (a : α) :
    ofWrites (writes ++ [(name, a)]) = insert name a (ofWrites writes) := by
  rw [ofWrites, List.foldl_append]
  rfl

/-- The names are those that were written to. -/
theorem mem_names_ofWrites {name : String} {writes : List (String × α)} :
    name ∈ (ofWrites writes).names ↔ name ∈ names writes := by
  induction writes using List.reverseRecOn with
  | nil => rfl
  | append_singleton writes write ih =>
    rw [ofWrites_concat, mem_names_insert, ih]
    simp [names]

theorem distinct_ofWrites (writes : List (String × α)) : (ofWrites writes).Distinct := by
  induction writes using List.reverseRecOn with
  | nil => exact distinct_nil
  | append_singleton writes write ih =>
    rw [ofWrites_concat]
    exact distinct_insert ih _

/-- Writes to names that are distinct are the members themselves. -/
theorem ofWrites_of_distinct {m : Members α} (h : m.Distinct) : ofWrites m = m := by
  induction m using List.reverseRecOn with
  | nil => rfl
  | append_singleton m last ih =>
    have hm : Distinct m := (List.nodup_append.mp (by simpa [Distinct, names] using h)).1
    rw [ofWrites_concat, ih hm, insert_of_not_mem (not_mem_names_before h)]

/-- What is written to other names later does not matter. -/
theorem find?_ofWrites_append {name : String} {writes more : List (String × α)}
    (h : name ∉ names more) : find? name (ofWrites (writes ++ more)) = find? name (ofWrites writes) := by
  induction more generalizing writes with
  | nil => rw [List.append_nil]
  | cons write more ih =>
    obtain ⟨n, a⟩ := write
    obtain ⟨hn, hmore⟩ := not_or.mp (mt List.mem_cons.mpr h)
    rw [List.append_cons, ih hmore, ofWrites_concat, find?_insert, if_neg (Ne.symm hn)]

/-- A name has what was written to it last. -/
theorem find?_ofWrites_last {name : String} {a : α} {before after : List (String × α)}
    (h : name ∉ names after) : find? name (ofWrites (before ++ (name, a) :: after)) = some a := by
  rw [List.append_cons, find?_ofWrites_append h, ofWrites_concat, find?_insert, if_pos rfl]

/-- A name that stands at one place and is there once stands nowhere else. -/
theorem not_mem_names_of_count {before after : List (String × α)} {name : String} {a : α}
    (h : (names (before ++ (name, a) :: after)).count name ≤ 1) :
    name ∉ names before ∧ name ∉ names after := by
  simp only [names, List.map_append, List.map_cons, List.count_append, List.count_cons_self] at h
  constructor
  · intro hmem
    have hcount := List.one_le_count_iff.mpr hmem
    rw [names] at hcount
    omega
  · intro hmem
    have hcount := List.one_le_count_iff.mpr hmem
    rw [names] at hcount
    omega

/-- A name that is written to once has what was written. -/
theorem find?_ofWrites {name : String} {a : α} {writes : List (String × α)}
    (h : (name, a) ∈ writes) (honce : (names writes).count name ≤ 1) :
    find? name (ofWrites writes) = some a := by
  obtain ⟨before, after, rfl⟩ := List.append_of_mem h
  exact find?_ofWrites_last (not_mem_names_of_count honce).2

end BuildBrowser.Members
