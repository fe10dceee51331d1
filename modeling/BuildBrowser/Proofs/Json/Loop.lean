import BuildBrowser.Json.Reader
import Mathlib.Data.List.Forall2

/-!
# The loops over lists and objects

Lists and objects are read by two loops that leave what stands in them to an argument. Each law here
says of a whole loop what is known of that argument:

- `forall_of_items`, `invariant_of_members`: what holds of all that the argument gives, holds of all
  that the loop gives;
- `items_map`, `members_map`: a loop whose argument only changes what another gives, gives what the
  other loop gives, changed. Faults are the same;
- `items_simulation`, `members_simulation`: where one argument succeeds and the other does then too,
  so do the loops. What is known of the final result may be used at every step (`Final`, `Good`),
  since a result only ever grows.

Each is one induction on the steps of the loop, which the two equations `itemsFrom_ok` and
`membersFrom_ok` take apart.
-/

namespace BuildBrowser.Json

variable {α β σ τ : Type}

/-! ## One step -/

theorem itemsFrom_ok {item : Bytes → Outcome α} {steps : Nat} {first : Bool} {input rest : Bytes}
    {as : List α} :
    itemsFrom item (steps + 1) first input = .ok (as, rest) ↔
      (nextItem first input = .ok (.close rest) ∧ as = []) ∨
      ∃ start a after more, nextItem first input = .ok (.item start) ∧ item start = .ok (a, after) ∧
        itemsFrom item steps false after = .ok (more, rest) ∧ as = a :: more := by
  rw [itemsFrom]
  cases nextItem first input with
  | error fault => simp
  | ok next =>
    cases next with
    | close after => simp [and_comm, eq_comm]
    | item start =>
      cases hitem : item start with
      | error fault => simp [hitem]
      | ok found =>
        obtain ⟨a, after⟩ := found
        cases hmore : itemsFrom item steps false after with
        | error fault => simp [hitem, hmore]
        | ok found =>
          obtain ⟨more, last⟩ := found
          simp [hitem, hmore, and_comm, eq_comm]

theorem membersFrom_ok {member : σ → String → Bytes → Outcome σ} {steps : Nat} {first : Bool}
    {s final : σ} {input rest : Bytes} :
    membersFrom member (steps + 1) first s input = .ok (final, rest) ↔
      (nextMember first input = .ok (.close rest) ∧ final = s) ∨
      ∃ start name colon next after, nextMember first input = .ok (.item start) ∧
        string start = .ok (name, colon) ∧ member s name colon = .ok (next, after) ∧
        membersFrom member steps false next after = .ok (final, rest) := by
  rw [membersFrom]
  cases nextMember first input with
  | error fault => simp
  | ok next =>
    cases next with
    | close after => simp [and_comm, eq_comm]
    | item start =>
      cases hname : string start with
      | error fault => simp [hname]
      | ok found =>
        obtain ⟨name, colon⟩ := found
        cases hmember : member s name colon with
        | error fault => simp [hname, hmember]
        | ok found =>
          obtain ⟨next, after⟩ := found
          simp [hname, hmember]

theorem keepMember_ok {item : Bytes → Outcome α} {kept next : Members α} {name : String}
    {input rest : Bytes} :
    keepMember item kept name input = .ok (next, rest) ↔
      ∃ start a, colon input = .ok start ∧ item start = .ok (a, rest) ∧
        next = Members.insert name a kept := by
  rw [keepMember]
  cases colon input with
  | error fault => simp
  | ok start =>
    cases hitem : item start with
    | error fault => simp [hitem]
    | ok found =>
      obtain ⟨a, after⟩ := found
      simp [hitem, and_comm, eq_comm]

/-! ## What every item or member has -/

section

variable {item : Bytes → Outcome α} {input rest : Bytes} {as : List α}

/-- Every item of a list was read. -/
theorem forall_of_items (h : items item input = .ok (as, rest)) :
    ∀ a ∈ as, ∃ start after, item start = .ok (a, after) := by
  unfold items at h
  generalize input.length + 1 = steps at h
  generalize true = first at h
  induction steps generalizing first input as with
  | zero => cases h
  | succ steps ih =>
    obtain ⟨-, rfl⟩ | ⟨start, a, after, more, -, hitem, hmore, rfl⟩ := itemsFrom_ok.mp h
    · simp
    · intro b hb
      rcases List.mem_cons.mp hb with rfl | hb
      · exact ⟨start, after, hitem⟩
      · exact ih _ hmore b hb

end

section

variable {member : σ → String → Bytes → Outcome σ} {input rest : Bytes} {s final : σ}

/-- What every member preserves, an object preserves. -/
theorem invariant_of_membersFrom {P : σ → Prop}
    (hmember : ∀ s name input next after, P s → member s name input = .ok (next, after) → P next)
    {steps : Nat} {first : Bool} (hs : P s)
    (h : membersFrom member steps first s input = .ok (final, rest)) : P final := by
  induction steps generalizing first s input with
  | zero => cases h
  | succ steps ih =>
    obtain ⟨-, rfl⟩ | ⟨start, name, colon, next, after, -, -, hnext, hmore⟩ := membersFrom_ok.mp h
    · exact hs
    · exact ih (hmember s name colon next after hs hnext) hmore

theorem invariant_of_members {P : σ → Prop}
    (hmember : ∀ s name input next after, P s → member s name input = .ok (next, after) → P next)
    (hs : P s) (h : members member s input = .ok (final, rest)) : P final :=
  invariant_of_membersFrom hmember hs h

end

/-! ## Changed results -/

/-- A list of changed items is the changed list. -/
theorem items_map {item : Bytes → Outcome α} {other : Bytes → Outcome β} {f : α → β}
    (hitem : ∀ input, other input = (item input).map fun (a, rest) => (f a, rest)) (input : Bytes) :
    items other input = (items item input).map fun (as, rest) => (as.map f, rest) := by
  unfold items
  generalize input.length + 1 = steps
  generalize true = first
  induction steps generalizing first input with
  | zero => rfl
  | succ steps ih =>
    rw [itemsFrom, itemsFrom]
    cases nextItem first input with
    | error fault => rfl
    | ok next =>
      cases next with
      | close after => rfl
      | item start =>
        simp only [hitem]
        cases item start with
        | error fault => rfl
        | ok found =>
          obtain ⟨a, after⟩ := found
          simp only [Except.map] at ih ⊢
          rw [ih]
          cases itemsFrom item steps false after <;> rfl

/-- An object whose members make of changed states what is made of the states, changed, makes the
changed state. -/
theorem members_map {member : σ → String → Bytes → Outcome σ} {other : τ → String → Bytes → Outcome τ}
    {f : σ → τ}
    (hmember : ∀ s name input,
      other (f s) name input = (member s name input).map fun (s, rest) => (f s, rest))
    (s : σ) (input : Bytes) :
    members other (f s) input = (members member s input).map fun (s, rest) => (f s, rest) := by
  unfold members
  generalize input.length + 1 = steps
  generalize true = first
  induction steps generalizing first s input with
  | zero => rfl
  | succ steps ih =>
    rw [membersFrom, membersFrom]
    cases nextMember first input with
    | error fault => rfl
    | ok next =>
      cases next with
      | close after => rfl
      | item start =>
        cases hname : string start with
        | error fault => simp only [hname]; rfl
        | ok found =>
          obtain ⟨name, colon⟩ := found
          simp only [hname, hmember]
          cases hnext : member s name colon with
          | error fault => rfl
          | ok found =>
            obtain ⟨next, after⟩ := found
            exact ih next after false

/-! ## Success side by side -/

/-- Where every item that one reader gives, and that has a property, is given by another in a form
related to it, the same holds of lists. -/
theorem items_simulation {item : Bytes → Outcome α} {other : Bytes → Outcome β} {Final : α → Prop}
    {R : α → β → Prop}
    (hitem : ∀ input a after, item input = .ok (a, after) → Final a →
      ∃ b, other input = .ok (b, after) ∧ R a b)
    {input rest : Bytes} {as : List α} (h : items item input = .ok (as, rest))
    (hfinal : ∀ a ∈ as, Final a) :
    ∃ bs, items other input = .ok (bs, rest) ∧ List.Forall₂ R as bs := by
  unfold items at h ⊢
  generalize input.length + 1 = steps at h ⊢
  generalize true = first at h ⊢
  induction steps generalizing first input as with
  | zero => cases h
  | succ steps ih =>
    obtain ⟨hclose, rfl⟩ | ⟨start, a, after, more, hnext, ha, hmore, rfl⟩ := itemsFrom_ok.mp h
    · exact ⟨[], itemsFrom_ok.mpr (.inl ⟨hclose, rfl⟩), .nil⟩
    · obtain ⟨b, hb, hab⟩ := hitem start a after ha (hfinal a List.mem_cons_self)
      obtain ⟨bs, hbs, hmores⟩ := ih (fun c hc => hfinal c (List.mem_cons_of_mem _ hc)) false hmore
      exact ⟨b :: bs, itemsFrom_ok.mpr (.inr ⟨start, b, after, bs, hnext, hb, hbs, rfl⟩),
        .cons hab hmores⟩

/-- Where every member that one reader takes to a good state is taken by another to a state related
to it, the same holds of objects. Good states come from good states only, so the final state vouches
for those before it. -/
theorem members_simulation {member : σ → String → Bytes → Outcome σ}
    {other : τ → String → Bytes → Outcome τ} {Good : σ → Prop} {R : σ → τ → Prop}
    (hback : ∀ s name input next after, member s name input = .ok (next, after) → Good next → Good s)
    (hmember : ∀ s t name input next after, R s t → member s name input = .ok (next, after) →
      Good next → ∃ t', other t name input = .ok (t', after) ∧ R next t')
    {s final : σ} {t : τ} {input rest : Bytes} (hst : R s t)
    (h : members member s input = .ok (final, rest)) (hgood : Good final) :
    ∃ t', members other t input = .ok (t', rest) ∧ R final t' := by
  unfold members at h ⊢
  generalize input.length + 1 = steps at h ⊢
  generalize true = first at h ⊢
  induction steps generalizing first s t input with
  | zero => cases h
  | succ steps ih =>
    obtain ⟨hclose, rfl⟩ | ⟨start, name, colon, next, after, hnext, hname, hm, hmore⟩ :=
      membersFrom_ok.mp h
    · exact ⟨t, membersFrom_ok.mpr (.inl ⟨hclose, rfl⟩), hst⟩
    · -- a bad state never becomes good again, and the final one is good
      have hgoodNext : Good next := by
        by_contra hbad
        exact invariant_of_membersFrom (P := fun s => ¬Good s)
          (fun s name input next after hs hm hg => hs (hback s name input next after hm hg)) hbad hmore
          hgood
      obtain ⟨t', ht', hR⟩ := hmember s t name colon next after hst hm hgoodNext
      obtain ⟨last, hlast, hfinal⟩ := ih hR false hmore
      exact ⟨last, membersFrom_ok.mpr
        (.inr ⟨start, name, colon, t', after, hnext, hname, ht', hlast⟩), hfinal⟩

end BuildBrowser.Json
