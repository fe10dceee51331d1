import BuildBrowser.Proofs.Text.Blank
import BuildBrowser.Proofs.Text.Split
import BuildBrowser.Render.Paint
import Mathlib.Data.List.Find

/-!
# Taking the colours off a text

`uncolour` deletes the escape sequences of colours from a text. What it does to a text that is put
together from pieces is known in two cases:

- a piece without escape characters, painted or not, comes out as that piece whatever follows it
  (`Uncolours`);
- a blank is in no sequence, so no sequence crosses it, and what stands before it and after it comes
  out separately (`uncolour_append_blank`), whatever those are.

The second is what trimming needs. A painted line ends in the sequence that ends its colour, so blanks
before that are kept where the plain line loses them: the two lines agree up to the blanks at their
ends and no further. `SameLines` says so of whole texts, and `Shows` of their parts.
-/

namespace BuildBrowser

open Text

/-! ## Deleting the sequences -/

/-- The escape sequences of colours: one for each tint, and the one that ends a colour. -/
def sequences : List (List Char) :=
  [startSequence 74, startSequence 245, startSequence 240, endSequence]

/-- A text without the escape sequences of colours, when so many of its first characters belong to one
that has been found. -/
def uncolourAfter : Nat → List Char → List Char
  | _, [] => []
  | found + 1, _ :: rest => uncolourAfter found rest
  | 0, c :: rest =>
    match sequences.find? (·.isPrefixOf (c :: rest)) with
    | some sequence => uncolourAfter (sequence.length - 1) rest
    | none => c :: uncolourAfter 0 rest

/-- A text without the escape sequences of colours. -/
def uncolour (text : List Char) : List Char :=
  uncolourAfter 0 text

theorem startSequence_mem (tint : Tint) : startSequence tint.code ∈ sequences := by
  cases tint <;> decide

theorem endSequence_mem : endSequence ∈ sequences := by decide

theorem head_of_mem_sequences : ∀ sequence ∈ sequences, sequence.head? = some '\x1b' := by decide

theorem not_blank_of_mem_sequence :
    ∀ sequence ∈ sequences, ∀ c ∈ sequence, isBlank c = false := by
  have hall : (sequences.all fun sequence => sequence.all fun c => !isBlank c) = true := by decide
  intro sequence hsequence c hc
  have hsome := List.all_eq_true.mp (List.all_eq_true.mp hall sequence hsequence) c hc
  rwa [Bool.not_eq_true'] at hsome

/-- A sequence is deleted, whatever follows it. -/
theorem uncolour_sequence {sequence : List Char} (h : sequence ∈ sequences) (rest : List Char) :
    uncolour (sequence ++ rest) = uncolour rest := by
  simp only [sequences, List.mem_cons, List.not_mem_nil, or_false] at h
  obtain rfl | rfl | rfl | rfl := h <;> rfl

/-- A character that is no escape is kept. -/
theorem uncolour_cons {c : Char} (h : c ≠ '\x1b') (rest : List Char) :
    uncolour (c :: rest) = c :: uncolour rest := by
  have hnone : sequences.find? (·.isPrefixOf (c :: rest)) = none := by
    refine List.find?_eq_none.mpr fun sequence hmem => ?_
    obtain ⟨tail, rfl⟩ := List.head?_eq_some_iff.mp (head_of_mem_sequences sequence hmem)
    simp [List.isPrefixOf, Ne.symm h]
  rw [uncolour, uncolourAfter, hnone]
  rfl

theorem uncolour_append {text : List Char} (h : '\x1b' ∉ text) (rest : List Char) :
    uncolour (text ++ rest) = text ++ uncolour rest := by
  induction text with
  | nil => rfl
  | cons c text ih =>
    obtain ⟨hc, htext⟩ := List.ne_and_not_mem_of_not_mem_cons h
    rw [List.cons_append, uncolour_cons (Ne.symm hc), ih htext, List.cons_append]

theorem uncolour_of_not_mem {text : List Char} (h : '\x1b' ∉ text) : uncolour text = text := by
  have happend := uncolour_append h []
  rwa [List.append_nil, show uncolour [] = [] from rfl, List.append_nil] at happend

/-! ## Before and after a blank -/

/-- A list without an element starts a text where it starts what stands before that element. -/
theorem isPrefixOf_append_cons {sequence : List Char} {c : Char} (h : c ∉ sequence)
    (text rest : List Char) :
    sequence.isPrefixOf (text ++ c :: rest) = sequence.isPrefixOf text := by
  induction sequence generalizing text with
  | nil => simp
  | cons d sequence ih =>
    obtain ⟨hd, hsequence⟩ := List.ne_and_not_mem_of_not_mem_cons h
    cases text with
    | nil => simp [List.isPrefixOf, Ne.symm hd]
    | cons e text => rw [List.cons_append, List.isPrefixOf, List.isPrefixOf, ih hsequence]

/-- **No sequence crosses a blank.** The induction is on the text before it, and keeps that a sequence
that has been found ends within it. -/
theorem uncolourAfter_append_blank {blank : Char} (h : isBlank blank = true) {found : Nat}
    {text : List Char} (hfound : found ≤ text.length) (rest : List Char) :
    uncolourAfter found (text ++ blank :: rest) = uncolourAfter found text ++ blank :: uncolour rest := by
  have hnot : ∀ sequence ∈ sequences, blank ∉ sequence := by
    intro sequence hmem hblank
    rw [not_blank_of_mem_sequence sequence hmem blank hblank] at h
    cases h
  induction text generalizing found with
  | nil =>
    obtain rfl := Nat.le_zero.mp hfound
    have hescape : blank ≠ '\x1b' := by
      rintro rfl
      cases h
    exact uncolour_cons hescape rest
  | cons c text ih =>
    cases found with
    | succ found => exact ih (Nat.le_of_succ_le_succ hfound)
    | zero =>
      have hfind : sequences.find? (·.isPrefixOf (c :: text ++ blank :: rest)) =
          sequences.find? (·.isPrefixOf (c :: text)) :=
        List.find?_congr fun sequence hmem => isPrefixOf_append_cons (hnot sequence hmem) _ _
      rw [List.cons_append] at hfind ⊢
      rw [uncolourAfter, hfind, uncolourAfter]
      cases hsome : sequences.find? (·.isPrefixOf (c :: text)) with
      | none => exact congrArg (c :: ·) (ih (Nat.zero_le _))
      | some sequence =>
        have hstarts : sequence.isPrefixOf (c :: text) = true :=
          List.find?_some (p := fun sequence : List Char => sequence.isPrefixOf (c :: text)) hsome
        have hwithin : sequence <+: c :: text := List.isPrefixOf_iff_prefix.mp hstarts
        exact ih (Nat.sub_le_of_le_add hwithin.length_le)

theorem uncolour_append_blank {blank : Char} (h : isBlank blank = true) (text rest : List Char) :
    uncolour (text ++ blank :: rest) = uncolour text ++ blank :: uncolour rest :=
  uncolourAfter_append_blank h (Nat.zero_le _) rest

theorem uncolour_append_blanks {blanks : List Char} (h : ∀ c ∈ blanks, isBlank c = true)
    (text : List Char) : uncolour (text ++ blanks) = uncolour text ++ blanks := by
  cases blanks with
  | nil => rw [List.append_nil, List.append_nil]
  | cons blank blanks =>
    have hescape : '\x1b' ∉ blanks := by
      intro hmem
      cases h _ (List.mem_cons_of_mem _ hmem)
    rw [uncolour_append_blank (h _ List.mem_cons_self), uncolour_of_not_mem hescape]

/-! ## Painted pieces -/

/-- A piece that comes out as another, whatever follows it. -/
def Uncolours (painted plain : List Char) : Prop :=
  ∀ rest, uncolour (painted ++ rest) = plain ++ uncolour rest

namespace Uncolours

variable {painted plain : List Char}

theorem uncolour_eq (h : Uncolours painted plain) : uncolour painted = plain := by
  have happend := h []
  rwa [List.append_nil, show uncolour [] = [] from rfl, List.append_nil] at happend

theorem of_not_mem {text : List Char} (h : '\x1b' ∉ text) : Uncolours text text :=
  uncolour_append h

/-- A painted text comes out as the text. -/
theorem of_paint {text : List Char} (h : '\x1b' ∉ text) (colour : Colour) (tint : Tint) :
    Uncolours (paint colour tint text) text := by
  cases colour with
  | off => exact of_not_mem h
  | on =>
    intro rest
    simp only [paint, List.append_assoc]
    rw [uncolour_sequence (startSequence_mem tint), uncolour_append h,
      uncolour_sequence endSequence_mem]

theorem append {painted' plain' : List Char} (h : Uncolours painted plain)
    (h' : Uncolours painted' plain') : Uncolours (painted ++ painted') (plain ++ plain') := by
  intro rest
  rw [List.append_assoc, h, h', List.append_assoc]

theorem flatMap {α : Type} {as : List α} {f g : α → List Char}
    (h : ∀ a ∈ as, Uncolours (f a) (g a)) : Uncolours (as.flatMap f) (as.flatMap g) := by
  induction as with
  | nil => exact fun _ => rfl
  | cons a as ih =>
    obtain ⟨ha, has⟩ := List.forall_mem_cons.mp h
    exact ha.append (ih has)

theorem intercalate {sep : List Char} (hsep : '\x1b' ∉ sep) {pieces pieces' : List (List Char)}
    (h : List.Forall₂ Uncolours pieces pieces') :
    Uncolours (sep.intercalate pieces) (sep.intercalate pieces') := by
  induction h with
  | nil => exact fun _ => rfl
  | @cons piece piece' pieces pieces' hpiece hpieces ih =>
    cases hpieces with
    | nil => simpa using hpiece
    | cons _ _ =>
      rw [List.intercalate_cons_cons, List.intercalate_cons_cons]
      exact (hpiece.append (of_not_mem hsep)).append ih

end Uncolours

/-! ## Lines -/

/-- **A painted text that was trimmed** comes out as the plain text without some of the blanks at its
end. -/
theorem Uncolours.exists_blanks {painted plain : List Char} (h : Uncolours painted plain) :
    ∃ blanks, (∀ c ∈ blanks, isBlank c = true) ∧
      plain = uncolour (dropEnd isBlank painted) ++ blanks := by
  obtain ⟨blanks, hsplit, hblanks⟩ := exists_dropEnd isBlank painted
  refine ⟨blanks, hblanks, ?_⟩
  rw [← uncolour_append_blanks hblanks, ← hsplit]
  exact h.uncolour_eq.symm

/-- The texts have the same lines, but for the blanks at the ends of lines. -/
def SameLines (a b : List Char) : Prop :=
  (splitOn '\n' a).map (dropEnd isBlank) = (splitOn '\n' b).map (dropEnd isBlank)

namespace SameLines

variable {a b : List Char}

theorem refl (a : List Char) : SameLines a a :=
  rfl

/-- Two single lines. -/
theorem of_dropEnd_eq (ha : '\n' ∉ a) (hb : '\n' ∉ b) (h : dropEnd isBlank a = dropEnd isBlank b) :
    SameLines a b := by
  unfold SameLines
  rw [splitOn_of_not_mem ha, splitOn_of_not_mem hb]
  exact congrArg ([·]) h

/-- Lines before and after a line feed. -/
theorem append_line {a' b' : List Char} (h : SameLines a b) (h' : SameLines a' b') :
    SameLines (a ++ '\n' :: a') (b ++ '\n' :: b') := by
  unfold SameLines at h h' ⊢
  simp only [splitOn_eq, List.splitOn_append_cons_self, List.map_append] at h h' ⊢
  rw [h, h']

end SameLines

/-- A part of a painted text and one of a plain text that have the same lines without the colours, if
what follows them does. -/
def Shows (painted plain : List Char) : Prop :=
  ∀ ⦃more more' : List Char⦄, SameLines (uncolour more) more' →
    SameLines (uncolour (painted ++ more)) (plain ++ more')

namespace Shows

variable {painted plain : List Char}

theorem sameLines (h : Shows painted plain) : SameLines (uncolour painted) plain := by
  have hempty : SameLines (uncolour (painted ++ [])) (plain ++ []) := h (SameLines.refl [])
  rwa [List.append_nil, List.append_nil] at hempty

theorem append {painted' plain' : List Char} (h : Shows painted plain) (h' : Shows painted' plain') :
    Shows (painted ++ painted') (plain ++ plain') := by
  intro more more' hmore
  rw [List.append_assoc, List.append_assoc]
  exact h (h' hmore)

theorem flatMap {α : Type} {as : List α} {f g : α → List Char} (h : ∀ a ∈ as, Shows (f a) (g a)) :
    Shows (as.flatMap f) (as.flatMap g) := by
  induction as with
  | nil => exact fun _ _ hmore => hmore
  | cons a as ih =>
    obtain ⟨ha, has⟩ := List.forall_mem_cons.mp h
    exact ha.append (ih has)

/-- A line that is not trimmed. -/
theorem of_uncolours (h : Uncolours painted plain) : Shows (painted ++ ['\n']) (plain ++ ['\n']) := by
  intro more more' hmore
  rw [List.append_assoc, List.append_assoc, h, List.singleton_append, uncolour_cons (by decide)]
  exact (SameLines.refl plain).append_line hmore

/-- A line without escape characters. -/
theorem of_line (line : List Char) (h : '\x1b' ∉ line) : Shows (line ++ ['\n']) (line ++ ['\n']) :=
  of_uncolours (.of_not_mem h)

/-- **A line that is trimmed** after it was painted, or without having been. -/
theorem of_trimmed (h : Uncolours painted plain) (hline : '\n' ∉ plain) :
    Shows (dropEnd isBlank painted ++ ['\n']) (dropEnd isBlank plain ++ ['\n']) := by
  intro more more' hmore
  rw [List.append_assoc, List.append_assoc, List.singleton_append, List.singleton_append,
    uncolour_append_blank (by decide)]
  obtain ⟨blanks, hblanks, rfl⟩ := h.exists_blanks
  rw [dropEnd_append hblanks]
  have hleft : '\n' ∉ uncolour (dropEnd isBlank painted) :=
    fun hmem => hline (List.mem_append_left _ hmem)
  refine (SameLines.of_dropEnd_eq hleft (fun hmem => hleft ?_) ?_).append_line hmore
  · have hkept := List.rdropWhile_prefix isBlank (uncolour (dropEnd isBlank painted))
    exact hkept.subset hmem
  · exact (List.rdropWhile_idempotent isBlank _).symm

end Shows

end BuildBrowser
