import BuildBrowser.Text.Blank
import Mathlib.Data.List.DropRight

/-!
# Trimming

`dropEnd` is the library's `List.rdropWhile`. A text that ends in a character that is no blank loses
nothing at its end, characters that are taken off anyway are not missed (`dropEnd_append`), and a text
without characters to take off is kept (`strip_of_forall`).

What `strip` leaves is told by where it stands in the text: `exists_strip` finds it between characters
that are taken off, and `strip_append_append` says that nothing else between such characters is left.
-/

namespace BuildBrowser.Text

/-- A text that ends in a character that is no blank. -/
def EndsInInk (text : List Char) : Prop :=
  ∃ front last, text = front ++ [last] ∧ isBlank last = false

/-- A text that is not empty and has no blank ends in ink. -/
theorem EndsInInk.of_forall {text : List Char} (hne : text ≠ []) (h : ∀ c ∈ text, isBlank c = false) :
    EndsInInk text :=
  ⟨_, _, (List.dropLast_append_getLast hne).symm, h _ (List.getLast_mem hne)⟩

theorem EndsInInk.append {text : List Char} (h : EndsInInk text) (before : List Char) :
    EndsInInk (before ++ text) := by
  obtain ⟨front, last, rfl, hlast⟩ := h
  exact ⟨before ++ front, last, (List.append_assoc _ _ _).symm, hlast⟩

theorem dropEnd_of_endsInInk {text : List Char} (h : EndsInInk text) : dropEnd isBlank text = text := by
  obtain ⟨front, last, rfl, hlast⟩ := h
  exact List.rdropWhile_concat_neg _ _ _ (by simp [hlast])

theorem dropEnd_eq_nil_iff {p : Char → Bool} {text : List Char} :
    dropEnd p text = [] ↔ ∀ c ∈ text, p c = true :=
  List.rdropWhile_eq_nil_iff

theorem dropEnd_isPrefix (p : Char → Bool) (text : List Char) : dropEnd p text <+: text :=
  List.rdropWhile_prefix p text

/-- Nothing before the last character that is no blank is taken off. -/
theorem dropEnd_append_of_endsInInk {text : List Char} (h : EndsInInk text) (tail : List Char) :
    dropEnd isBlank (text ++ tail) = text ++ dropEnd isBlank tail := by
  induction tail using List.reverseRecOn with
  | nil =>
    rw [List.append_nil, dropEnd_of_endsInInk h]
    exact (List.append_nil text).symm
  | append_singleton tail last ih =>
    rw [← List.append_assoc]
    cases hlast : isBlank last with
    | true =>
      have hdrop (front : List Char) : dropEnd isBlank (front ++ [last]) = dropEnd isBlank front :=
        List.rdropWhile_concat_pos _ _ _ hlast
      rw [hdrop, hdrop, ih]
    | false =>
      have hkeep (front : List Char) : dropEnd isBlank (front ++ [last]) = front ++ [last] :=
        dropEnd_of_endsInInk ⟨front, last, rfl, hlast⟩
      rw [hkeep, hkeep, List.append_assoc]

/-- Characters to take off at the end of a text are not missed where they are taken off. -/
theorem dropEnd_append {p : Char → Bool} {tail : List Char} (h : ∀ c ∈ tail, p c = true)
    (text : List Char) : dropEnd p (text ++ tail) = dropEnd p text := by
  induction tail using List.reverseRecOn with
  | nil => rw [List.append_nil]
  | append_singleton tail last ih =>
    rw [← List.append_assoc]
    refine (List.rdropWhile_concat_pos _ _ _ (h last (by simp))).trans (ih fun c hc => ?_)
    exact h c (List.mem_append_left _ hc)

theorem strip_of_forall {p : Char → Bool} {text : List Char} (h : ∀ c ∈ text, p c = false) :
    strip p text = text := by
  have hfront : text.dropWhile p = text :=
    List.dropWhile_eq_self_iff.mpr fun hpos => Bool.eq_false_iff.mp (h _ (List.getElem_mem hpos))
  rw [strip, hfront]
  exact List.rdropWhile_eq_self_iff.mpr fun hne => Bool.eq_false_iff.mp (h _ (List.getLast_mem hne))

/-- Taking characters off the end does not bring any to the front. -/
theorem dropWhile_dropEnd (p : Char → Bool) (text : List Char) :
    (dropEnd p (text.dropWhile p)).dropWhile p = dropEnd p (text.dropWhile p) := by
  cases hkept : dropEnd p (text.dropWhile p) with
  | nil => rfl
  | cons c rest =>
    obtain ⟨more, hmore⟩ := dropEnd_isPrefix p (text.dropWhile p)
    have hhead := List.head?_dropWhile_not p text
    rw [← hmore, hkept] at hhead
    exact List.dropWhile_cons_of_neg (Bool.eq_false_iff.mp hhead)

/-- What is left of a text does not start with a character to take off. -/
theorem of_mem_head?_strip (p : Char → Bool) (text : List Char) :
    ∀ c ∈ (strip p text).head?, p c = false := by
  intro c hc
  have hhead := List.head?_dropWhile_not p (strip p text)
  rw [strip, dropWhile_dropEnd, ← strip, Option.mem_def.mp hc] at hhead
  exact hhead

/-- What is left of a text does not end with a character to take off. -/
theorem of_mem_getLast?_dropEnd (p : Char → Bool) (text : List Char) :
    ∀ c ∈ (dropEnd p text).getLast?, p c = false := by
  intro c hc
  obtain ⟨front, hfront⟩ := List.mem_getLast?_eq_getLast hc
  exact Bool.eq_false_iff.mpr (hfront ▸ List.rdropWhile_last_not p _ front)

theorem of_mem_getLast?_strip (p : Char → Bool) (text : List Char) :
    ∀ c ∈ (strip p text).getLast?, p c = false :=
  of_mem_getLast?_dropEnd p _

/-- After what is left of a text there are only characters to take off. -/
theorem exists_dropEnd (p : Char → Bool) (text : List Char) :
    ∃ after, text = dropEnd p text ++ after ∧ ∀ c ∈ after, p c = true :=
  ⟨text.rtakeWhile p, List.rdropWhile_append_rtakeWhile.symm, fun _ hc => List.mem_rtakeWhile_imp hc⟩

/-- Before and after what is left of a text there are only characters to take off. -/
theorem exists_strip (p : Char → Bool) (text : List Char) :
    ∃ before after, text = before ++ strip p text ++ after ∧ (∀ c ∈ before, p c = true) ∧
      ∀ c ∈ after, p c = true := by
  obtain ⟨after, hkept, hafter⟩ := exists_dropEnd p (text.dropWhile p)
  refine ⟨text.takeWhile p, after, ?_, fun c hc => List.mem_takeWhile_imp hc, hafter⟩
  rw [List.append_assoc, strip, ← hkept, List.takeWhile_append_dropWhile]

/-- A text between characters to take off is what is left, if it neither starts nor ends with one. -/
theorem strip_append_append {p : Char → Bool} {before core after : List Char}
    (hbefore : ∀ c ∈ before, p c = true) (hafter : ∀ c ∈ after, p c = true)
    (hfirst : ∀ c ∈ core.head?, p c = false) (hlast : ∀ c ∈ core.getLast?, p c = false) :
    strip p (before ++ core ++ after) = core := by
  rw [strip, List.append_assoc, List.dropWhile_append_of_pos hbefore]
  cases core with
  | nil => rw [List.nil_append, List.dropWhile_eq_nil_iff.mpr hafter]; rfl
  | cons c core =>
    rw [List.cons_append, List.dropWhile_cons_of_neg (Bool.eq_false_iff.mp (hfirst c rfl)),
      ← List.cons_append, dropEnd_append hafter]
    refine List.rdropWhile_eq_self_iff.mpr fun hne => Bool.eq_false_iff.mp (hlast _ ?_)
    exact List.getLast?_eq_some_getLast hne

end BuildBrowser.Text
