import BuildBrowser.Text.Blank
import BuildBrowser.Text.Split
import Mathlib.Data.List.DropRight

/-!
# Pieces of a text — cutting, joining and trimming

`splitOn` is the library's `List.splitOn` (`splitOn_eq`), so what the library knows of it holds here.
Two laws are added for texts that are paths:

- `splitOn_flatMap`: a text of pieces that each follow a separator is cut into those pieces again,
  after an empty one;
- `stripEmpty_splitOn`: trimming separators off a text and then cutting it is the same as cutting it
  and dropping the empty pieces at the ends. So trimming can be read off the pieces.

The second is proved an end at a time: `dropWhile_splitOn` by induction from the left,
`rdropWhile_splitOn` by induction from the right.

Pieces and lines hold no characters but those of the text (`mem_of_mem_splitOn`, `mem_of_mem_linesOf`).
-/

namespace BuildBrowser.Text

/-- Cutting at a separator is the library's `List.splitOn`. -/
theorem splitOn_eq (sep : Char) (text : List Char) : splitOn sep text = text.splitOn sep := by
  induction text with
  | nil => rfl
  | cons c text ih =>
    rw [splitOn, ih, List.splitOn_cons_eq_if_modifyHead]
    by_cases hc : c = sep
    · rw [if_pos hc, if_pos (beq_iff_eq.mpr hc)]
    · rw [if_neg hc, if_neg (fun h => hc (beq_iff_eq.mp h))]
      obtain ⟨piece, pieces, h⟩ := List.exists_cons_of_ne_nil (List.splitOn_ne_nil sep text)
      rw [h]
      rfl

theorem splitOn_cons_of_ne {sep c : Char} (hc : c ≠ sep) {text piece : List Char}
    {pieces : List (List Char)} (h : splitOn sep text = piece :: pieces) :
    splitOn sep (c :: text) = (c :: piece) :: pieces := by
  rw [splitOn, if_neg hc, h]

theorem splitOn_of_not_mem {sep : Char} {text : List Char} (h : sep ∉ text) :
    splitOn sep text = [text] := by
  rw [splitOn_eq]
  exact List.splitOn_eq_singleton h

theorem splitOn_eq_cons (sep : Char) (text : List Char) :
    ∃ piece pieces, splitOn sep text = piece :: pieces := by
  rw [splitOn_eq]
  exact List.exists_cons_of_ne_nil (List.splitOn_ne_nil sep text)

theorem splitOn_concat_self (sep : Char) (text : List Char) :
    splitOn sep (text ++ [sep]) = splitOn sep text ++ [[]] := by
  rw [splitOn_eq, splitOn_eq, List.splitOn_append_cons_self]
  rfl

/-- A character at the end that is no separator belongs to the last piece. -/
theorem splitOn_concat_of_ne {sep c : Char} (hc : c ≠ sep) (text : List Char) :
    ∃ pieces last, splitOn sep text = pieces ++ [last] ∧
      splitOn sep (text ++ [c]) = pieces ++ [last ++ [c]] := by
  induction text with
  | nil => exact ⟨[], [], rfl, splitOn_cons_of_ne hc rfl⟩
  | cons d text ih =>
    obtain ⟨pieces, last, htext, hconcat⟩ := ih
    by_cases hd : d = sep
    · refine ⟨[] :: pieces, last, ?_, ?_⟩
      · rw [splitOn, if_pos hd, htext, List.cons_append]
      · rw [List.cons_append, splitOn, if_pos hd, hconcat, List.cons_append]
    · cases pieces with
      | nil => exact ⟨[], d :: last, splitOn_cons_of_ne hd htext, splitOn_cons_of_ne hd hconcat⟩
      | cons piece pieces =>
        exact ⟨(d :: piece) :: pieces, last, splitOn_cons_of_ne hd htext,
          splitOn_cons_of_ne hd hconcat⟩

theorem intercalate_nil_cons (sep : Char) (pieces : List (List Char)) :
    [sep].intercalate ([] :: pieces) = pieces.flatMap (sep :: ·) := by
  induction pieces with
  | nil => rfl
  | cons piece pieces ih =>
    rw [List.intercalate_cons_cons, List.nil_append, List.flatMap_cons, ← ih]
    cases pieces with
    | nil => simp
    | cons next pieces => simp [List.intercalate_cons_cons]

/-- A text of pieces that each follow a separator, and hold none, is cut into those pieces after an
empty one. -/
theorem splitOn_flatMap {sep : Char} {pieces : List (List Char)} (h : ∀ piece ∈ pieces, sep ∉ piece) :
    splitOn sep (pieces.flatMap (sep :: ·)) = [] :: pieces := by
  rw [splitOn_eq, ← intercalate_nil_cons]
  refine List.splitOn_intercalate sep ?_ (List.cons_ne_nil _ _)
  intro piece hpiece
  rcases List.mem_cons.mp hpiece with rfl | hpiece
  · exact List.not_mem_nil
  · exact h piece hpiece

/-- Joined pieces hold what the pieces and the separator hold. -/
theorem forall_mem_intercalate {p : Char → Prop} {sep : List Char} (hsep : ∀ c ∈ sep, p c)
    {pieces : List (List Char)} (h : ∀ piece ∈ pieces, ∀ c ∈ piece, p c) :
    ∀ c ∈ sep.intercalate pieces, p c := by
  induction pieces with
  | nil => exact List.forall_mem_nil _
  | cons piece pieces ih =>
    obtain ⟨hpiece, hpieces⟩ := List.forall_mem_cons.mp h
    cases pieces with
    | nil => simpa using hpiece
    | cons next pieces =>
      rw [List.intercalate_cons_cons]
      exact List.forall_mem_append.mpr ⟨List.forall_mem_append.mpr ⟨hpiece, hsep⟩, ih hpieces⟩

/-! ## Separators at the ends -/

/-- The pieces without the empty ones before the first that is not, and after the last. -/
def stripEmpty (pieces : List (List Char)) : List (List Char) :=
  (pieces.dropWhile List.isEmpty).rdropWhile List.isEmpty

theorem dropWhile_splitOn (sep : Char) (text : List Char) :
    (splitOn sep text).dropWhile List.isEmpty =
      if text.dropWhile (· = sep) = [] then [] else splitOn sep (text.dropWhile (· = sep)) := by
  induction text with
  | nil => rfl
  | cons c text ih =>
    by_cases hc : c = sep
    · have hdrop : (c :: text).dropWhile (· = sep) = text.dropWhile (· = sep) :=
        List.dropWhile_cons_of_pos (decide_eq_true hc)
      rw [hdrop, splitOn, if_pos hc, List.dropWhile_cons_of_pos rfl, ih]
    · obtain ⟨piece, pieces, h⟩ := splitOn_eq_cons sep text
      have hdrop : (c :: text).dropWhile (· = sep) = c :: text :=
        List.dropWhile_cons_of_neg (by simpa using hc)
      rw [hdrop, if_neg (List.cons_ne_nil _ _), splitOn_cons_of_ne hc h]
      exact List.dropWhile_cons_of_neg Bool.false_ne_true

theorem rdropWhile_splitOn (sep : Char) (text : List Char) :
    (splitOn sep text).rdropWhile List.isEmpty =
      if text.rdropWhile (· = sep) = [] then [] else splitOn sep (text.rdropWhile (· = sep)) := by
  induction text using List.reverseRecOn with
  | nil => rfl
  | append_singleton text c ih =>
    by_cases hc : c = sep
    · have hdrop : (text ++ [c]).rdropWhile (· = sep) = text.rdropWhile (· = sep) :=
        List.rdropWhile_concat_pos _ _ _ (decide_eq_true hc)
      rw [hdrop, hc, splitOn_concat_self, List.rdropWhile_concat_pos _ _ _ rfl, ih]
    · obtain ⟨pieces, last, _, hconcat⟩ := splitOn_concat_of_ne hc text
      have hdrop : (text ++ [c]).rdropWhile (· = sep) = text ++ [c] :=
        List.rdropWhile_concat_neg _ _ _ (by simpa using hc)
      rw [hdrop, if_neg (by simp), hconcat]
      exact List.rdropWhile_concat_neg _ _ _ (by simp)

/-- **Trimming separators drops the empty pieces at the ends.** A text that is nothing but
separators has no pieces left. -/
theorem stripEmpty_splitOn (sep : Char) (text : List Char) :
    stripEmpty (splitOn sep text) =
      if strip (· = sep) text = [] then [] else splitOn sep (strip (· = sep) text) := by
  rw [stripEmpty, dropWhile_splitOn]
  change _ = if (text.dropWhile (· = sep)).rdropWhile (· = sep) = [] then []
    else splitOn sep ((text.dropWhile (· = sep)).rdropWhile (· = sep))
  generalize text.dropWhile (· = sep) = rest
  by_cases h : rest = []
  · rw [h, if_pos rfl]
    rfl
  · rw [if_neg h, rdropWhile_splitOn]

/-! ## The first piece and the last one -/

/-- The first piece is empty if the text starts with a separator, or is empty. -/
theorem head?_splitOn {sep : Char} {text : List Char} :
    (splitOn sep text).head? = some [] ↔ text = [] ∨ text.head? = some sep := by
  cases text with
  | nil => simp [splitOn]
  | cons c text =>
    by_cases hc : c = sep
    · simp [splitOn, hc]
    · obtain ⟨piece, pieces, h⟩ := splitOn_eq_cons sep text
      simp [splitOn_cons_of_ne hc h, hc]

/-- The last piece is empty if the text ends with a separator, or is empty. -/
theorem getLast?_splitOn {sep : Char} {text : List Char} :
    (splitOn sep text).getLast? = some [] ↔ text = [] ∨ text.getLast? = some sep := by
  cases text using List.reverseRecOn with
  | nil => simp [splitOn]
  | append_singleton text c =>
    by_cases hc : c = sep
    · simp [hc, splitOn_concat_self]
    · obtain ⟨pieces, last, _, h⟩ := splitOn_concat_of_ne hc text
      simp [h, hc]

/-! ## Characters of the pieces -/

theorem mem_of_mem_splitOn {sep : Char} {text piece : List Char} (h : piece ∈ splitOn sep text)
    {c : Char} (hc : c ∈ piece) : c ∈ text := by
  induction text generalizing piece with
  | nil =>
    obtain rfl := List.mem_singleton.mp h
    cases hc
  | cons d text ih =>
    rw [splitOn] at h
    split at h
    · rcases List.mem_cons.mp h with rfl | h
      · cases hc
      · exact List.mem_cons_of_mem _ (ih h hc)
    · obtain ⟨first, pieces, hpieces⟩ := splitOn_eq_cons sep text
      rw [hpieces] at h ih
      rcases List.mem_cons.mp h with rfl | h
      · rcases List.mem_cons.mp hc with rfl | hc
        · exact List.mem_cons_self
        · exact List.mem_cons_of_mem _ (ih List.mem_cons_self hc)
      · exact List.mem_cons_of_mem _ (ih (List.mem_cons_of_mem _ h) hc)

/-- No piece has a separator in it. -/
theorem not_mem_of_mem_splitOn {sep : Char} {text piece : List Char} (h : piece ∈ splitOn sep text) :
    sep ∉ piece := by
  induction text generalizing piece with
  | nil =>
    obtain rfl := List.mem_singleton.mp h
    exact List.not_mem_nil
  | cons c text ih =>
    by_cases hc : c = sep
    · rw [splitOn, if_pos hc] at h
      rcases List.mem_cons.mp h with rfl | h
      · exact List.not_mem_nil
      · exact ih h
    · obtain ⟨first, pieces, hpieces⟩ := splitOn_eq_cons sep text
      rw [splitOn_cons_of_ne hc hpieces] at h
      rw [hpieces] at ih
      rcases List.mem_cons.mp h with rfl | h
      · exact List.not_mem_cons_of_ne_of_not_mem (Ne.symm hc) (ih List.mem_cons_self)
      · exact ih (List.mem_cons_of_mem _ h)

theorem mem_of_mem_dropReturn {line : List Char} {c : Char} (h : c ∈ dropReturn line) : c ∈ line := by
  unfold dropReturn at h
  split at h
  · next before heq =>
    rw [← List.mem_reverse, heq]
    exact List.mem_cons_of_mem _ (List.mem_reverse.mp h)
  · exact h

theorem mem_of_mem_linesOf {pieces : List (List Char)} {line : List Char} (h : line ∈ linesOf pieces)
    {c : Char} (hc : c ∈ line) : ∃ piece ∈ pieces, c ∈ piece := by
  induction pieces with
  | nil => cases h
  | cons piece pieces ih =>
    cases pieces with
    | nil =>
      rw [linesOf] at h
      split at h
      · cases h
      · obtain rfl := List.mem_singleton.mp h
        exact ⟨line, List.mem_cons_self, hc⟩
    | cons next pieces =>
      rcases List.mem_cons.mp h with rfl | h
      · exact ⟨piece, List.mem_cons_self, mem_of_mem_dropReturn hc⟩
      · obtain ⟨found, hfound, hc⟩ := ih h
        exact ⟨found, List.mem_cons_of_mem _ hfound, hc⟩

/-! ## Lines -/

/-- Pieces that each end with the separator are the pieces joined, and one more separator. -/
theorem flatMap_concat (sep : Char) {pieces : List (List Char)} (h : pieces ≠ []) :
    (pieces.flatMap fun piece => piece ++ [sep]) = [sep].intercalate pieces ++ [sep] := by
  induction pieces with
  | nil => exact absurd rfl h
  | cons piece pieces ih =>
    cases pieces with
    | nil => simp
    | cons next pieces =>
      rw [List.flatMap_cons, ih (List.cons_ne_nil _ _), List.intercalate_cons_cons]
      simp only [List.append_assoc]

theorem dropReturn_of_not_mem {line : List Char} (h : '\r' ∉ line) : dropReturn line = line := by
  unfold dropReturn
  split
  · next before heq =>
    refine absurd ?_ h
    rw [← List.mem_reverse, heq]
    exact List.mem_cons_self
  · rfl

/-- Pieces without carriage returns are the lines, if the last one is not empty. -/
theorem linesOf_eq_self {pieces : List (List Char)} (hreturn : ∀ piece ∈ pieces, '\r' ∉ piece)
    (hlast : pieces.getLast? ≠ some []) : linesOf pieces = pieces := by
  induction pieces with
  | nil => rfl
  | cons piece pieces ih =>
    cases pieces with
    | nil =>
      have hne : piece ≠ [] := by simpa using hlast
      rw [linesOf, if_neg (by simpa using hne)]
    | cons next pieces =>
      obtain ⟨hpiece, hpieces⟩ := List.forall_mem_cons.mp hreturn
      rw [List.getLast?_cons_cons] at hlast
      rw [linesOf, dropReturn_of_not_mem hpiece, ih hpieces hlast]
      exact List.cons_ne_nil _ _

/-- An empty piece at the end is no line. -/
theorem linesOf_concat_nil {pieces : List (List Char)} (hreturn : ∀ piece ∈ pieces, '\r' ∉ piece) :
    linesOf (pieces ++ [[]]) = pieces := by
  induction pieces with
  | nil => rfl
  | cons piece pieces ih =>
    obtain ⟨hpiece, hpieces⟩ := List.forall_mem_cons.mp hreturn
    rw [List.cons_append, linesOf, dropReturn_of_not_mem hpiece, ih hpieces]
    simp

section

variable {written : List (List Char)} (hplain : ∀ line ∈ written, '\n' ∉ line ∧ '\r' ∉ line)

include hplain

/-- **A text is cut into the lines that it is written with**, if they hold no line ends. -/
theorem lines_flatMap : lines (written.flatMap fun line => line ++ ['\n']) = written := by
  by_cases hwritten : written = []
  · subst hwritten
    rfl
  · rw [lines, flatMap_concat '\n' hwritten, splitOn_concat_self, splitOn_eq,
      List.splitOn_intercalate '\n' (fun line hline => (hplain line hline).1) hwritten,
      linesOf_concat_nil fun line hline => (hplain line hline).2]

/-- The last line may lack its line feed, if it is not empty. -/
theorem lines_of_concat {text : List Char} (hlast : written.getLast? ≠ some [])
    (h : text ++ ['\n'] = written.flatMap fun line => line ++ ['\n']) : lines text = written := by
  have hwritten : written ≠ [] := by
    rintro rfl
    simp at h
  rw [flatMap_concat '\n' hwritten] at h
  rw [lines, List.append_cancel_right h, splitOn_eq,
    List.splitOn_intercalate '\n' (fun line hline => (hplain line hline).1) hwritten,
    linesOf_eq_self (fun line hline => (hplain line hline).2) hlast]

end

end BuildBrowser.Text
