import BuildBrowser.Command.Task
import BuildBrowser.Proofs.Render.Table
import BuildBrowser.Render.Scope
import Mathlib.Data.Nat.Digits.Defs

/-!
# Scopes that can be written

The last column of a listing is not padded, so only the texts of the others bound it
(`Table.fits_concat_iff`). A list of builds and a list of tasks are always written. A job list is
written unless a name is longer than the greatest width, and artifacts are unless the name of a file is
(`Scope.Fits`): **a scope comes to its end exactly if its texts are short enough**
(`Scope.complete_render`). The JSON form has no columns.
-/

namespace BuildBrowser

/-! ## Columns but for the last -/

namespace Table

variable {title : String} {rows : List (List (List Char))}

/-- A table whose last column keeps to the left fits if the texts of the other columns are short
enough. -/
theorem fits_concat_iff (front : List Column) :
    Table.Fits ⟨front ++ [.secondary title], rows⟩ ↔
      ∀ (i : Nat) (column : Column), front[i]? = some column →
        ∀ text ∈ Table.columnTexts ⟨front, rows⟩ i column, text.length ≤ maxWidth := by
  constructor
  · intro h i column hcolumn
    have hi : i < front.length := (List.getElem?_eq_some_iff.mp hcolumn).1
    have hget : (front ++ [Column.secondary title])[i]? = some column := by
      rw [List.getElem?_append_left hi, hcolumn]
    refine (h i column hget).resolve_left fun hlast => ?_
    have hlength : i + 1 = (front ++ [Column.secondary title]).length := hlast.2
    rw [List.length_append, List.length_singleton] at hlength
    omega
  · intro h i column hcolumn
    rw [List.getElem?_append] at hcolumn
    split at hcolumn
    · exact .inr (h i column hcolumn)
    · next hi =>
      rw [List.getElem?_singleton] at hcolumn
      obtain ⟨hlast, ⟨⟩⟩ := Option.ite_none_right_eq_some.mp hcolumn
      refine .inl ⟨rfl, ?_⟩
      rw [List.length_append, List.length_singleton]
      omega

/-- A table of one column that keeps to the left fits. -/
theorem fits_single (heading : String) (rows : List (List (List Char))) :
    Table.Fits ⟨[.left heading], rows⟩ := by
  intro i column hcolumn
  rw [List.getElem?_singleton] at hcolumn
  obtain ⟨rfl, ⟨⟩⟩ := Option.ite_none_right_eq_some.mp hcolumn
  exact .inl ⟨rfl, rfl⟩

/-- A table of two columns, the last of which keeps to the left. -/
theorem fits_pair_iff {α : Type} {column : Column} {as : List α} {first last : α → List Char} :
    Table.Fits ⟨[column, .secondary title], as.map fun a => [first a, last a]⟩ ↔
      column.heading.length ≤ maxWidth ∧ ∀ a ∈ as, (column.fit (first a)).length ≤ maxWidth := by
  refine (fits_concat_iff [column]).trans ?_
  simp only [columnTexts, List.map_map, List.forall_mem_cons, List.forall_mem_map]
  constructor
  · intro h
    exact h 0 column rfl
  · intro h i other hother
    rw [List.getElem?_singleton] at hother
    obtain ⟨rfl, ⟨⟩⟩ := Option.ite_none_right_eq_some.mp hother
    exact h

/-- A table of three columns, the last of which keeps to the left. -/
theorem fits_triple_iff {α : Type} {column next : Column} {as : List α}
    {first second last : α → List Char} :
    Table.Fits ⟨[column, next, .secondary title], as.map fun a => [first a, second a, last a]⟩ ↔
      (column.heading.length ≤ maxWidth ∧ ∀ a ∈ as, (column.fit (first a)).length ≤ maxWidth) ∧
        next.heading.length ≤ maxWidth ∧ ∀ a ∈ as, (next.fit (second a)).length ≤ maxWidth := by
  refine (fits_concat_iff [column, next]).trans ?_
  simp only [columnTexts, List.map_map, List.forall_mem_cons, List.forall_mem_map]
  constructor
  · intro h
    exact ⟨h 0 column rfl, h 1 next rfl⟩
  · rintro ⟨hcolumn, hnext⟩ i other hother
    match i with
    | 0 => cases hother; exact hcolumn
    | 1 => cases hother; exact hnext
    | i + 2 => cases hother

end Table

/-! ## Scopes -/

/-- The texts that a scope shows in columns that are padded are short enough: the names of jobs, and
those of files. -/
def Scope.Fits : Scope → Prop
  | .jobList scope => ∀ job ∈ scope.jobs.getD [], job.text.length ≤ maxWidth
  | .jobBuilds _ => True
  | .buildState scope => scope.state = none ∨
      ∀ r ∈ scope.artifacts.getD [], ∀ name ∈ r.fileName, name.length ≤ maxWidth

theorem JobListScope.complete_text (colour : Colour) (scope : JobListScope) :
    (scope.text colour).complete = true ↔
      ∀ job ∈ scope.jobs.getD [], job.text.length ≤ maxWidth := by
  unfold text
  cases scope.jobs.getD [] with
  | nil => exact iff_of_true rfl (List.forall_mem_nil _)
  | cons job jobs =>
    have hheading : (Column.left "JOB").heading.length ≤ maxWidth := by decide
    rw [Table.complete_render]
    refine Table.fits_pair_iff.trans ((and_iff_right hheading).trans ?_)
    simp only [Column.fit_left, String.length_toList]

/-- Of a job list with a name that is too long nothing is written. -/
theorem JobListScope.text_of_long (colour : Colour) {scope : JobListScope}
    (h : ¬∀ job ∈ scope.jobs.getD [], job.text.length ≤ maxWidth) : scope.text colour = ⟨"", false⟩ := by
  have hstopped := mt (complete_text colour scope).mp h
  unfold text at hstopped ⊢
  cases hjobs : scope.jobs.getD [] with
  | nil =>
    rw [hjobs] at h
    exact absurd (List.forall_mem_nil _) h
  | cons job jobs =>
    rw [hjobs] at hstopped
    exact Table.render_of_not_fits (mt (Table.complete_render _ colour).mpr hstopped) colour

/-- A number of 64 bits has twenty digits at most. -/
theorem BuildNumber.length_text_le (build : BuildNumber) : build.text.toList.length ≤ 20 := by
  have hsmall : build.value.toNat < 10 ^ 20 := build.value.toNat_lt.trans (by decide)
  rw [text, Decimal.numeral, String.toList_ofList]
  exact Nat.toDigits_length 10 _ 20 (by decide) hsmall

theorem JobBuildsScope.complete_text (colour : Colour) (scope : JobBuildsScope) :
    (scope.text colour).complete = true := by
  unfold text
  cases scope.builds.getD [] with
  | nil => rfl
  | cons build builds =>
    have hheading : (Column.right "BUILD").heading.length ≤ maxWidth := by decide
    refine (Table.complete_render _ colour).mpr (Table.fits_pair_iff.mpr ⟨hheading, fun build _ => ?_⟩)
    exact build.length_text_le.trans (by decide)

theorem complete_artifactsText (colour : Colour) (records : List ArtifactRecord) :
    (artifactsText colour records).complete = true ↔
      ∀ r ∈ records, ∀ name ∈ r.fileName, name.length ≤ maxWidth := by
  unfold artifactsText
  cases records with
  | nil => exact iff_of_true rfl (List.forall_mem_nil _)
  | cons record records =>
    -- names of artifacts are cut, so only those of files can be too long
    have hid (r : ArtifactRecord) :
        (((Column.left "ID").withCap maxIdLength).fit r.id.text.toList).length ≤ maxWidth :=
      (Column.length_fit_le rfl (by decide) _).trans (by decide)
    have hheadings : ((Column.left "ID").withCap maxIdLength).heading.length ≤ maxWidth ∧
        (Column.left "FILE").heading.length ≤ maxWidth := by decide
    rw [Table.complete_render]
    refine Table.fits_triple_iff.trans ((and_iff_right ⟨hheadings.1, fun r _ => hid r⟩).trans
      ((and_iff_right hheadings.2).trans (forall₂_congr fun r _ => ?_)))
    cases r.fileName with
    | none => exact iff_of_true (by decide) nofun
    | some name => simp [String.length_toList]

theorem BuildStateScope.complete_text (colour : Colour) (scope : BuildStateScope) :
    (scope.text colour).complete = true ↔ scope.state = none ∨
      ∀ r ∈ scope.artifacts.getD [], ∀ name ∈ r.fileName, name.length ≤ maxWidth := by
  unfold text
  cases scope.state with
  | none => exact iff_of_true rfl (.inl rfl)
  | some state =>
    exact (complete_artifactsText colour _).trans (or_iff_right (Option.some_ne_none state)).symm

namespace Scope

/-- **A scope is written to its end** in the JSON form, and in the text form if its texts are short
enough. -/
theorem complete_render (colour : Colour) (format : Format) (scope : Scope) :
    (scope.render colour format).complete = true ↔ format = .json ∨ scope.Fits := by
  cases format with
  | json => exact iff_of_true rfl (.inl rfl)
  | text =>
    refine Iff.trans ?_ (or_iff_right Format.noConfusion).symm
    cases scope with
    | jobList scope => exact scope.complete_text colour
    | jobBuilds scope => exact iff_of_true (scope.complete_text colour) trivial
    | buildState scope => exact scope.complete_text colour

end Scope

/-- A listing of tasks is always written to its end. -/
theorem complete_tasksText (colour : Colour) (tasks : List TaskId) :
    (tasksText colour tasks).complete = true := by
  cases tasks with
  | nil => rfl
  | cons task tasks => exact (Table.complete_render _ colour).mpr (Table.fits_single "TASK" _)

end BuildBrowser
