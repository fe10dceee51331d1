import BuildBrowser.Proofs.Render.Fits
import BuildBrowser.Proofs.RequestTarget
import BuildBrowser.Proofs.Text.Blank

/-!
# Listings — the paths that they show

A job list and a list of builds are tables of two columns: a name, and the path of the view that
belongs to it. `Scope.links` is what a scope lists, and `Scope.text_links` says that the text of a
scope, if it comes to its end, ends in exactly these lines, whatever the names are.

Two things could damage a path. A table cuts cells, but only in columns with a cap, and takes the
blanks off the end of a line; the path ends in no blank (`endsInInk_path`), so nothing of it is taken.
-/

namespace BuildBrowser

open Text

/-! ## What ends in no blank -/

theorem endsInInk_paint {text : List Char} (h : EndsInInk text) (colour : Colour) (tint : Tint) :
    EndsInInk (paint colour tint text) := by
  cases colour with
  | off => exact h
  | on => exact EndsInInk.append ⟨['\x1b', '[', '0'], 'm', rfl, by decide⟩ _

/-- No character of a path is a blank. -/
theorem isBlank_of_mem_absolutePath {c : Char} {segments : List String}
    (h : c ∈ (absolutePath segments).toList) : isBlank c = false :=
  ((pathText_absolutePath segments).harmless c h).not_blank

theorem endsInInk_path (route : Route) : EndsInInk route.path.toList := by
  have hpath : route.path.toList ≠ [] := by
    cases route <;> simp [Route.path, Route.segments, absolutePath]
  exact .of_forall hpath fun c hc => isBlank_of_mem_absolutePath hc

/-! ## Tables -/

namespace Table

variable {column : Column} {title : String}

/-- **A line of two columns**: a text padded to the width of its column, two blanks, and the other
text as it is, if that ends in no blank. -/
theorem line_pair {table : Table} (hfits : table.Fits)
    (h : table.columns = [column, .secondary title]) :
    ∃ width, ∀ (ink : Column → List Char → List Char) (text last : List Char),
      EndsInInk (ink (.secondary title) last) →
      table.line ink [text, last] = some
        (ink column (fill column.side width text) ++ [' ', ' '] ++ ink (.secondary title) last) := by
  have hcolumn : table.columns[0]? = some column := by rw [h]; rfl
  obtain ⟨width, hwidth, hlongest⟩ := table.exists_width hcolumn
  have hpadded : width ≤ maxWidth := by
    refine hlongest.le_iff.mpr ((hfits 0 column hcolumn).resolve_left fun hlast => ?_)
    have hlength : 0 + 1 = table.columns.length := hlast.2
    rw [h] at hlength
    cases hlength
  refine ⟨width, fun ink text last hlast => ?_⟩
  refine line_eq_some.mpr ⟨[ink column (fill column.side width text), ink (.secondary title) last], ?_, ?_⟩
  · obtain ⟨first, other, hwidths⟩ : ∃ first other, table.widths = [first, other] :=
      List.length_eq_two.mp (by rw [length_widths, h]; rfl)
    obtain rfl : first = width := by
      rw [hwidths] at hwidth
      exact Option.some.inj hwidth
    rw [h, hwidths]
    refine cells_cons_eq_some.mpr ⟨_, [ink (.secondary title) last], pad_of_le hpadded _ _, ?_, rfl⟩
    exact cells_cons_eq_some.mpr ⟨last, [], pad_eq_some.mpr (.inl ⟨rfl, rfl, rfl⟩), rfl, rfl⟩
  · have hjoined : joinCells [ink column (fill column.side width text), ink (.secondary title) last] =
        ink column (fill column.side width text) ++ [' ', ' '] ++ ink (.secondary title) last := by
      simp [joinCells, List.intercalate]
    rw [hjoined]
    exact (dropEnd_of_endsInInk (hlast.append _)).symm

/-- **The text of a table of two columns** that fits, the second of which has texts that end in no
blank. -/
theorem render_pair (colour : Colour) (rows : List (List Char × List Char))
    (hfits : Table.Fits ⟨[column, .secondary title], rows.map fun row => [row.1, row.2]⟩)
    (hcap : column.cap = none) (hplain : column.muted = false) (htitle : EndsInInk title.toList)
    (hrows : ∀ row ∈ rows, EndsInInk row.2) :
    ∃ width, render colour ⟨[column, .secondary title], rows.map fun row => [row.1, row.2]⟩ =
      .whole (String.ofList
        (paint colour .header (fill column.side width column.heading) ++ [' ', ' '] ++
          paint colour .header title.toList ++ ['\n'] ++
        rows.flatMap fun row =>
          fill column.side width row.1 ++ [' ', ' '] ++ paint colour .muted row.2 ++ ['\n'])) := by
  obtain ⟨width, hline⟩ := line_pair hfits rfl
  have hfit (cell other : List Char) :
      fitRow [column, .secondary title] [cell, other] = [cell, other] := by
    simp only [fitRow, Column.fit, hcap, Column.secondary]
  refine ⟨width, ?_⟩
  rw [render_of_fits hfits, List.flatMap_cons, fitted]
  simp only [List.flatMap_map]
  refine congrArg (Rendering.whole ∘ String.ofList)
    (congrArg₂ (· ++ ·) ?heading (List.flatMap_congr fun row hrow => ?row))
  case heading =>
    rw [lineText]
    exact congrArg (·.getD [] ++ ['\n'])
      (hline (fun _ => paint colour .header) _ _ (endsInInk_paint htitle colour .header))
  case row =>
    rw [hfit, lineText, hline _ _ _ (endsInInk_paint (hrows row hrow) colour .muted), rowInk, hplain]
    rfl

end Table

/-! ## Links -/

/-- What a scope lists: the name of each job or build, with the route of its view. -/
def Scope.links : Scope → List (String × Route)
  | .jobList scope => (scope.jobs.getD []).map fun job => (job.text, .jobBuilds job)
  | .jobBuilds scope =>
    (scope.builds.getD []).map fun build => (build.text, .buildState scope.job build.text)
  | .buildState _ => []

/-- The lines of links: headings, and then the name of each link, padded to a width, and its path. -/
def linkLines (colour : Colour) (column : Column) (width : Nat) (links : List (String × Route)) :
    List Char :=
  paint colour .header (fill column.side width column.heading) ++ [' ', ' '] ++
    paint colour .header "VIEW".toList ++ ['\n'] ++
  links.flatMap fun link =>
    fill column.side width link.1.toList ++ [' ', ' '] ++
      paint colour .muted link.2.path.toList ++ ['\n']

theorem render_links {colour : Colour} {column : Column} {links : List (String × Route)}
    (hfits : Table.Fits ⟨[column, .secondary "VIEW"],
      links.map fun link => [link.1.toList, link.2.path.toList]⟩)
    (hcap : column.cap = none) (hplain : column.muted = false) :
    ∃ width, Table.render colour ⟨[column, .secondary "VIEW"],
        links.map fun link => [link.1.toList, link.2.path.toList]⟩ =
      .whole (String.ofList (linkLines colour column width links)) := by
  have htitle : EndsInInk "VIEW".toList := ⟨"VIE".toList, 'W', rfl, by decide⟩
  have hrows : (links.map fun link => (link.1.toList, link.2.path.toList)).map
      (fun row => [row.1, row.2]) = links.map fun link => [link.1.toList, link.2.path.toList] :=
    List.map_map
  rw [← hrows] at hfits ⊢
  obtain ⟨width, h⟩ := Table.render_pair colour _ hfits hcap hplain htitle
    (List.forall_mem_map.mpr fun link _ => endsInInk_path link.2)
  rw [List.flatMap_map] at h
  exact ⟨width, h⟩

/-- **The text of a scope that lists anything ends in the lines of its links**, if it comes to its
end. -/
theorem Scope.text_links {colour : Colour} {scope : Scope} (h : scope.links ≠ [])
    (hfits : scope.Fits) :
    ∃ above column width, scope.render colour .text =
      .whole (String.ofList (above ++ linkLines colour column width scope.links)) := by
  cases scope with
  | jobList scope =>
    have htable : scope.text colour = Table.render colour ⟨[.left "JOB", .secondary "VIEW"],
        (links (.jobList scope)).map fun link => [link.1.toList, link.2.path.toList]⟩ := by
      rw [JobListScope.text]
      simp only [links, List.map_map] at h ⊢
      cases hjobs : scope.jobs.getD [] with
      | nil => exact absurd (by rw [hjobs]; rfl) h
      | cons job jobs => rfl
    have hcomplete := (scope.complete_text colour).mpr hfits
    rw [htable, Table.complete_render] at hcomplete
    obtain ⟨width, hlines⟩ := render_links hcomplete rfl rfl
    exact ⟨[], .left "JOB", width, htable.trans hlines⟩
  | jobBuilds scope =>
    have htable : scope.text colour = .under (fieldLine colour "Job" scope.job.text)
        (.under "\n" (Table.render colour ⟨[.right "BUILD", .secondary "VIEW"],
          (links (.jobBuilds scope)).map fun link => [link.1.toList, link.2.path.toList]⟩)) := by
      rw [JobBuildsScope.text]
      simp only [links, List.map_map] at h ⊢
      cases hbuilds : scope.builds.getD [] with
      | nil => exact absurd (by rw [hbuilds]; rfl) h
      | cons build builds => rfl
    have hcomplete := scope.complete_text colour
    rw [htable, Rendering.complete_under, Rendering.complete_under, Table.complete_render] at hcomplete
    obtain ⟨width, hlines⟩ := render_links hcomplete rfl rfl
    refine ⟨(fieldLine colour "Job" scope.job.text).toList ++ ['\n'], .right "BUILD", width, ?_⟩
    refine htable.trans ?_
    rw [hlines, Rendering.under_whole, Rendering.under_whole, List.append_assoc]
    rfl
  | buildState scope => exact absurd rfl h

end BuildBrowser
