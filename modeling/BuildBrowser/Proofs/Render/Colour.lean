import BuildBrowser.Command.Job
import BuildBrowser.Command.Route
import BuildBrowser.Command.Task
import BuildBrowser.Proofs.Json.Controls
import BuildBrowser.Proofs.Render.Table
import BuildBrowser.Proofs.Render.Uncolour
import BuildBrowser.Proofs.RequestTarget
import BuildBrowser.Render.Scope

/-!
# Colour never changes the text

Every text form is rendered twice, with colour and without, and the two are compared once the escape
sequences of colours are gone. Reports that have no table come out equal. A table may keep blanks at
the end of a line that it loses without colour, since they stand before the end of a colour there; its
lines are the same but for those (`SameLines`). The widths of columns are those of the texts without
paint in both, so nothing moves.

Asked for is only that the texts that are shown as they are, such as names, hold neither an escape
character nor a line feed (`CleanText`). Values that are shown as JSON hold neither, whatever is in them.
-/

namespace BuildBrowser

open Text

/-! ## CleanText texts -/

/-- The text has no escape character and no line feed. -/
def CleanText (text : List Char) : Prop :=
  ∀ c ∈ text, c ≠ '\x1b' ∧ c ≠ '\n'

namespace CleanText

variable {text more : List Char}

theorem no_escape (h : CleanText text) : '\x1b' ∉ text :=
  fun hmem => (h _ hmem).1 rfl

theorem no_lineFeed (h : CleanText text) : '\n' ∉ text :=
  fun hmem => (h _ hmem).2 rfl

theorem nil : CleanText [] :=
  fun _ h => nomatch h

theorem append (h : CleanText text) (hmore : CleanText more) : CleanText (text ++ more) :=
  List.forall_mem_append.mpr ⟨h, hmore⟩

/-- A text without control characters is clean. -/
theorem of_printable (h : ∀ c ∈ text, 0x20 ≤ c.toNat) : CleanText text := by
  intro c hc
  have hprintable := h c hc
  constructor <;> rintro rfl <;> exact absurd hprintable (by decide)

theorem take (h : CleanText text) (n : Nat) : CleanText (text.take n) :=
  fun c hc => h c (List.mem_of_mem_take hc)

end CleanText

theorem clean_path (route : Route) : CleanText route.path.toList := by
  refine .of_printable fun c hc => ?_
  have hharmless := (pathText_absolutePath route.segments).harmless c hc
  exact Nat.le_of_lt hharmless.printable.1

theorem clean_buildNumber (build : BuildNumber) : CleanText build.text.toList := by
  refine .of_printable ?_
  rw [BuildNumber.text, Decimal.numeral, String.toList_ofList]
  exact Decimal.forall_mem_numeral _

/-! ## Renderings -/

namespace Rendering

/-- A painted rendering shows a plain one: both come to their end or neither does, and so far the
painted one shows the lines of the plain one. -/
structure Shows (painted plain : Rendering) : Prop where
  complete : painted.complete = plain.complete
  text : BuildBrowser.Shows painted.text.toList plain.text.toList

theorem shows_line (line : List Char) (h : '\x1b' ∉ line) :
    (whole (String.ofList (line ++ ['\n']))).Shows (whole (String.ofList (line ++ ['\n']))) := by
  refine ⟨rfl, ?_⟩
  rw [whole, String.toList_ofList]
  exact .of_line line h

theorem Shows.under {painted plain : Rendering} (h : painted.Shows plain) {above above' : String}
    (habove : BuildBrowser.Shows above.toList above'.toList) :
    (painted.under above).Shows (plain.under above') := by
  refine ⟨h.complete, ?_⟩
  rw [Rendering.under, Rendering.under, String.toList_append, String.toList_append]
  exact habove.append h.text

/-- Both renderings come to their end or neither does, and without the colours they have the same lines,
but for the blanks at the ends of lines. -/
def SameLines (painted plain : Rendering) : Prop :=
  painted.complete = plain.complete ∧
    BuildBrowser.SameLines (uncolour painted.text.toList) plain.text.toList

theorem Shows.sameLines {painted plain : Rendering} (h : painted.Shows plain) :
    painted.SameLines plain :=
  ⟨h.complete, h.text.sameLines⟩

end Rendering

/-! ## Tables -/

namespace Table

/-- The headings and the cells are clean. -/
structure Clean (table : Table) : Prop where
  headings : ∀ column ∈ table.columns, CleanText column.heading
  cells : ∀ row ∈ table.rows, ∀ cell ∈ row, CleanText cell

/-- A paint of cells whose sequences can be deleted again. -/
def Washable (ink : Column → List Char → List Char) : Prop :=
  ∀ column text, CleanText text → Uncolours (ink column text) text

theorem washable_header (colour : Colour) : Washable fun _ => paint colour .header :=
  fun _ _ h => .of_paint h.no_escape colour .header

theorem washable_rowInk (colour : Colour) : Washable (rowInk colour) := by
  intro column text h
  unfold rowInk
  split
  · exact .of_paint h.no_escape colour .muted
  · exact .of_not_mem h.no_escape

/-- Cells are padded before they are painted, so paint changes no width. -/
theorem uncolours_cells {ink : Column → List Char → List Char} (hink : Washable ink) :
    (columns : List Column) → (widths : List Nat) → {texts painted plain : List (List Char)} →
      cells ink columns widths texts = some painted → cells noInk columns widths texts = some plain →
      (∀ text ∈ texts, CleanText text) → List.Forall₂ Uncolours painted plain
  | column :: columns, width :: widths, text :: texts, _, _, hpainted, hplain, h => by
    obtain ⟨htext, htexts⟩ := List.forall_mem_cons.mp h
    obtain ⟨padded, painted, hpad, hrest, rfl⟩ := cells_cons_eq_some.mp hpainted
    obtain ⟨padded', plain, hpad', hrest', rfl⟩ := cells_cons_eq_some.mp hplain
    obtain rfl := Option.some.inj (hpad.symm.trans hpad')
    refine .cons (hink column _ ?_) (uncolours_cells hink columns widths hrest hrest' htexts)
    exact forall_mem_pad (by decide) hpad htext
  | [], _, _, _, _, hpainted, hplain, _ => by
    cases hpainted
    cases hplain
    exact .nil
  | _ :: _, [], _, _, _, hpainted, hplain, _ => by
    cases hpainted
    cases hplain
    exact .nil
  | _ :: _, _ :: _, [], _, _, hpainted, hplain, _ => by
    cases hpainted
    cases hplain
    exact .nil

/-- **A painted line shows the line without paint.** -/
theorem shows_line {table : Table} (hfits : table.Fits) {ink : Column → List Char → List Char}
    (hink : Washable ink) {texts : List (List Char)} (htexts : texts.length = table.columns.length)
    (h : ∀ text ∈ texts, CleanText text) :
    Shows (table.lineText ink texts ++ ['\n']) (table.lineText noInk texts ++ ['\n']) := by
  have hplain := line_of_fits noInk hfits htexts
  obtain ⟨painted, hcells, hline⟩ := line_eq_some.mp (line_of_fits ink hfits htexts)
  obtain ⟨plain, hcells', hline'⟩ := line_eq_some.mp hplain
  have hspaces : '\x1b' ∉ [' ', ' '] := by decide
  have hjoined : Uncolours (joinCells painted) (joinCells plain) :=
    Uncolours.intercalate hspaces (uncolours_cells hink _ _ hcells hcells' h)
  have hclean : CleanText (joinCells plain) :=
    forall_mem_joinCells (by decide) table.columns table.widths hcells' h
  rw [hline, hline']
  exact Shows.of_trimmed hjoined hclean.no_lineFeed

/-- **A painted table shows the table without paint**, and neither is written if the other is not. -/
theorem shows_render {table : Table} (h : table.Clean) :
    (table.render .on).Shows (table.render .off) := by
  by_cases hfits : table.Fits
  · rw [render_of_fits hfits, render_of_fits hfits]
    refine ⟨rfl, ?_⟩
    simp only [Rendering.whole, String.toList_ofList, List.flatMap_cons, List.flatMap_map, rowInk_off]
    refine Shows.append (shows_line hfits (washable_header .on) (List.length_map _) ?headings)
      (Shows.flatMap ?rows)
    case headings =>
      intro heading hheading
      obtain ⟨column, hcolumn, rfl⟩ := List.mem_map.mp hheading
      exact h.headings column hcolumn
    case rows =>
      intro row hrow
      refine shows_line hfits (washable_rowInk .on) (length_of_mem_fitted hrow) ?_
      obtain ⟨row, hmem, rfl⟩ := List.mem_map.mp hrow
      exact forall_mem_fitRow (by decide) table.columns (h.cells row hmem)
  · rw [render_of_not_fits hfits, render_of_not_fits hfits]
    exact ⟨rfl, fun _ _ hmore => hmore⟩

end Table

/-- A table with a row for each of some things is clean if its headings are, and the row of each. -/
theorem Table.clean_of_rows {α : Type} {columns : List Column} {as : List α}
    {row : α → List (List Char)} (hheadings : ∀ column ∈ columns, ∀ c ∈ column.heading, 0x20 ≤ c.toNat)
    (hrow : ∀ a ∈ as, ∀ cell ∈ row a, CleanText cell) : Table.Clean ⟨columns, as.map row⟩ where
  headings column hcolumn := .of_printable (hheadings column hcolumn)
  cells := List.forall_mem_map.mpr hrow

/-! ## Fields -/

theorem toList_fieldLine (colour : Colour) (name text : String) :
    (fieldLine colour name text).toList =
      (paint colour .label (name.toList ++ [':']) ++ (' ' :: text.toList)) ++ ['\n'] := by
  simp [fieldLine, label]

/-- The line of a field before its line feed. -/
theorem uncolours_field {name text : String} (hname : '\x1b' ∉ name.toList)
    (htext : '\x1b' ∉ text.toList) :
    Uncolours (paint .on .label (name.toList ++ [':']) ++ (' ' :: text.toList))
      (paint .off .label (name.toList ++ [':']) ++ (' ' :: text.toList)) := by
  refine (Uncolours.of_paint ?_ .on .label).append (.of_not_mem ?_)
  · simpa using hname
  · simpa using htext

theorem uncolours_fieldLine {name text : String} (hname : '\x1b' ∉ name.toList)
    (htext : '\x1b' ∉ text.toList) :
    Uncolours (fieldLine .on name text).toList (fieldLine .off name text).toList := by
  rw [toList_fieldLine, toList_fieldLine]
  exact (uncolours_field hname htext).append (.of_not_mem (by decide))

theorem shows_fieldLine {name text : String} (hname : '\x1b' ∉ name.toList)
    (htext : '\x1b' ∉ text.toList) :
    Shows (fieldLine .on name text).toList (fieldLine .off name text).toList := by
  rw [toList_fieldLine, toList_fieldLine]
  exact .of_uncolours (uncolours_field hname htext)

/-- A text is cut within its characters, and dots are put after it. -/
theorem clean_shorten {s : String} (h : CleanText s.toList) (length : Nat) :
    CleanText (shorten length s).toList := by
  have hdots : CleanText ['.', '.', '.'] := .of_printable (by simp)
  unfold shorten
  split
  · exact h
  · rw [String.toList_ofList]
    exact (h.take length).append hdots

/-- A field is shown as it is only if it is a string; what is in a list or an object is escaped. -/
theorem clean_fieldText {v : Json.Value} (h : ∀ s, v = .string s → CleanText s.toList) :
    CleanText (fieldText v).toList := by
  have hcompact (v : Json.Value) : CleanText v.compact.toList := .of_printable (Json.forall_mem_compact v)
  have hdash : CleanText "-".toList := .of_printable (by simp)
  cases v with
  | string s => exact h s rfl
  | null => exact hdash
  | bool b => exact hcompact _
  | number n => exact hcompact _
  | array items => exact clean_shorten (hcompact _) _
  | object members => exact clean_shorten (hcompact _) _

/-! ## Values over several lines -/

/-- The indented text of a value has no escape character, whatever its strings are. -/
theorem not_mem_indented (v : Json.Value) : '\x1b' ∉ (indented v).toList := by
  rw [indented, String.toList_ofList]
  intro hmem
  obtain ⟨line, hline, hmem⟩ := List.mem_flatMap.mp hmem
  have hescape : '\x1b' ∈ line := by simpa using hmem
  obtain ⟨piece, hpiece, hescape⟩ := mem_of_mem_linesOf hline hescape
  obtain heq | hprintable := Json.forall_mem_pretty v _ (mem_of_mem_splitOn hpiece hescape)
  · exact absurd heq (by decide)
  · exact absurd hprintable (by decide)

/-! ## Scopes -/

/-- What a scope shows as it is, is clean: names, and the fields of a state that are strings. -/
def Scope.Clean : Scope → Prop
  | .jobList scope => ∀ jobs ∈ scope.jobs, ∀ job ∈ jobs, CleanText job.text.toList
  | .jobBuilds scope => CleanText scope.job.text.toList
  | .buildState scope =>
    CleanText scope.job.text.toList ∧ CleanText scope.build.toList ∧
      (∀ state ∈ scope.state, ∀ field ∈ state.fields, CleanText field.1.toList ∧
        ∀ s, field.2 = .string s → CleanText s.toList) ∧
      ∀ records ∈ scope.artifacts, ∀ r ∈ records, CleanText r.id.text.toList ∧
        CleanText r.fullName.toList ∧ ∀ name ∈ r.fileName, CleanText name.toList

/-- What holds of every list that is there holds of the list that stands for all. -/
theorem forall_mem_getD {α : Type} {p : α → Prop} {as? : Option (List α)}
    (h : ∀ as ∈ as?, ∀ a ∈ as, p a) : ∀ a ∈ as?.getD [], p a := by
  cases as? with
  | none => exact fun _ ha => nomatch ha
  | some as => exact h as rfl

theorem JobListScope.shows_text {scope : JobListScope}
    (h : ∀ job ∈ scope.jobs.getD [], CleanText job.text.toList) :
    (scope.text .on).Shows (scope.text .off) := by
  unfold text
  split
  · exact Rendering.shows_line "No jobs".toList (by decide)
  · refine Table.shows_render (Table.clean_of_rows (by simp) fun job hjob => ?_)
    exact List.forall_mem_cons.mpr ⟨h job hjob, List.forall_mem_singleton.mpr (clean_path _)⟩

theorem JobBuildsScope.shows_text {scope : JobBuildsScope} (h : CleanText scope.job.text.toList) :
    (scope.text .on).Shows (scope.text .off) := by
  unfold text
  refine Rendering.Shows.under ?_ (shows_fieldLine (by decide) h.no_escape)
  split
  · exact Rendering.shows_line "No builds".toList (by decide)
  · refine Rendering.Shows.under (Table.shows_render (Table.clean_of_rows (by simp) fun build _ => ?_))
      (Shows.of_line [] List.not_mem_nil)
    exact List.forall_mem_cons.mpr
      ⟨clean_buildNumber build, List.forall_mem_singleton.mpr (clean_path _)⟩

theorem shows_artifactsText {records : List ArtifactRecord}
    (h : ∀ r ∈ records, CleanText r.id.text.toList ∧ CleanText r.fullName.toList ∧
      ∀ name ∈ r.fileName, CleanText name.toList) :
    (artifactsText .on records).Shows (artifactsText .off records) := by
  unfold artifactsText
  split
  · exact Rendering.shows_line "No artifacts".toList (by decide)
  · refine Table.shows_render (Table.clean_of_rows (by simp) fun r hr => ?_)
    obtain ⟨hid, hfullName, hfileName⟩ := h r hr
    have hfile : CleanText (r.fileName.getD "-").toList := by
      cases hname : r.fileName with
      | none => exact .of_printable (by simp)
      | some name => exact hfileName name hname
    exact List.forall_mem_cons.mpr
      ⟨hid, List.forall_mem_cons.mpr ⟨hfile, List.forall_mem_singleton.mpr hfullName⟩⟩

theorem BuildStateScope.shows_text {scope : BuildStateScope} (hjob : CleanText scope.job.text.toList)
    (hbuild : CleanText scope.build.toList)
    (hfields : ∀ state ∈ scope.state, ∀ field ∈ state.fields, CleanText field.1.toList ∧
      ∀ s, field.2 = .string s → CleanText s.toList)
    (hrecords : ∀ r ∈ scope.artifacts.getD [], CleanText r.id.text.toList ∧ CleanText r.fullName.toList ∧
      ∀ name ∈ r.fileName, CleanText name.toList) :
    (scope.text .on).Shows (scope.text .off) := by
  unfold text
  refine Rendering.Shows.under ?_ ?fields
  case fields =>
    rw [String.toList_append, String.toList_append]
    exact (shows_fieldLine (by decide) hjob.no_escape).append
      (shows_fieldLine (by decide) hbuild.no_escape)
  split
  · exact Rendering.shows_line "No build state".toList (by decide)
  · next state hstate =>
    refine Rendering.Shows.under (shows_artifactsText hrecords) ?_
    simp only [String.toList_append, String.toList_join, List.flatMap_map]
    refine (Shows.flatMap fun field hfield => ?_).append (Shows.of_line [] List.not_mem_nil)
    obtain ⟨hname, hvalue⟩ := hfields state hstate field hfield
    exact shows_fieldLine hname.no_escape (clean_fieldText hvalue).no_escape

theorem Scope.shows_text {scope : Scope} (h : scope.Clean) :
    (scope.text .on).Shows (scope.text .off) := by
  cases scope with
  | jobList scope => exact JobListScope.shows_text (forall_mem_getD h)
  | jobBuilds scope => exact JobBuildsScope.shows_text h
  | buildState scope =>
    obtain ⟨hjob, hbuild, hfields, hrecords⟩ := h
    exact BuildStateScope.shows_text hjob hbuild hfields (forall_mem_getD hrecords)

/-- The JSON form of a scope is that of its value. -/
theorem Scope.render_json (scope : Scope) (colour : Colour) :
    scope.render colour .json = .whole (scope.toValue.pretty ++ "\n") := by
  simp only [render, present]

/-! ## Reports -/

theorem RouteReport.uncolours_text {report : RouteReport} (hpath : '\x1b' ∉ report.path.toList)
    (hredirect : ∀ target ∈ report.redirect, '\x1b' ∉ target.toList) :
    Uncolours (report.text .on).toList (report.text .off).toList := by
  have hview : '\x1b' ∉ report.route.view.title.toList := by
    cases report.route.view <;> decide
  unfold text
  simp only [String.toList_append]
  refine (Uncolours.append ?_ (uncolours_fieldLine (by decide) hview)).append
    (uncolours_fieldLine (by decide) (clean_path report.route).no_escape)
  split
  · next target htarget =>
    refine uncolours_fieldLine (by decide) ?_
    simpa using ⟨hpath, hredirect target htarget⟩
  · exact .of_not_mem List.not_mem_nil

/-- The browser's own table sends paths to one that is clean. -/
theorem RouteReport.uncolours_standard {path : String} (h : '\x1b' ∉ path.toList) :
    Uncolours ((ofPath .standard path).text .on).toList ((ofPath .standard path).text .off).toList := by
  refine uncolours_text h fun target htarget => ?_
  have hredirect : (ofPath .standard path).redirect = some target := htarget
  unfold ofPath RouteTable.resolve at hredirect
  cases hroute : RouteTable.standard.route? path with
  | some route =>
    rw [hroute] at hredirect
    cases hredirect
  | none =>
    rw [hroute] at hredirect
    obtain rfl := Option.some.inj hredirect
    decide

theorem JobConfig.uncolours_text {c : JobConfig} (h : '\x1b' ∉ c.job.text.toList) :
    Uncolours (c.text .on).toList (c.text .off).toList := by
  unfold text
  simp only [String.toList_append, String.toList_ofList]
  exact (((uncolours_fieldLine (by decide) h).append (.of_paint (by decide) .on .header)).append
    (.of_not_mem (by decide))).append (.of_not_mem (not_mem_indented c.config))

theorem WorkerTask.uncolours_text {t : WorkerTask} (hid : '\x1b' ∉ t.id.text.toList)
    (hstatus : ∀ status ∈ t.status?, '\x1b' ∉ status.toList) :
    Uncolours (t.text .on).toList (t.text .off).toList := by
  unfold text
  simp only [String.toList_append]
  refine ((uncolours_fieldLine (by decide) hid).append ?_).append
    (.of_not_mem (not_mem_indented t.data))
  split
  · next status hsome => exact uncolours_fieldLine (by decide) (hstatus status hsome)
  · exact .of_not_mem List.not_mem_nil

theorem shows_tasksText {tasks : List TaskId} (h : ∀ task ∈ tasks, CleanText task.text.toList) :
    (tasksText .on tasks).Shows (tasksText .off tasks) := by
  unfold tasksText
  split
  · exact Rendering.shows_line "No tasks".toList (by decide)
  · refine Table.shows_render (Table.clean_of_rows (by simp) fun task htask => ?_)
    exact List.forall_mem_singleton.mpr (h task htask)

/-- **Colour never changes the text.** Without the escape sequences of colours, a coloured scope and a
coloured table have the lines of the plain one, up to the blanks at the ends of lines, and so has a list
of tasks; if the plain one is cut short, the coloured one is where the plain one is. The reports of a
route, a configuration and a task are the plain ones. The JSON form has no colours. -/
theorem colour_keeps_text :
    (∀ scope : Scope, scope.Clean → (scope.render .on .text).SameLines (scope.render .off .text)) ∧
    (∀ scope : Scope, scope.render .on .json = scope.render .off .json) ∧
    (∀ table : Table, table.Clean → (table.render .on).SameLines (table.render .off)) ∧
    (∀ path : String, '\x1b' ∉ path.toList →
      uncolour ((RouteReport.ofPath .standard path).text .on).toList =
        ((RouteReport.ofPath .standard path).text .off).toList) ∧
    (∀ c : JobConfig, '\x1b' ∉ c.job.text.toList →
      uncolour (c.text .on).toList = (c.text .off).toList) ∧
    (∀ tasks : List TaskId, (∀ task ∈ tasks, CleanText task.text.toList) →
      (tasksText .on tasks).SameLines (tasksText .off tasks)) ∧
    ∀ t : WorkerTask, '\x1b' ∉ t.id.text.toList → (∀ status ∈ t.status?, '\x1b' ∉ status.toList) →
      uncolour (t.text .on).toList = (t.text .off).toList := by
  refine ⟨?scopes, ?json, ?tables, ?route, ?config, ?tasks, ?task⟩
  case scopes =>
    intro scope h
    simp only [Scope.render, present]
    exact (Scope.shows_text h).sameLines
  case json =>
    intro scope
    rw [Scope.render_json, Scope.render_json]
  case tables =>
    intro table h
    exact (Table.shows_render h).sameLines
  case route =>
    intro path h
    exact (RouteReport.uncolours_standard h).uncolour_eq
  case config =>
    intro c h
    exact (JobConfig.uncolours_text h).uncolour_eq
  case tasks =>
    intro tasks h
    exact (shows_tasksText h).sameLines
  case task =>
    intro t hid hstatus
    exact (WorkerTask.uncolours_text hid hstatus).uncolour_eq

/-- A muted cell at the end of a line that ends in a blank: with colour the blank stands before the end
of the colour and is kept, without colour it is lost. The lines are the same but for it. -/
theorem painted_blank_is_kept :
    ∃ table : Table, table.Clean ∧
      uncolour (table.render .on).text.toList ≠ (table.render .off).text.toList ∧
      (table.render .on).SameLines (table.render .off) := by
  have hclean : Table.Clean ⟨[.right "N", .secondary "PATH"], [["7".toList, "a ".toList], []].map id⟩ := by
    refine Table.clean_of_rows (by simp) fun row hrow cell hcell => .of_printable ?_
    have hcells : ∀ row ∈ [["7".toList, "a ".toList], []], ∀ cell ∈ row, ∀ c ∈ cell, 0x20 ≤ c.toNat := by
      simp
    exact hcells row hrow cell hcell
  exact ⟨_, hclean, by decide, colour_keeps_text.2.2.1 _ hclean⟩

end BuildBrowser
