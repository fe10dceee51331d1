import BuildBrowser.Proofs.Text.Split
import BuildBrowser.Render.Table

/-!
# Tables — cells, rows and widths

A row has one cell for each column, whatever it was given (`Table.getElem?_fitRow`), and a column is as
wide as the longest of its heading and its cells (`Table.exists_width`). Cutting and padding add dots
and blanks and no other characters, so what holds of those and of the characters of all cells holds of
the characters of a line (`Table.forall_mem_joinCells`).

**A table is laid out as a whole or not at all** (`Table.render_of_fits`, `Table.render_of_not_fits`):
every line is padded to the same widths, the line of the headings too, so if a column is too wide to be
padded (`Table.Fits`) that line is the first to fail, and nothing is written.
-/

namespace BuildBrowser

/-! ## Columns -/

namespace Column

@[simp] theorem heading_left (heading : String) : (left heading).heading = heading.toList := rfl

@[simp] theorem heading_right (heading : String) : (right heading).heading = heading.toList := rfl

@[simp] theorem heading_secondary (heading : String) :
    (secondary heading).heading = heading.toList := rfl

@[simp] theorem heading_withCap (column : Column) (cap : Nat) :
    (column.withCap cap).heading = column.heading := rfl

/-- A column of texts has no cap. -/
@[simp] theorem fit_left (heading : String) (cell : List Char) : (left heading).fit cell = cell := rfl

variable {column : Column} {cap : Nat} {cell : List Char}

theorem fit_of_lt_length (hcap : column.cap = some cap) (hpos : 0 < cap) (h : cap < cell.length) :
    column.fit cell = cell.take (cap - 1) ++ ['…'] := by
  obtain ⟨n, rfl⟩ := Nat.exists_eq_succ_of_ne_zero hpos.ne'
  simp only [fit, hcap]
  exact if_pos h

/-- A cell is kept if no cap is shorter than it. A cap of zero is none. -/
theorem fit_of_length_le (h : ∀ cap, column.cap = some cap → 0 < cap → cell.length ≤ cap) :
    column.fit cell = cell := by
  unfold fit
  split
  · next n hcap => exact if_neg (Nat.not_lt.mpr (h _ hcap n.succ_pos))
  · rfl

theorem length_fit_le (hcap : column.cap = some cap) (hpos : 0 < cap) (cell : List Char) :
    (column.fit cell).length ≤ cap := by
  by_cases h : cap < cell.length
  · simp only [fit_of_lt_length hcap hpos h, List.length_append, List.length_take, List.length_singleton]
    omega
  · rw [fit_of_length_le]
    · exact Nat.not_lt.mp h
    · intro other hother _
      exact Option.some.inj (hcap.symm.trans hother) ▸ Nat.not_lt.mp h

end Column

/-! ## Renderings -/

namespace Rendering

@[simp] theorem complete_under (above : String) (rendering : Rendering) :
    (rendering.under above).complete = rendering.complete := rfl

theorem under_whole (above : String) (text : List Char) :
    under above (whole (String.ofList text)) = whole (String.ofList (above.toList ++ text)) := by
  rw [String.ofList_append, String.ofList_toList]
  rfl

/-- Lines that are all laid out come to their end. -/
theorem ofLines_map_some (lines : List (List Char)) :
    ofLines (lines.map some) = .whole (String.ofList (lines.flatMap (· ++ ['\n']))) := by
  have hall : ∀ line ∈ lines.map some, line.isSome = true := List.forall_mem_map.mpr fun _ _ => rfl
  rw [ofLines, List.takeWhile_eq_self_iff.mpr hall, List.all_eq_true.mpr hall, List.flatMap_map]
  rfl

end Rendering

/-! ## Unpainted cells -/

namespace Table

/-- Cells as they are without paint. -/
abbrev noInk (_ : Column) (text : List Char) : List Char :=
  text

theorem rowInk_off : rowInk .off = noInk := by
  funext column text
  exact ite_self text

/-! ## Rows -/

/-- **The cells of a row**: for each column the cell in its place, which is empty if it is missing. -/
theorem getElem?_fitRow (columns : List Column) (row : List (List Char)) (i : Nat) :
    (fitRow columns row)[i]? = columns[i]?.map fun column => column.fit (row.getD i []) := by
  induction columns generalizing row i with
  | nil => rfl
  | cons column columns ih =>
    cases row with
    | nil =>
      cases i with
      | zero => rfl
      | succ i => exact ih [] i
    | cons cell row =>
      cases i with
      | zero => rfl
      | succ i => exact ih row i

theorem length_fitRow (columns : List Column) (row : List (List Char)) :
    (fitRow columns row).length = columns.length := by
  induction columns generalizing row with
  | nil => rfl
  | cons column columns ih => cases row <;> exact congrArg (· + 1) (ih _)

theorem length_of_mem_fitted {table : Table} {row : List (List Char)} (h : row ∈ table.fitted) :
    row.length = table.columns.length := by
  obtain ⟨cells, -, rfl⟩ := List.mem_map.mp h
  exact length_fitRow _ _

/-! ## Widths -/

/-- A number is the length of the longest of some texts. -/
def IsLongest (n : Nat) (texts : List (List Char)) : Prop :=
  (∃ text ∈ texts, text.length = n) ∧ ∀ text ∈ texts, text.length ≤ n

theorem IsLongest.concat {n : Nat} {texts : List (List Char)} (h : IsLongest n texts)
    (text : List Char) : IsLongest (max n text.length) (texts ++ [text]) := by
  obtain ⟨⟨longest, hmem, rfl⟩, hmax⟩ := h
  constructor
  · rcases Nat.le_total text.length longest.length with hle | hle
    · exact ⟨longest, List.mem_append_left _ hmem, (Nat.max_eq_left hle).symm⟩
    · exact ⟨text, List.mem_append_right _ (List.mem_singleton_self text), (Nat.max_eq_right hle).symm⟩
  · refine List.forall_mem_append.mpr ⟨fun other hother => ?_, List.forall_mem_singleton.mpr ?_⟩
    · exact (hmax other hother).trans (Nat.le_max_left _ _)
    · exact Nat.le_max_right _ _

/-- The widths of columns, made wider for the cells of a row. -/
def widen (widths : List Nat) (row : List (List Char)) : List Nat :=
  List.zipWith (fun width cell => max width cell.length) widths row

theorem length_foldl_widen {rows : List (List (List Char))} {widths : List Nat}
    (h : ∀ row ∈ rows, row.length = widths.length) :
    (rows.foldl widen widths).length = widths.length := by
  induction rows generalizing widths with
  | nil => rfl
  | cons row rows ih =>
    obtain ⟨hrow, hrows⟩ := List.forall_mem_cons.mp h
    have hwidened : (widen widths row).length = widths.length := by
      rw [widen, List.length_zipWith, hrow, Nat.min_self]
    exact (ih (by rwa [hwidened])).trans hwidened

/-- There is one width for each column. -/
theorem length_widths (table : Table) : table.widths.length = table.columns.length := by
  have hheadings : (table.columns.map (·.heading.length)).length = table.columns.length :=
    List.length_map _
  refine (length_foldl_widen fun row hrow => ?_).trans hheadings
  exact (length_of_mem_fitted hrow).trans hheadings.symm

/-- A width that is that of some texts becomes that of these texts and a cell of each row. -/
theorem getElem?_foldl_widen {rows : List (List (List Char))} {cell : List (List Char) → List Char}
    {widths : List Nat} {i width : Nat} {texts : List (List Char)}
    (hcell : ∀ row ∈ rows, row[i]? = some (cell row)) (hwidth : widths[i]? = some width)
    (hlongest : IsLongest width texts) :
    ∃ widened, (rows.foldl widen widths)[i]? = some widened ∧
      IsLongest widened (texts ++ rows.map cell) := by
  induction rows generalizing widths width texts with
  | nil => exact ⟨width, hwidth, by rwa [List.map_nil, List.append_nil]⟩
  | cons row rows ih =>
    obtain ⟨hrow, hrows⟩ := List.forall_mem_cons.mp hcell
    have hwidened : (widen widths row)[i]? = some (max width (cell row).length) := by
      rw [widen, List.getElem?_zipWith, hwidth, hrow]
    obtain ⟨widened, hget, hlongest⟩ := ih hrows hwidened (hlongest.concat (cell row))
    rw [List.append_assoc, List.singleton_append] at hlongest
    exact ⟨widened, hget, hlongest⟩

/-- What a table shows in a column: its heading, and its cell of each row. -/
def columnTexts (table : Table) (i : Nat) (column : Column) : List (List Char) :=
  column.heading :: table.rows.map fun row => column.fit (row.getD i [])

/-- **The width of a column** is the length of its longest text. -/
theorem exists_width (table : Table) {i : Nat} {column : Column}
    (h : table.columns[i]? = some column) :
    ∃ width, table.widths[i]? = some width ∧ IsLongest width (table.columnTexts i column) := by
  have hheading : (table.columns.map (·.heading.length))[i]? = some column.heading.length := by
    rw [List.getElem?_map, h, Option.map_some]
  have hlongest : IsLongest column.heading.length [column.heading] :=
    ⟨⟨_, List.mem_singleton_self _, rfl⟩, List.forall_mem_singleton.mpr le_rfl⟩
  have hcell : ∀ row ∈ table.fitted, row[i]? = some (row.getD i []) := by
    intro row hrow
    have hi : i < row.length := by
      rw [length_of_mem_fitted hrow]
      exact (List.getElem?_eq_some_iff.mp h).1
    rw [List.getD_eq_getElem?_getD, List.getElem?_eq_getElem hi, Option.getD_some]
  obtain ⟨width, hwidth, hlongest⟩ := getElem?_foldl_widen hcell hheading hlongest
  have hfit (row : List (List Char)) :
      (fitRow table.columns row).getD i [] = column.fit (row.getD i []) := by
    rw [List.getD_eq_getElem?_getD, getElem?_fitRow, h, Option.map_some, Option.getD_some]
  refine ⟨width, hwidth, ?_⟩
  rw [fitted, List.map_map, List.singleton_append] at hlongest
  rwa [columnTexts, List.map_congr_left fun row _ => (hfit row).symm]

/-- The length of the longest is within a bound if all lengths are. -/
theorem IsLongest.le_iff {n bound : Nat} {texts : List (List Char)} (h : IsLongest n texts) :
    n ≤ bound ↔ ∀ text ∈ texts, text.length ≤ bound := by
  constructor
  · intro hn text htext
    exact (h.2 text htext).trans hn
  · intro hall
    obtain ⟨text, htext, hlength⟩ := h.1
    exact hlength ▸ hall text htext

/-- A column is no wider than its cap, unless its heading is. -/
theorem IsLongest.le_cap {table : Table} {i width cap : Nat} {column : Column}
    (h : IsLongest width (table.columnTexts i column)) (hcap : column.cap = some cap) (hpos : 0 < cap) :
    width ≤ max cap column.heading.length := by
  obtain ⟨⟨text, hmem, rfl⟩, -⟩ := h
  rcases List.mem_cons.mp hmem with rfl | hcell
  · exact Nat.le_max_right _ _
  · obtain ⟨row, -, rfl⟩ := List.mem_map.mp hcell
    exact (column.length_fit_le hcap hpos _).trans (Nat.le_max_left _ _)

end Table

/-! ## Padding -/

section Padding

variable {side : Side} {width : Nat} {isLast : Bool} {text padded : List Char}

theorem pad_eq_some :
    pad side width isLast text = some padded ↔
      (side = .left ∧ isLast = true ∧ padded = text) ∨
        (¬(side = .left ∧ isLast = true) ∧ width ≤ maxWidth ∧ padded = fill side width text) := by
  unfold pad
  split
  · next hlast =>
    rw [Option.some.injEq, eq_comm, ← and_assoc, and_iff_right hlast]
    exact (or_iff_left fun h => h.1 hlast).symm
  · next hlast =>
    rw [← and_assoc, or_iff_right fun h => hlast h.1, and_iff_right hlast]
    split
    · next hwidth => rw [Option.some.injEq, eq_comm, and_iff_right hwidth]
    · next hwidth => exact ⟨nofun, fun h => absurd h.1 hwidth⟩

theorem isSome_pad (text : List Char) :
    (pad side width isLast text).isSome ↔ (side = .left ∧ isLast = true) ∨ width ≤ maxWidth := by
  unfold pad
  split
  · next hlast => exact iff_of_true rfl (.inl hlast)
  · next hlast =>
    split
    · next hwidth => exact iff_of_true rfl (.inr hwidth)
    · next hwidth => exact iff_of_false nofun (not_or.mpr ⟨hlast, hwidth⟩)

theorem pad_of_le (h : width ≤ maxWidth) (side : Side) (text : List Char) :
    pad side width false text = some (fill side width text) :=
  pad_eq_some.mpr (.inr ⟨by simp, h, rfl⟩)

end Padding

namespace Table

variable {table : Table} {ink : Column → List Char → List Char}

theorem cells_cons_eq_some {column : Column} {columns : List Column} {width : Nat} {widths : List Nat}
    {text : List Char} {texts parts : List (List Char)} :
    cells ink (column :: columns) (width :: widths) (text :: texts) = some parts ↔
      ∃ padded rest, pad column.side width columns.isEmpty text = some padded ∧
        cells ink columns widths texts = some rest ∧ parts = ink column padded :: rest := by
  rw [cells]
  constructor
  · intro h
    obtain ⟨padded, hpad, h⟩ := Option.bind_eq_some_iff.mp h
    obtain ⟨rest, hrest, h⟩ := Option.bind_eq_some_iff.mp h
    exact ⟨padded, rest, hpad, hrest, (Option.some.inj h).symm⟩
  · rintro ⟨padded, rest, hpad, hrest, rfl⟩
    rw [hpad, hrest]
    rfl

theorem line_eq_some {texts : List (List Char)} {line : List Char} :
    table.line ink texts = some line ↔ ∃ parts, cells ink table.columns table.widths texts = some parts ∧
      line = Text.dropEnd Text.isBlank (joinCells parts) := by
  rw [Table.line, Option.map_eq_some_iff]
  exact exists_congr fun parts => and_congr_right fun _ => eq_comm

/-- There is a cell for each column that has a width and a text. -/
theorem length_of_cells : (columns : List Column) → (widths : List Nat) → {texts parts : List (List Char)} →
    cells ink columns widths texts = some parts →
      parts.length = min columns.length (min widths.length texts.length)
  | column :: columns, width :: widths, text :: texts, _, hparts => by
    obtain ⟨padded, rest, -, hrest, rfl⟩ := cells_cons_eq_some.mp hparts
    have hlength := length_of_cells columns widths hrest
    simp only [List.length_cons, hlength]
    omega
  | [], _, _, _, hparts => by
    cases hparts
    exact (Nat.zero_min _).symm
  | _ :: _, [], _, _, hparts => by
    cases hparts
    simp
  | _ :: _, _ :: _, [], _, hparts => by
    cases hparts
    simp

/-- There are the cells of a line if every column that is padded is narrow enough. The last one is not
padded if it keeps to the left. -/
theorem isSome_cells (ink : Column → List Char → List Char) :
    (columns : List Column) → (widths : List Nat) → (texts : List (List Char)) →
      widths.length = columns.length → texts.length = columns.length →
      ((cells ink columns widths texts).isSome ↔ ∀ (i : Nat) (column : Column) (width : Nat),
        columns[i]? = some column → widths[i]? = some width →
          (column.side = .left ∧ i + 1 = columns.length) ∨ width ≤ maxWidth)
  | [], _, _, _, _ => by simp [cells]
  | column :: columns, width :: widths, text :: texts, hwidths, htexts => by
    have hrest := isSome_cells ink columns widths texts (Nat.succ.inj hwidths) (Nat.succ.inj htexts)
    have hboth : (cells ink (column :: columns) (width :: widths) (text :: texts)).isSome ↔
        (pad column.side width columns.isEmpty text).isSome ∧
          (cells ink columns widths texts).isSome := by
      simp only [Option.isSome_iff_exists, cells_cons_eq_some]
      constructor
      · rintro ⟨_, padded, rest, hpad, hcells, -⟩
        exact ⟨⟨padded, hpad⟩, rest, hcells⟩
      · rintro ⟨⟨padded, hpad⟩, rest, hcells⟩
        exact ⟨_, padded, rest, hpad, hcells, rfl⟩
    rw [hboth, isSome_pad, hrest]
    constructor
    · rintro ⟨hhead, htail⟩ i other width' hother hwidth'
      cases i with
      | zero =>
        cases hother
        cases hwidth'
        exact hhead.imp_left fun h => ⟨h.1, by simpa using h.2⟩
      | succ i => exact (htail i other width' hother hwidth').imp_left fun h => ⟨h.1, by simpa using h.2⟩
    · intro h
      refine ⟨(h 0 column width rfl rfl).imp_left fun h => ⟨h.1, ?_⟩, fun i other width' hother hwidth' => ?_⟩
      · simpa using h.2
      · exact (h (i + 1) other width' hother hwidth').imp_left fun h => ⟨h.1, Nat.succ.inj h.2⟩
  | _ :: _, [], _, hwidths, _ => by cases hwidths
  | _ :: _, _ :: _, [], _, htexts => by cases htexts

/-- No column that is padded has a text too long to be padded to. The last column is not padded if it
keeps to the left. -/
def Fits (table : Table) : Prop :=
  ∀ (i : Nat) (column : Column), table.columns[i]? = some column →
    (column.side = .left ∧ i + 1 = table.columns.length) ∨
      ∀ text ∈ table.columnTexts i column, text.length ≤ maxWidth

/-- **A line is laid out if the table fits**, whatever its texts are. -/
theorem isSome_line (ink : Column → List Char → List Char) {texts : List (List Char)}
    (htexts : texts.length = table.columns.length) : (table.line ink texts).isSome ↔ table.Fits := by
  rw [Table.line, Option.isSome_map, isSome_cells ink _ _ _ table.length_widths htexts]
  constructor
  · intro h i column hcolumn
    obtain ⟨width, hwidth, hlongest⟩ := table.exists_width hcolumn
    exact (h i column width hcolumn hwidth).imp_right hlongest.le_iff.mp
  · intro h i column width hcolumn hwidth
    obtain ⟨longest, hlongest, hmax⟩ := table.exists_width hcolumn
    obtain rfl := Option.some.inj (hwidth.symm.trans hlongest)
    exact (h i column hcolumn).imp_right hmax.le_iff.mpr

/-! ## The table as a whole -/

/-- The text of a line, which is empty if the line is not laid out. -/
def lineText (table : Table) (ink : Column → List Char → List Char) (texts : List (List Char)) :
    List Char :=
  (table.line ink texts).getD []

theorem line_of_fits (ink : Column → List Char → List Char) (h : table.Fits)
    {texts : List (List Char)} (htexts : texts.length = table.columns.length) :
    table.line ink texts = some (table.lineText ink texts) := by
  obtain ⟨line, hline⟩ := Option.isSome_iff_exists.mp ((isSome_line ink htexts).mpr h)
  rw [lineText, hline, Option.getD_some]

/-- **A table that fits is written line by line.** -/
theorem render_of_fits (h : table.Fits) (colour : Colour) :
    table.render colour = .whole (String.ofList
      ((table.lineText (fun _ => paint colour .header) (table.columns.map (·.heading)) ::
        table.fitted.map (table.lineText (rowInk colour))).flatMap (· ++ ['\n']))) := by
  have hlines : table.lines colour =
      (table.lineText (fun _ => paint colour .header) (table.columns.map (·.heading)) ::
        table.fitted.map (table.lineText (rowInk colour))).map some := by
    rw [lines, List.map_cons, List.map_map, line_of_fits _ h (List.length_map _)]
    exact congrArg _ (List.map_congr_left fun row hrow => line_of_fits _ h (length_of_mem_fitted hrow))
  rw [render, hlines, Rendering.ofLines_map_some]

/-- **A table that does not fit is not written at all.** -/
theorem render_of_not_fits (h : ¬table.Fits) (colour : Colour) : table.render colour = ⟨"", false⟩ := by
  have hheader : table.line (fun _ => paint colour .header) (table.columns.map (·.heading)) = none := by
    rw [← Option.not_isSome_iff_eq_none, isSome_line _ (List.length_map _)]
    exact h
  rw [render, lines, hheader]
  rfl

theorem complete_render (table : Table) (colour : Colour) :
    (table.render colour).complete = true ↔ table.Fits := by
  by_cases h : table.Fits
  · rw [render_of_fits h]
    exact iff_of_true rfl h
  · rw [render_of_not_fits h]
    exact iff_of_false Bool.false_ne_true h

end Table

/-! ## The characters of a line -/

section Characters

variable {p : Char → Prop}

theorem Column.forall_mem_fit (hdots : p '…') (column : Column) {cell : List Char}
    (h : ∀ c ∈ cell, p c) : ∀ c ∈ column.fit cell, p c := by
  unfold fit
  split
  · split
    · refine List.forall_mem_append.mpr ⟨fun c hc => ?_, List.forall_mem_singleton.mpr hdots⟩
      exact h c (List.mem_of_mem_take hc)
    · exact h
  · exact h

theorem forall_mem_fill (hblank : p ' ') (side : Side) (width : Nat) {text : List Char}
    (h : ∀ c ∈ text, p c) : ∀ c ∈ fill side width text, p c := by
  have hblanks : ∀ c ∈ List.replicate (width - text.length) ' ', p c :=
    fun c hc => List.eq_of_mem_replicate hc ▸ hblank
  cases side with
  | right => exact List.forall_mem_append.mpr ⟨hblanks, h⟩
  | left => exact List.forall_mem_append.mpr ⟨h, hblanks⟩

theorem forall_mem_pad (hblank : p ' ') {side : Side} {width : Nat} {isLast : Bool}
    {text padded : List Char} (hpad : pad side width isLast text = some padded)
    (h : ∀ c ∈ text, p c) : ∀ c ∈ padded, p c := by
  obtain ⟨-, -, rfl⟩ | ⟨-, -, rfl⟩ := pad_eq_some.mp hpad
  · exact h
  · exact forall_mem_fill hblank side width h

namespace Table

/-- Missing cells are empty, and so have no other characters. -/
theorem forall_mem_fitRow (hdots : p '…') (columns : List Column) {row : List (List Char)}
    (h : ∀ cell ∈ row, ∀ c ∈ cell, p c) : ∀ cell ∈ fitRow columns row, ∀ c ∈ cell, p c := by
  induction columns generalizing row with
  | nil => exact fun _ hcell => nomatch hcell
  | cons column columns ih =>
    cases row with
    | nil => exact List.forall_mem_cons.mpr ⟨column.forall_mem_fit hdots nofun, ih h⟩
    | cons cell row =>
      obtain ⟨hcell, hrow⟩ := List.forall_mem_cons.mp h
      exact List.forall_mem_cons.mpr ⟨column.forall_mem_fit hdots hcell, ih hrow⟩

theorem forall_mem_cells (hblank : p ' ') : (columns : List Column) → (widths : List Nat) →
    {texts parts : List (List Char)} → cells noInk columns widths texts = some parts →
      (∀ text ∈ texts, ∀ c ∈ text, p c) → ∀ part ∈ parts, ∀ c ∈ part, p c
  | column :: columns, width :: widths, text :: texts, _, hparts, h => by
    obtain ⟨htext, htexts⟩ := List.forall_mem_cons.mp h
    obtain ⟨padded, rest, hpad, hrest, rfl⟩ := cells_cons_eq_some.mp hparts
    refine List.forall_mem_cons.mpr ⟨forall_mem_pad hblank hpad htext, ?_⟩
    exact forall_mem_cells hblank columns widths hrest htexts
  | [], _, _, _, hparts, _ => by
    cases hparts
    exact List.forall_mem_nil _
  | _ :: _, [], _, _, hparts, _ => by
    cases hparts
    exact List.forall_mem_nil _
  | _ :: _, _ :: _, [], _, hparts, _ => by
    cases hparts
    exact List.forall_mem_nil _

/-- **The characters of a line** are those of its texts, and blanks. -/
theorem forall_mem_joinCells (hblank : p ' ') (columns : List Column) (widths : List Nat)
    {texts parts : List (List Char)} (hparts : cells noInk columns widths texts = some parts)
    (h : ∀ text ∈ texts, ∀ c ∈ text, p c) : ∀ c ∈ joinCells parts, p c :=
  Text.forall_mem_intercalate (by simpa using hblank) (forall_mem_cells hblank columns widths hparts h)

end Table

end Characters

end BuildBrowser
