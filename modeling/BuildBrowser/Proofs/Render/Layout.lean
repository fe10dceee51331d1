import BuildBrowser.Proofs.Render.Table
import BuildBrowser.Proofs.Text.Blank
import Mathlib.Data.List.Infix

/-!
# Columns line up

Without colour a column begins at one position in every line: after the widths of the columns before it
and two blanks for each (`Table.offset`). **The law** (`Table.stands_line`) is that a text which ends in
no blank stands in its line where its column says, at the beginning or at the end of the column's width,
with nothing but blanks around it up to the next column. So no cell overwrites another.

A line is told from the left, by induction on the columns before the one that is looked at
(`Table.exists_joinCells`): each of them takes exactly its width, since no text is longer and only the
last column is not padded. What the line loses at its end is after the text, which ends in no blank.
-/

namespace BuildBrowser

open Text

/-- A text stands in a line between an offset and the end of a width after it: at the beginning, or at
the end if it keeps to the right. The rest of the width and the two positions after it are blank, as far
as the line goes. -/
def Stands (line text : List Char) (side : Side) (offset width : Nat) : Prop :=
  ∃ before after, line = before ++ text ++ after ∧
    (side = .left → before.length = offset) ∧
    (side = .right → before.length + text.length = offset + width) ∧
    (∀ c ∈ before.drop offset, c = ' ') ∧
    ∀ c ∈ after.take (offset + width + 2 - (before.length + text.length)), c = ' '

section

variable {side : Side} {width : Nat} {isLast : Bool} {text padded : List Char}

/-- A padded text is the text between blanks, on the side that it keeps to. They fill the width, unless
the text is the last of a line. -/
theorem exists_pad (hpad : pad side width isLast text = some padded) (h : text.length ≤ width) :
    ∃ lead trail, padded = List.replicate lead ' ' ++ text ++ List.replicate trail ' ' ∧
      (side = .left → lead = 0) ∧ (side = .right → lead + text.length = width) ∧
      (isLast = false → lead + text.length + trail = width) := by
  obtain ⟨rfl, rfl, rfl⟩ | ⟨-, -, rfl⟩ := pad_eq_some.mp hpad
  · exact ⟨0, 0, (List.append_nil _).symm, fun _ => rfl, nofun, nofun⟩
  · cases side with
    | right =>
      refine ⟨width - text.length, 0, (List.append_nil _).symm, nofun, fun _ => ?_, fun _ => ?_⟩
      all_goals omega
    | left => exact ⟨0, width - text.length, rfl, fun _ => rfl, nofun, fun _ => by omega⟩

theorem length_pad (hpad : pad side width false text = some padded) (h : text.length ≤ width) :
    padded.length = width := by
  obtain ⟨lead, trail, rfl, -, -, hfill⟩ := exists_pad hpad h
  simp only [List.length_append, List.length_replicate, hfill rfl]

end

/-- After a padded text there are only blanks: to the end of the line, or for the padding and the two
positions before the next column. -/
theorem blank_of_mem_take {trail n : Nat} {back : List Char}
    (h : back = [] ∨ n = trail + 2 ∧ ∃ more, back = ' ' :: ' ' :: more) :
    ∀ c ∈ (dropEnd isBlank (List.replicate trail ' ' ++ back)).take n, c = ' ' := by
  intro c hc
  have hmem := ((dropEnd_isPrefix isBlank _).take n).subset hc
  rcases h with rfl | ⟨rfl, more, rfl⟩
  · rw [List.append_nil] at hmem
    exact List.eq_of_mem_replicate (List.mem_of_mem_take hmem)
  · have hblanks : List.replicate trail ' ' ++ ' ' :: ' ' :: more =
        List.replicate (trail + 2) ' ' ++ more := by
      rw [List.replicate_add, List.append_assoc]
      rfl
    rw [hblanks, List.take_left' List.length_replicate] at hmem
    exact List.eq_of_mem_replicate hmem

/-- After the first cell of a line comes nothing, or two blanks and the other cells. -/
theorem joinCells_cons (cell : List Char) (cells : List (List Char)) :
    joinCells (cell :: cells) = cell ++ if cells = [] then [] else ' ' :: ' ' :: joinCells cells := by
  cases cells with
  | nil => simp [joinCells]
  | cons next cells => simp [joinCells, List.intercalate_cons_cons]

namespace Table

/-- Where a column begins: every column before it takes its width, and two blanks. -/
def offset : List Nat → Nat → Nat
  | width :: widths, i + 1 => width + 2 + offset widths i
  | _, _ => 0

/-- No text is longer than the width of its column. -/
def Within (widths : List Nat) (texts : List (List Char)) : Prop :=
  ∀ (i width : Nat) (text : List Char),
    widths[i]? = some width → texts[i]? = some text → text.length ≤ width

theorem Within.uncons {width : Nat} {widths : List Nat} {text : List Char} {texts : List (List Char)}
    (h : Within (width :: widths) (text :: texts)) : text.length ≤ width ∧ Within widths texts :=
  ⟨h 0 _ _ rfl rfl, fun i => h (i + 1)⟩

/-- **A line around one of its cells**: what stands before the cell is as long as the offset of its
column, and what stands after it is nothing or begins with two blanks. -/
theorem exists_joinCells {column : Column} {width : Nat} {text : List Char} :
    (columns : List Column) → (widths : List Nat) → (texts : List (List Char)) → (i : Nat) →
      {parts : List (List Char)} → cells noInk columns widths texts = some parts →
      columns[i]? = some column → widths[i]? = some width → texts[i]? = some text →
      Within widths texts →
      ∃ front padded back isLast, joinCells parts = front ++ padded ++ back ∧
        pad column.side width isLast text = some padded ∧ front.length = offset widths i ∧
        (back = [] ∨ isLast = false ∧ ∃ more, back = ' ' :: ' ' :: more)
  | column' :: columns, _ :: widths, _ :: texts, 0, _, hparts, hcolumn, hwidth, htext, _ => by
    cases hcolumn
    cases hwidth
    cases htext
    obtain ⟨padded, rest, hpad, hrest, rfl⟩ := cells_cons_eq_some.mp hparts
    refine ⟨[], padded, _, _, joinCells_cons _ _, hpad, rfl, ?_⟩
    split
    · exact .inl rfl
    · next hmore =>
      have hlength := length_of_cells columns widths hrest
      refine .inr ⟨List.isEmpty_eq_false_iff.mpr fun hcolumns => hmore (List.eq_nil_of_length_eq_zero ?_), _, rfl⟩
      rw [hlength, hcolumns, List.length_nil, Nat.zero_min]
  | column' :: columns, width' :: widths, text' :: texts, i + 1, _, hparts, hcolumn, hwidth, htext,
      h => by
    obtain ⟨hfirst, hwithin⟩ := h.uncons
    obtain ⟨padded', rest, hpad', hrest, rfl⟩ := cells_cons_eq_some.mp hparts
    obtain ⟨front, padded, back, isLast, hline, hpad, hlength, hback⟩ :=
      exists_joinCells columns widths texts i hrest hcolumn hwidth htext hwithin
    -- More columns follow, so this one is padded, and there are two blanks after it.
    rw [List.getElem?_cons_succ] at hcolumn hwidth htext
    have hcolumns : i < columns.length := (List.getElem?_eq_some_iff.mp hcolumn).1
    have hwidths : i < widths.length := (List.getElem?_eq_some_iff.mp hwidth).1
    have htexts : i < texts.length := (List.getElem?_eq_some_iff.mp htext).1
    have hmore : rest ≠ [] := by
      have hcount := length_of_cells columns widths hrest
      refine List.ne_nil_of_length_pos ?_
      omega
    have hnotLast : columns.isEmpty = false :=
      List.isEmpty_eq_false_iff.mpr (List.ne_nil_of_length_pos (Nat.zero_lt_of_lt hcolumns))
    rw [hnotLast] at hpad'
    refine ⟨padded' ++ [' ', ' '] ++ front, padded, back, isLast, ?_, hpad, ?_, hback⟩
    · rw [joinCells_cons, if_neg hmore, hline]
      simp only [List.append_assoc, List.cons_append, List.nil_append]
    · simp only [List.length_append, length_pad hpad' hfirst, hlength, offset, List.length_cons,
        List.length_nil]
  | [], _, _, _, _, _, hcolumn, _, _, _ => nomatch hcolumn
  | _ :: _, [], _, _, _, _, _, hwidth, _, _ => nomatch hwidth
  | _ :: _, _ :: _, [], _, _, _, _, _, htext, _ => nomatch htext

/-- **A text stands in its line where its column says.** -/
theorem stands_line {table : Table} {texts : List (List Char)} {i width : Nat} {column : Column}
    {text line : List Char} (hline : table.line noInk texts = some line)
    (hcolumn : table.columns[i]? = some column)
    (hwidth : table.widths[i]? = some width) (htext : texts[i]? = some text)
    (hwithin : Within table.widths texts) (hink : EndsInInk text) :
    Stands line text column.side (offset table.widths i) width := by
  obtain ⟨parts, hparts, rfl⟩ := line_eq_some.mp hline
  obtain ⟨front, padded, back, isLast, hjoined, hpad, hfront, hback⟩ :=
    exists_joinCells table.columns table.widths texts i hparts hcolumn hwidth htext hwithin
  obtain ⟨lead, trail, rfl, hleft, hright, hfill⟩ :=
    exists_pad hpad (hwithin i width text hwidth htext)
  have hsplit : joinCells parts =
      front ++ List.replicate lead ' ' ++ text ++ (List.replicate trail ' ' ++ back) := by
    simp only [hjoined, List.append_assoc]
  have hbefore : (front ++ List.replicate lead ' ').length = offset table.widths i + lead := by
    rw [List.length_append, hfront, List.length_replicate]
  refine ⟨front ++ List.replicate lead ' ', dropEnd isBlank (List.replicate trail ' ' ++ back), ?line,
    fun hside => ?left, fun hside => ?right, fun c hc => ?lead, fun c hc => ?trail⟩
  case line => rw [hsplit, dropEnd_append_of_endsInInk (hink.append _)]
  case left => rw [hbefore, hleft hside, Nat.add_zero]
  case right => rw [hbefore, Nat.add_assoc, hright hside]
  case lead =>
    rw [← hfront, List.drop_left] at hc
    exact List.eq_of_mem_replicate hc
  case trail =>
    rw [hbefore] at hc
    refine blank_of_mem_take (hback.imp_right fun hmore => ⟨?_, hmore.2⟩) c hc
    have hwhole := hfill hmore.1
    omega

/-- The texts of a line are within the widths if each is among those that its column shows. -/
theorem within_widths {table : Table} {texts : List (List Char)}
    (h : ∀ i column, table.columns[i]? = some column →
      ∀ text, texts[i]? = some text → text ∈ table.columnTexts i column) :
    Within table.widths texts := by
  intro i width text hwidth htext
  obtain ⟨hi, -⟩ := List.getElem?_eq_some_iff.mp hwidth
  rw [length_widths] at hi
  have hcolumn := List.getElem?_eq_getElem hi
  obtain ⟨longest, hlongest, -, hmax⟩ := table.exists_width hcolumn
  obtain rfl := Option.some.inj (hwidth.symm.trans hlongest)
  exact hmax text (h i _ hcolumn text htext)

theorem within_headings (table : Table) : Within table.widths (table.columns.map (·.heading)) := by
  refine within_widths fun i column hcolumn text htext => ?_
  rw [List.getElem?_map, hcolumn] at htext
  cases htext
  exact List.mem_cons_self

theorem within_row {table : Table} {row : List (List Char)} (h : row ∈ table.rows) :
    Within table.widths (fitRow table.columns row) := by
  refine within_widths fun i column hcolumn text htext => ?_
  rw [getElem?_fitRow, hcolumn] at htext
  cases htext
  exact List.mem_cons_of_mem _ (List.mem_map.mpr ⟨row, h, rfl⟩)

/-- A line without paint holds no line feed if its texts hold none. -/
theorem lineFeed_not_mem_line {table : Table} {texts : List (List Char)} {line : List Char}
    (hline : table.line noInk texts = some line) (h : ∀ text ∈ texts, '\n' ∉ text) : '\n' ∉ line := by
  obtain ⟨parts, hparts, rfl⟩ := line_eq_some.mp hline
  have hjoined := forall_mem_joinCells (p := ('\n' ≠ ·)) (by decide) table.columns table.widths hparts
    fun text htext => List.forall_mem_ne.mpr (h text htext)
  exact fun hmem => List.forall_mem_ne.mp hjoined ((dropEnd_isPrefix _ _).subset hmem)

/-! ## The lines of a table -/

/-- How a column shows in the lines of a table. It is as wide as its longest text, and so no wider than
its cap unless its heading is; its heading and its cells stand in their lines at one offset. -/
structure ColumnStands (table : Table) (header : List Char) (body : List (List Char)) (i : Nat)
    (column : Column) (width : Nat) : Prop where
  width_eq : table.widths[i]? = some width
  longest : IsLongest width (table.columnTexts i column)
  capped : ∀ cap, column.cap = some cap → 0 < cap → width ≤ max cap column.heading.length
  heading : EndsInInk column.heading →
    Stands header column.heading column.side (offset table.widths i) width
  cell : ∀ (r : Nat) (row : List (List Char)) (line : List Char),
    table.rows[r]? = some row → body[r]? = some line → EndsInInk (column.fit (row.getD i [])) →
      Stands line (column.fit (row.getD i [])) column.side (offset table.widths i) width

/-- How a table is laid out: one line for the headings and one for each row, none of which ends in a
blank. There is a width for each column and a cell of each row for each column, so that nothing is
looked up out of range, and every column stands at its offset. -/
structure LaidOut (table : Table) (header : List Char) (body : List (List Char)) : Prop where
  length_body : body.length = table.rows.length
  no_lineFeed : ∀ line ∈ header :: body, '\n' ∉ line
  trimmed : ∀ line ∈ header :: body, ∀ c ∈ line.getLast?, isBlank c = false
  length_widths : table.widths.length = table.columns.length
  length_row : ∀ row ∈ table.fitted, row.length = table.columns.length
  columns : ∀ (i : Nat) (column : Column), table.columns[i]? = some column →
    ∃ width, table.ColumnStands header body i column width

/-- The header without paint. -/
def header (table : Table) : List Char :=
  table.lineText noInk (table.columns.map (·.heading))

/-- The lines of the rows without paint. -/
def body (table : Table) : List (List Char) :=
  table.fitted.map (table.lineText noInk)

theorem render_off {table : Table} (h : table.Fits) :
    table.render .off = .whole (String.ofList ((table.header :: table.body).flatMap (· ++ ['\n']))) := by
  rw [render_of_fits h, rowInk_off]
  rfl

/-- **Every column stands at its offset**, in the header and in the lines of the rows. -/
theorem columnStands {table : Table} (h : table.Fits) {i : Nat} {column : Column}
    (hcolumn : table.columns[i]? = some column) :
    ∃ width, table.ColumnStands table.header table.body i column width := by
  obtain ⟨width, hwidth, hlongest⟩ := table.exists_width hcolumn
  refine ⟨width, hwidth, hlongest, fun cap hcap hpos => hlongest.le_cap hcap hpos, ?heading, ?cell⟩
  case heading =>
    refine stands_line (line_of_fits noInk h (List.length_map _)) hcolumn hwidth ?_ table.within_headings
    rw [List.getElem?_map, hcolumn, Option.map_some]
  case cell =>
    intro r row line hrow hline hink
    rw [body, fitted, List.getElem?_map, List.getElem?_map, hrow] at hline
    cases hline
    refine stands_line (line_of_fits noInk h (length_fitRow _ _)) hcolumn hwidth ?_
      (within_row (List.mem_of_getElem? hrow)) hink
    rw [getElem?_fitRow, hcolumn, Option.map_some]

/-- A table that fits, without line feeds in its headings and cells, is laid out in lines. -/
theorem laidOut {table : Table} (h : table.Fits)
    (hheadings : ∀ column ∈ table.columns, '\n' ∉ column.heading)
    (hcells : ∀ row ∈ table.rows, ∀ cell ∈ row, '\n' ∉ cell) :
    table.LaidOut table.header table.body where
  length_body := by rw [body, fitted, List.length_map, List.length_map]
  no_lineFeed := by
    refine List.forall_mem_cons.mpr ⟨?header, List.forall_mem_map.mpr (List.forall_mem_map.mpr ?body)⟩
    case header =>
      exact lineFeed_not_mem_line (line_of_fits noInk h (List.length_map _)) (List.forall_mem_map.mpr hheadings)
    case body =>
      intro row hrow
      have hfit := forall_mem_fitRow (p := ('\n' ≠ ·)) (by decide) table.columns
        fun cell hcell => List.forall_mem_ne.mpr (hcells row hrow cell hcell)
      exact lineFeed_not_mem_line (line_of_fits noInk h (length_fitRow _ _)) fun cell hcell =>
        List.forall_mem_ne.mp (hfit cell hcell)
  trimmed := by
    have hline {texts : List (List Char)} (htexts : texts.length = table.columns.length) :
        ∀ c ∈ (table.lineText noInk texts).getLast?, isBlank c = false := by
      obtain ⟨parts, -, hparts⟩ := line_eq_some.mp (line_of_fits noInk h htexts)
      rw [hparts]
      exact of_mem_getLast?_dropEnd _ _
    refine List.forall_mem_cons.mpr ⟨hline (List.length_map _), List.forall_mem_map.mpr fun row hrow => ?_⟩
    exact hline (length_of_mem_fitted hrow)
  length_widths := table.length_widths
  length_row _ hrow := length_of_mem_fitted hrow
  columns _ _ hcolumn := columnStands h hcolumn

/-- The table is written without colour as lines in which its columns line up. -/
def LinesUp (table : Table) : Prop :=
  ∃ header body, table.render .off = .whole (String.ofList ((header :: body).flatMap (· ++ ['\n']))) ∧
    table.LaidOut header body

/-- A table whose columns line up has been written to its end. -/
theorem LinesUp.fits {table : Table} (h : table.LinesUp) : table.Fits := by
  obtain ⟨header, body, hrender, -⟩ := h
  exact (table.complete_render .off).mp (hrender ▸ rfl)

end Table

/-- **Columns line up and no cell is overwritten**, unless a column is too wide to be padded. A cell is cut
only by a cap above zero that is shorter than it, to as many characters as the cap with dots in place of
the last. A row has the cell in the place of each column, an empty one where it is missing, and no
others. A table without line feeds is written without colour as a line for its headings and a line for each
row, in which every heading and cell that ends in no blank stands at the offset of its column, within the
width of its column, exactly if the table fits. Nothing is written of a table that does not. -/
theorem columns_line_up (table : Table) :
    (∀ (column : Column) (cell : List Char),
      (∀ cap, column.cap = some cap → 0 < cap → cap < cell.length →
        column.fit cell = cell.take (cap - 1) ++ ['…']) ∧
      ((∀ cap, column.cap = some cap → 0 < cap → cell.length ≤ cap) → column.fit cell = cell)) ∧
    (∀ (columns : List Column) (row : List (List Char)) (i : Nat),
      (Table.fitRow columns row)[i]? = columns[i]?.map fun column => column.fit (row.getD i [])) ∧
    ((∀ column ∈ table.columns, '\n' ∉ column.heading) →
      (∀ row ∈ table.rows, ∀ cell ∈ row, '\n' ∉ cell) → (table.LinesUp ↔ table.Fits)) ∧
    (¬table.Fits → ∀ colour, table.render colour = ⟨"", false⟩) := by
  refine ⟨fun column cell => ⟨fun cap => ?cut, ?kept⟩, ?row, ?table, ?refused⟩
  case cut => exact Column.fit_of_lt_length
  case kept => exact Column.fit_of_length_le
  case row => exact Table.getElem?_fitRow
  case table =>
    intro hheadings hcells
    refine ⟨Table.LinesUp.fits, fun h => ?_⟩
    exact ⟨table.header, table.body, Table.render_off h, Table.laidOut h hheadings hcells⟩
  case refused =>
    intro h colour
    exact Table.render_of_not_fits h colour

/-- A row with a cell that is cut, one with cells missing and one with a cell too many. The cell that is
cut stands behind the numbers, which keep to the right. -/
theorem columns_line_up_of_ragged :
    let table : Table := ⟨[.right "N", (Column.left "JOB").withCap 4, .secondary "PATH"],
      [["7".toList, "déploiement".toList, "/a b".toList], ["1024".toList],
        ["3".toList, "x".toList, "/c".toList, "more".toList]]⟩
    table.render .off = .whole "   N  JOB   PATH\n   7  dép…  /a b\n1024\n   3  x     /c\n" ∧
      ∃ header body,
        table.render .off = .whole (String.ofList ((header :: body).flatMap (· ++ ['\n']))) ∧
        table.LaidOut header body ∧
        ∃ line, body[0]? = some line ∧ Stands line "dép…".toList .left 6 4 := by
  intro table
  have hfits : table.Fits := (table.complete_render .off).mp (by decide)
  obtain ⟨header, body, hrender, hlaidOut⟩ :=
    ((columns_line_up table).2.2.1 (by decide) (by decide)).mpr hfits
  refine ⟨by decide, header, body, hrender, hlaidOut, ?_⟩
  obtain ⟨width, hcolumn⟩ := hlaidOut.columns 1 ((Column.left "JOB").withCap 4) rfl
  have hwidth : table.widths[1]? = some 4 := by decide
  obtain rfl := Option.some.inj (hcolumn.width_eq.symm.trans hwidth)
  have hline : 0 < body.length := hlaidOut.length_body ▸ Nat.zero_lt_succ _
  refine ⟨_, List.getElem?_eq_getElem hline, ?_⟩
  have hink : EndsInInk "dép…".toList := ⟨"dép".toList, '…', by decide, by decide⟩
  exact hcolumn.cell 0 _ _ rfl (List.getElem?_eq_getElem hline) hink

/-- A cell of 65536 letters in a column that keeps to the right: the table has no line feed, and its
columns do not line up. -/
theorem columns_fail_of_long_cell :
    let table : Table := ⟨[.right "N", .left "X"], [[List.replicate 65536 'a', ['b']]]⟩
    (∀ column ∈ table.columns, '\n' ∉ column.heading) ∧ (∀ row ∈ table.rows, ∀ cell ∈ row, '\n' ∉ cell) ∧
      ¬table.LinesUp := by
  intro table
  refine ⟨by decide, ?cells, ?lines⟩
  case cells =>
    have hlong : '\n' ∉ List.replicate 65536 'a' :=
      fun h => absurd (List.eq_of_mem_replicate h) (by decide)
    exact List.forall_mem_singleton.mpr
      (List.forall_mem_cons.mpr ⟨hlong, List.forall_mem_singleton.mpr (by decide)⟩)
  case lines =>
    intro h
    have hlong : List.replicate 65536 'a' ∈ table.columnTexts 0 (.right "N") :=
      List.mem_cons_of_mem _ (List.mem_singleton.mpr rfl)
    obtain ⟨hside, -⟩ | hlengths := h.fits 0 (.right "N") rfl
    · cases hside
    · have hlength := hlengths _ hlong
      rw [List.length_replicate] at hlength
      exact absurd hlength (by decide)

end BuildBrowser
