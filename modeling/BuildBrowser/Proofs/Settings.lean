import BuildBrowser.Proofs.Text.Blank
import BuildBrowser.Proofs.Text.Split
import BuildBrowser.Settings

/-!
# Lists of frontends

A list of frontends is written as pieces between commas. A piece is an entry with blanks around it, or
it is blank and no entry; so one list can be written in many ways. `FrontendList` says of a text that
it is one of those, without cutting or trimming.

**The law** (`splitting_undoes_joining`): splitting a text gives the entries that it is a list of, and no
others. So every text is a list of frontends in one way, and joining its entries with commas is another
way to write them. The pieces are the library's `List.splitOn`; what is left of each is told by
`Text.strip_append_append` and `Text.exists_strip`.
-/

namespace BuildBrowser

/-- An entry of a list of frontends: not empty, without a comma, and without blanks at its ends. -/
structure IsEntry (entry : String) : Prop where
  filled : entry ≠ ""
  unseparated : ',' ∉ entry.toList
  first : ∀ c ∈ entry.toList.head?, Text.isBlank c = false
  last : ∀ c ∈ entry.toList.getLast?, Text.isBlank c = false

/-- Pieces hold entries, in order: each is one with blanks around it, or is blank. -/
inductive ListPieces : List (List Char) → List String → Prop
  | nil : ListPieces [] []
  | blank {piece : List Char} {pieces : List (List Char)} {entries : List String}
      (blank : ∀ c ∈ piece, Text.isBlank c = true) (rest : ListPieces pieces entries) :
      ListPieces (piece :: pieces) entries
  | entry {before after : List Char} {entry : String} {pieces : List (List Char)}
      {entries : List String} (blankBefore : ∀ c ∈ before, Text.isBlank c = true)
      (blankAfter : ∀ c ∈ after, Text.isBlank c = true) (rest : ListPieces pieces entries) :
      ListPieces ((before ++ entry.toList ++ after) :: pieces) (entry :: entries)

/-- A text is a list of frontends with these entries. -/
structure FrontendList (raw : String) (entries : List String) : Prop where
  isEntry : ∀ entry ∈ entries, IsEntry entry
  written : ∃ pieces, raw.toList = [','].intercalate pieces ∧ ListPieces pieces entries

/-! ## What is left of a piece -/

theorem strip_of_forall_blank {piece : List Char} (h : ∀ c ∈ piece, Text.isBlank c = true) :
    Text.strip Text.isBlank piece = [] := by
  have hstrip : Text.strip Text.isBlank (piece ++ [] ++ []) = [] :=
    Text.strip_append_append h (List.forall_mem_nil _) (by simp) (by simp)
  rwa [List.append_nil, List.append_nil] at hstrip

theorem IsEntry.strip {entry : String} (h : IsEntry entry) {before after : List Char}
    (hbefore : ∀ c ∈ before, Text.isBlank c = true) (hafter : ∀ c ∈ after, Text.isBlank c = true) :
    Text.strip Text.isBlank (before ++ entry.toList ++ after) = entry.toList :=
  Text.strip_append_append hbefore hafter h.first h.last

theorem isBlank_comma : Text.isBlank ',' = false := by decide

namespace ListPieces

variable {pieces : List (List Char)} {entries : List String}

/-- No piece has a comma, if no entry has. -/
theorem comma_not_mem (h : ListPieces pieces entries) (hentries : ∀ entry ∈ entries, IsEntry entry) :
    ∀ piece ∈ pieces, ',' ∉ piece := by
  have not_blank {text : List Char} (hblank : ∀ c ∈ text, Text.isBlank c = true) : ',' ∉ text :=
    fun hmem => Bool.eq_false_iff.mp isBlank_comma (hblank ',' hmem)
  induction h with
  | nil => exact List.forall_mem_nil _
  | blank hblank _ ih => exact List.forall_mem_cons.mpr ⟨not_blank hblank, ih hentries⟩
  | entry hbefore hafter _ ih =>
    obtain ⟨hentry, hentries⟩ := List.forall_mem_cons.mp hentries
    refine List.forall_mem_cons.mpr ⟨?_, ih hentries⟩
    simp only [List.mem_append, not_or]
    exact ⟨⟨not_blank hbefore, hentry.unseparated⟩, not_blank hafter⟩

/-- Trimming the pieces and dropping the blank ones leaves the entries. -/
theorem stripped (h : ListPieces pieces entries) (hentries : ∀ entry ∈ entries, IsEntry entry) :
    (pieces.map fun piece => String.ofList (Text.strip Text.isBlank piece)).filter (· ≠ "") =
      entries := by
  induction h with
  | nil => rfl
  | blank hblank _ ih =>
    rw [List.map_cons, strip_of_forall_blank hblank]
    exact ih hentries
  | entry hbefore hafter _ ih =>
    obtain ⟨hentry, hentries⟩ := List.forall_mem_cons.mp hentries
    rw [List.map_cons, hentry.strip hbefore hafter, String.ofList_toList, List.filter_cons,
      if_pos (decide_eq_true hentry.filled), ih hentries]

end ListPieces

/-- Any pieces hold what trimming leaves of them. -/
theorem listPieces_stripped (pieces : List (List Char)) :
    ListPieces pieces
      ((pieces.map fun piece => String.ofList (Text.strip Text.isBlank piece)).filter (· ≠ "")) := by
  induction pieces with
  | nil => exact .nil
  | cons piece pieces ih =>
    obtain ⟨before, after, hpiece, hbefore, hafter⟩ := Text.exists_strip Text.isBlank piece
    rw [List.map_cons, List.filter_cons]
    split
    · have hentry : ListPieces
          ((before ++ (String.ofList (Text.strip Text.isBlank piece)).toList ++ after) :: pieces)
          (String.ofList (Text.strip Text.isBlank piece) :: _) := .entry hbefore hafter ih
      rwa [String.toList_ofList, ← hpiece] at hentry
    · next hempty =>
      have hnone : Text.strip Text.isBlank piece = [] := by simpa using hempty
      rw [hnone, List.append_nil] at hpiece
      refine .blank ?_ ih
      rw [hpiece]
      exact List.forall_mem_append.mpr ⟨hbefore, hafter⟩

/-- Entries are held by themselves, without any blanks. -/
theorem listPieces_toList (entries : List String) :
    ListPieces (entries.map String.toList) entries := by
  induction entries with
  | nil => exact .nil
  | cons entry entries ih =>
    have h : ListPieces (([] ++ entry.toList ++ []) :: entries.map String.toList) (entry :: entries) :=
      .entry (List.forall_mem_nil _) (List.forall_mem_nil _) ih
    rwa [List.nil_append, List.append_nil] at h

/-! ## Lists -/

theorem isEntry_of_mem_splitFrontends {raw entry : String} (h : entry ∈ splitFrontends raw) :
    IsEntry entry := by
  obtain ⟨hmem, hfilled⟩ := List.mem_filter.mp h
  obtain ⟨piece, hpiece, rfl⟩ := List.mem_map.mp hmem
  obtain ⟨before, after, htext, -, -⟩ := Text.exists_strip Text.isBlank piece
  refine ⟨of_decide_eq_true hfilled, ?unseparated, ?first, ?last⟩ <;> rw [String.toList_ofList]
  case unseparated =>
    intro hcomma
    refine Text.not_mem_of_mem_splitOn hpiece ?_
    rw [htext]
    exact List.mem_append_left _ (List.mem_append_right _ hcomma)
  case first => exact Text.of_mem_head?_strip Text.isBlank piece
  case last => exact Text.of_mem_getLast?_strip Text.isBlank piece

/-- Every text is a list of its entries. -/
theorem frontendList_splitFrontends (raw : String) : FrontendList raw (splitFrontends raw) := by
  refine ⟨fun entry h => isEntry_of_mem_splitFrontends h, Text.splitOn ',' raw.toList, ?_, ?_⟩
  · rw [Text.splitOn_eq, List.intercalate_splitOn]
  · exact listPieces_stripped (Text.splitOn ',' raw.toList)

/-- Entries joined with commas are a list of them. -/
theorem frontendList_intercalate {entries : List String} (h : ∀ entry ∈ entries, IsEntry entry) :
    FrontendList (",".intercalate entries) entries := by
  refine ⟨h, entries.map String.toList, ?_, listPieces_toList entries⟩
  rw [String.toList_intercalate]
  rfl

/-- **A text is a list of the entries that it is split into**, and of no others. -/
theorem frontendList_iff {raw : String} {entries : List String} :
    FrontendList raw entries ↔ splitFrontends raw = entries := by
  constructor
  · intro h
    obtain ⟨pieces, hraw, hpieces⟩ := h.written
    have hcomma := hpieces.comma_not_mem h.isEntry
    rw [splitFrontends]
    cases pieces with
    | nil =>
      rw [hraw]
      exact hpieces.stripped h.isEntry
    | cons piece pieces =>
      rw [hraw, Text.splitOn_eq, List.splitOn_intercalate ',' hcomma (List.cons_ne_nil _ _)]
      exact hpieces.stripped h.isEntry
  · intro h
    rw [← h]
    exact frontendList_splitFrontends raw

/-- **Splitting a list of frontends undoes joining it**, however it is written: with blanks around the
entries, and with blank pieces among them. What a text is split into are entries, and they are split
again when they are joined with commas. -/
theorem splitting_undoes_joining (raw : String) :
    (∀ entries, FrontendList raw entries ↔ splitFrontends raw = entries) ∧
      (∀ entry ∈ splitFrontends raw, IsEntry entry) ∧
      splitFrontends (",".intercalate (splitFrontends raw)) = splitFrontends raw := by
  have hentries : ∀ entry ∈ splitFrontends raw, IsEntry entry :=
    fun entry h => isEntry_of_mem_splitFrontends h
  exact ⟨fun entries => frontendList_iff, hentries,
    frontendList_iff.mp (frontendList_intercalate hentries)⟩

/-- Blanks need not be spaces, and a piece of them is no entry. -/
theorem splitting_of_ragged_list :
    FrontendList ",\u3000http://a:1\n, \t,,b 2 " ["http://a:1", "b 2"] ∧
      splitFrontends ",\u3000http://a:1\n, \t,,b 2 " = ["http://a:1", "b 2"] := by
  have hlist : FrontendList ",\u3000http://a:1\n, \t,,b 2 " ["http://a:1", "b 2"] := by
    refine ⟨?_, [[], ['\u3000'] ++ "http://a:1".toList ++ ['\n'], " \t".toList, [],
      [] ++ "b 2".toList ++ [' ']], by decide, ?_⟩
    · have hfirst : IsEntry "http://a:1" :=
        ⟨by decide, by decide, by rintro c ⟨⟩; decide, by rintro c ⟨⟩; decide⟩
      have hsecond : IsEntry "b 2" :=
        ⟨by decide, by decide, by rintro c ⟨⟩; decide, by rintro c ⟨⟩; decide⟩
      exact List.forall_mem_cons.mpr ⟨hfirst, List.forall_mem_singleton.mpr hsecond⟩
    · apply ListPieces.blank (List.forall_mem_nil _)
      apply ListPieces.entry (List.all_eq_true.mp (by decide)) (List.all_eq_true.mp (by decide))
      apply ListPieces.blank (List.all_eq_true.mp (by decide))
      apply ListPieces.blank (List.forall_mem_nil _)
      exact ListPieces.entry (List.forall_mem_nil _) (List.all_eq_true.mp (by decide)) .nil
  exact ⟨hlist, ((splitting_undoes_joining _).1 _).mp hlist⟩

end BuildBrowser
