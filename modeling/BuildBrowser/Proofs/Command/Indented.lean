import BuildBrowser.Proofs.Command.Printed
import BuildBrowser.Proofs.Json.Rows

/-!
# The text form of a document loses nothing

A configuration and the description of a task are shown as the pretty text of their value, each line
indented by two spaces, under the lines that tell what they belong to. `ShowsValue` says what can be read off
such a block, by its lines alone: each starts with two spaces and ends with a line feed, without them it
is a row of the value, and all of them are the pretty text again.

It holds of every value (`showsValue_indented`), because a row holds no line end. What a reply carries fits
the reader, so that text is read as the value that the reply carried.
-/

namespace BuildBrowser

open Json

/-- The block shows the value: its lines, each ended by a line feed, are the rows of the value after two
spaces, and without those they are the pretty text. Each string of the value stands in one row. -/
structure ShowsValue (block : List Char) (v : Value) : Prop where
  ended : ((Text.lines block).flatMap fun line => line ++ ['\n']) = block
  spaced : ∀ line ∈ Text.lines block, [' ', ' '] <+: line
  plain : ∀ line ∈ Text.lines block, ∀ c ∈ line, 0x20 ≤ c.toNat
  pretty : ((Text.lines block).flatMap fun line => line.drop 2 ++ ['\n']) = (v.pretty ++ "\n").toList
  rows : ∃ rows : List Row, (Text.lines block).map (·.drop 2) = rows.map Row.text ∧
    rows.flatMap Row.strings = v.strings

theorem forall_mem_indentedRow (row : Row) : ∀ c ∈ ' ' :: ' ' :: row.text, 0x20 ≤ c.toNat :=
  List.forall_mem_cons.mpr ⟨by decide, List.forall_mem_cons.mpr ⟨by decide, forall_mem_rowText row⟩⟩

/-- The lines of an indented value are its rows, indented. -/
theorem lines_indented (v : Value) :
    Text.lines (indented v).toList = (v.rows 0 none false).map fun row => ' ' :: ' ' :: row.text := by
  have hplain : ∀ line ∈ (v.rows 0 none false).map fun row => ' ' :: ' ' :: row.text,
      '\n' ∉ line ∧ '\r' ∉ line :=
    List.forall_mem_map.mpr fun row _ =>
      ⟨fun h => absurd (forall_mem_indentedRow row _ h) (by decide),
        fun h => absurd (forall_mem_indentedRow row _ h) (by decide)⟩
  rw [← Text.lines_flatMap hplain, indented, String.toList_ofList, lines_pretty, List.flatMap_map,
    List.flatMap_map]
  rfl

/-- **An indented value shows the value**, whatever it is. -/
theorem showsValue_indented (v : Value) : ShowsValue (indented v).toList v := by
  have hlines := lines_indented v
  refine ⟨?ended, ?spaced, ?plain, ?pretty, v.rows 0 none false, ?rows, strings_rows 0 none false v⟩
  case ended =>
    rw [hlines, indented, String.toList_ofList, lines_pretty, List.flatMap_map, List.flatMap_map]
    rfl
  case spaced =>
    rw [hlines]
    exact List.forall_mem_map.mpr fun row _ => List.prefix_append [' ', ' '] row.text
  case plain =>
    rw [hlines]
    exact List.forall_mem_map.mpr fun row _ => forall_mem_indentedRow row
  case pretty =>
    rw [hlines, List.flatMap_map, String.toList_append]
    exact rowsText_pretty v
  case rows =>
    rw [hlines, List.map_map]
    rfl

/-- Line ends in a name and in a string, and containers without rows of their own. -/
example :
    indented (.object [("a\r\n", .array [.string "\n  b", .array [], .number (.nat 7)]), ("", .object [])]) =
      "  \x7b\n    \"a\\r\\n\": [\n      \"\\n  b\",\n      [],\n      7\n    ],\n" ++
        "    \"\": \x7b\x7d\n  \x7d\n" := by
  decide +kernel

/-- The content ends in lines that show the value. -/
def EndsInBlock (content : Bytes) (v : Value) : Prop :=
  ∃ above block, content = Utf8.encode (above ++ '\n' :: block) ∧ ShowsValue block v

theorem endsInBlock_utf8 (above : String) {text : String} {v : Value}
    (h : text = above ++ "\n" ++ indented v) : EndsInBlock (utf8 text) v := by
  refine ⟨above.toList, (indented v).toList, ?_, showsValue_indented v⟩
  rw [h, utf8, String.toList_append, String.toList_append, List.append_assoc]
  rfl

theorem JobConfig.endsInBlock (colour : Colour) (c : JobConfig) :
    EndsInBlock (utf8 (c.text colour)) c.config :=
  endsInBlock_utf8 _ rfl

theorem WorkerTask.endsInBlock (colour : Colour) (t : WorkerTask) :
    EndsInBlock (utf8 (t.text colour)) t.data := by
  have hfield (name text : String) : ∃ line, fieldLine colour name text = line ++ "\n" := ⟨_, rfl⟩
  rw [WorkerTask.text]
  cases t.status? with
  | none =>
    obtain ⟨line, hline⟩ := hfield "Task" t.id.text
    refine endsInBlock_utf8 line ?_
    simp [hline]
  | some status =>
    obtain ⟨line, hline⟩ := hfield "Status" status
    refine endsInBlock_utf8 (fieldLine colour "Task" t.id.text ++ line) ?_
    simp [hline, String.append_assoc]

/-! ## What a reply carries -/

theorem JobConfig.fits_config {body : Bytes} {c : JobConfig} (h : read JobConfig body = .ok c) :
    c.config.Fits maxDepth := by
  obtain ⟨rest, hdecoder, -⟩ := decode_ok.mp h
  obtain ⟨m, ⟨job, config, ⟨⟩⟩, hm, rfl, -, hconfig, -⟩ := Schema.obtained_of_decoder hdecoder
  rw [hm]
  exact (fits_of_obtained hconfig).mono (Nat.le_succ m)

theorem WorkerTask.fits_data {body : Bytes} {t : WorkerTask} (h : read WorkerTask body = .ok t) :
    t.data.Fits maxDepth := by
  obtain ⟨rest, hdecoder, -⟩ := decode_ok.mp h
  obtain ⟨m, ⟨id, data, ⟨⟩⟩, hm, rfl, -, hdata, -⟩ := Schema.obtained_of_decoder hdecoder
  rw [hm]
  exact (fits_of_obtained hdata).mono (Nat.le_succ m)

namespace Command

/-- Whatever value a reply to the request carries, the command shows it, if its numbers are integers: it
succeeds, and all that it does then is to write one output, which ends in the block of the value, and the
pretty text of the block is read as the value. -/
def ShowsReply (command : Command) (request : Api.Request) (carried : Bytes → Except Json.Error Value) :
    Prop :=
  ∀ body v, carried body = .ok v → v.Integral →
    ∃ content, (∀ rest ending, Run command (.sent request (.body body) :: rest) ending ↔
        rest = [.wrote (.output content)] ∧ ending = .success) ∧
      EndsInBlock content v ∧ read Value (utf8 (v.pretty ++ "\n")) = .ok v

theorem showsReply_calling {α : Type} [Document α] {endpoint : Endpoint} {sent : Option Bytes}
    {text : α → String} {value : α → Value}
    (hfits : ∀ body a, read α body = .ok a → (value a).Fits maxDepth)
    (hblock : ∀ a, EndsInBlock (utf8 (text a)) (value a)) :
    ShowsReply (calling (Api.callFor α endpoint sent) fun a => print (.whole (text a))) ⟨endpoint, sent⟩
      fun body => (read α body).map value := by
  intro body v hcarried hint
  obtain ⟨a, hread, rfl⟩ := map_ok.mp hcarried
  have hreply : ((Api.Reply.body body).toExcept endpoint).bind (Api.readReply α endpoint) = .ok a :=
    Api.Reply.toExcept_bind_ok.mpr ⟨body, rfl, mapError_ok.mpr hread⟩
  exact ⟨utf8 (text a), fun rest ending => (run_calling_ok hreply).trans run_print, hblock a,
    (hfits body a hread).read_line hint⟩

/-- **The text form of a document loses nothing.** Whatever configuration, or description of a task, a
reply carries, with integers for its numbers: it is shown under its heading as a block of lines, each of
which starts with two spaces and ends with a line feed; without the two spaces the lines are the pretty
text of the value and a line feed, and that is read as the value. Each line is a row of the value, so no
string in it starts a line. -/
theorem text_form_lossless (colour : Colour) :
    (∀ job, ShowsReply (showJob ⟨colour, .text⟩ job) ⟨.getJob job, none⟩ fun body =>
      (read JobConfig body).map JobConfig.config) ∧
    ∀ task, ShowsReply (getTask ⟨colour, .text⟩ task) ⟨.getTask task, none⟩ fun body =>
      (read WorkerTask body).map WorkerTask.data :=
  ⟨fun _ => showsReply_calling (fun _ _ => JobConfig.fits_config) (JobConfig.endsInBlock colour),
    fun _ => showsReply_calling (fun _ _ => WorkerTask.fits_data) (WorkerTask.endsInBlock colour)⟩

/-- A configuration with line ends in a name and in strings, and a description that is a string of them. -/
theorem line_ends_shown :
    (∃ v content, v.Integral ∧
      Run (showJob ⟨.off, .text⟩ ⟨"j"⟩)
        [.sent ⟨.getJob ⟨"j"⟩, none⟩
          (.body (utf8 ("\x7b\"job_id\":\"j\",\"config\":" ++
            "\x7b\"a\\r\\n\":[\"\\n  b\",[],7]\x7d\x7d"))), .wrote (.output content)] .success ∧
      EndsInBlock content v ∧ read Value (utf8 (v.pretty ++ "\n")) = .ok v) ∧
    ∃ v content, v.Integral ∧
      Run (getTask ⟨.off, .text⟩ ⟨"t"⟩)
        [.sent ⟨.getTask ⟨"t"⟩, none⟩ (.body (utf8 "[\"t\",\"\\n\\r\\n\"]")),
          .wrote (.output content)] .success ∧
      EndsInBlock content v ∧ read Value (utf8 (v.pretty ++ "\n")) = .ok v := by
  obtain ⟨hjob, htask⟩ := text_form_lossless .off
  constructor
  · have hint : (Value.object [("a\r\n", .array [.string "\n  b", .array [], .number (.nat 7)])]).Integral :=
      ⟨⟨trivial, trivial, rfl, trivial⟩, trivial⟩
    obtain ⟨content, hone, hblock, hread⟩ := hjob ⟨"j"⟩
      (utf8 ("\x7b\"job_id\":\"j\",\"config\":" ++ "\x7b\"a\\r\\n\":[\"\\n  b\",[],7]\x7d\x7d")) _
      (by decide +kernel) hint
    exact ⟨_, content, hint, (hone _ _).mpr ⟨rfl, rfl⟩, hblock, hread⟩
  · have hint : (Value.string "\n\r\n").Integral := trivial
    obtain ⟨content, hone, hblock, hread⟩ := htask ⟨"t"⟩ (utf8 "[\"t\",\"\\n\\r\\n\"]") _
      (by decide +kernel) hint
    exact ⟨_, content, hint, (hone _ _).mpr ⟨rfl, rfl⟩, hblock, hread⟩

end Command

end BuildBrowser
