import BuildBrowser.Document.Job
import BuildBrowser.Document.Task
import BuildBrowser.Proofs.Document.BuildState
import BuildBrowser.Proofs.Json.Record

/-!
# Documents survive being written

Every document of the server is read back from its own text: the same members in the same order, the
same values at every depth. A document is **lossless** (`Lossless`) if that holds however it was laid
out when it was read first, be it an object with its fields in any order or a list of their values.
The one exception is a number that is kept as binary64.

A record is lossless since each of its fields is written so that it restores what was read
(`Schema.rereads`); what a record adds here is its writers, which are how `toValue` writes it, a field
at a time.
-/

namespace BuildBrowser

open Json

/-! ## Lossless documents -/

/-- The text of the document that bytes hold. -/
def reprint (α : Type) [Document α] (input : Bytes) : Except Error Bytes :=
  (read α input).map fun a => utf8 (Document.text a)

/-- A document that was read, and whose numbers are integers, is read back from its text on one line
and from its text with a line for each item, and its text is the text of what is read from it. -/
structure Lossless (α : Type) [Document α] : Prop where
  compact : ∀ ⦃input : Bytes⦄ ⦃a : α⦄, read α input = .ok a → (Document.toValue a).Integral →
    read α (utf8 (Document.toValue a).compact) = .ok a
  pretty : ∀ ⦃input : Bytes⦄ ⦃a : α⦄, read α input = .ok a → (Document.toValue a).Integral →
    read α (utf8 (Document.toValue a).pretty) = .ok a
  idempotent : ∀ ⦃input : Bytes⦄ ⦃a : α⦄, read α input = .ok a → (Document.toValue a).Integral →
    (reprint α input).bind (reprint α) = reprint α input

theorem Lossless.of_rereads {α : Type} [Document α]
    (h : Rereads (Document.decoder (α := α) maxDepth) Document.toValue) : Lossless α := by
  have hwritten {style : Style} (hstyle : style.Blank) {input : Bytes} {a : α}
      (hread : read α input = .ok a) (hint : (Document.toValue a).Integral) :
      read α (Utf8.encode (write style 0 (Document.toValue a))) = .ok a := by
    obtain ⟨rest, hdecoder, -⟩ := decode_ok.mp hread
    exact (h hdecoder hint).read hstyle hint
  have hcompact {input : Bytes} {a : α} (hread : read α input = .ok a)
      (hint : (Document.toValue a).Integral) : read α (utf8 (Document.toValue a).compact) = .ok a := by
    rw [utf8_compact]
    exact hwritten Style.compact_blank hread hint
  refine ⟨fun input a => hcompact, fun input a hread hint => ?_, fun input a hread hint => ?_⟩
  · rw [utf8_pretty]
    exact hwritten Style.pretty_blank hread hint
  · have hagain : reprint α (utf8 (Document.text a)) = .ok (utf8 (Document.text a)) :=
      map_ok.mpr ⟨a, hcompact hread hint, rfl⟩
    rw [reprint, hread]
    exact hagain

/-! ## Names and numbers -/

theorem Identifier.rereads {what : Named} (n : Nat) :
    Rereads (Document.decoder (α := Identifier what) n) Document.toValue :=
  (rereads_text n).map fun _ => rfl

theorem Identifier.toValue_ne_null {what : Named} (id : Identifier what) :
    Document.toValue id ≠ .null :=
  nofun

theorem BuildNumber.rereads (n : Nat) :
    Rereads (Document.decoder (α := BuildNumber) n) Document.toValue :=
  (rereads_unsigned n).map fun _ => rfl

theorem BuildNumber.toValue_ne_null (build : BuildNumber) : Document.toValue build ≠ .null :=
  nofun

/-! ## Records -/

theorem JobListing.rereads (n : Nat) : Rereads (JobListing.schema.decoder (n + 1)) Document.toValue :=
  Schema.rereads JobListing.schema (fun jobs : List JobId => some (Document.toValue jobs), ())
    (by decide) (fun _ => rfl) ⟨Field.restores_required (rereads_list Identifier.rereads n), trivial⟩

/-- A listing of jobs is read from its text, whatever the names in it are. -/
theorem JobListing.read_compact (listing : JobListing) :
    read JobListing (utf8 (Document.toValue listing).compact) = .ok listing := by
  have hitems : (Document.toValue listing.jobs).Integral :=
    integralItems_iff.mpr (List.forall_mem_map.mpr fun _ _ => trivial)
  have hvalue : (Document.toValue listing).Integral := ⟨hitems, trivial⟩
  have hjobs : List.Forall₂ (ReadsBack (Document.decoder (α := JobId) (maxDepth - 2)))
      (listing.jobs.map Document.toValue) listing.jobs :=
    List.forall₂_map_left_iff.mpr (List.forall₂_same.mpr fun job _ => (readsBack_text _ job.text).map _)
  have hfolds : Folds (Slots.read JobListing.schema.fields (maxDepth - 1)) (none, ())
      [("jobs", Document.toValue listing.jobs)] (some listing.jobs, ()) :=
    .cons (takesMember_field (readsBack_list hjobs hitems) hitems (Slots.empty [])) (.nil _)
  have hback : ReadsBack (Document.decoder maxDepth) (Document.toValue listing) listing :=
    Schema.readsBack hfolds rfl
  rw [utf8_compact]
  exact hback.read Style.compact_blank hvalue

theorem TaskListing.rereads (n : Nat) : Rereads (TaskListing.schema.decoder (n + 1)) Document.toValue :=
  Schema.rereads TaskListing.schema (fun tasks : List TaskId => some (Document.toValue tasks), ())
    (by decide) (fun _ => rfl) ⟨Field.restores_required (rereads_list Identifier.rereads n), trivial⟩

theorem JobConfig.rereads (n : Nat) : Rereads (JobConfig.schema.decoder (n + 1)) Document.toValue :=
  Schema.rereads JobConfig.schema (fun job : JobId => some (Document.toValue job), some, ())
    (by decide) (fun _ => rfl)
    ⟨Field.restores_required (Identifier.rereads n), Field.restores_value "config" n, trivial⟩

theorem WorkerTask.rereads (n : Nat) : Rereads (WorkerTask.schema.decoder (n + 1)) Document.toValue :=
  Schema.rereads WorkerTask.schema (fun id : TaskId => some (Document.toValue id), some, ())
    (by decide) (fun _ => rfl)
    ⟨Field.restores_required (Identifier.rereads n), Field.restores_value "data" n, trivial⟩

theorem TriggerReceipt.rereads (n : Nat) :
    Rereads (TriggerReceipt.schema.decoder (n + 1)) Document.toValue :=
  Schema.rereads TriggerReceipt.schema
    (fun job : JobId => some (Document.toValue job),
      fun build : BuildNumber => some (Document.toValue build), some, ())
    (by decide) (fun _ => rfl)
    ⟨Field.restores_required (Identifier.rereads n), Field.restores_required (BuildNumber.rereads n),
      Field.restores_value "state" n, trivial⟩

theorem BuildListing.rereads (n : Nat) :
    Rereads (BuildListing.schema.decoder (n + 1)) Document.toValue := by
  refine Schema.rereads BuildListing.schema
    (fun builds : List BuildNumber => some (Document.toValue builds),
      fun last : Option BuildNumber => last.map Document.toValue, ())
    (by decide) (fun (builds, last, ()) => ?_)
    ⟨Field.restores_required (rereads_list BuildNumber.rereads n),
      Field.restores_option (BuildNumber.rereads n) BuildNumber.toValue_ne_null, trivial⟩
  cases last <;> rfl

theorem ArtifactRecord.rereads (n : Nat) :
    Rereads (ArtifactRecord.schema.decoder (n + 1)) Document.toValue := by
  refine Schema.rereads ArtifactRecord.schema
    (fun id : ArtifactId => some (Document.toValue id), fun fullName : String => some (.string fullName),
      fun fileName : Option String => some ((fileName.map Value.string).getD .null), ())
    (by decide) (fun (id, fullName, fileName, ()) => ?_)
    ⟨Field.restores_required (Identifier.rereads n), Field.restores_required (rereads_text n),
      Field.restores_nullable (rereads_text n) nofun, trivial⟩
  cases fileName <;> rfl

/-- A report holds a state at one bracket less than its own allowance. -/
theorem BuildReport.rereads (n : Nat) :
    Rereads (BuildReport.schema.decoder (n + 3)) Document.toValue := by
  refine Schema.rereads BuildReport.schema
    (fun job : Option JobId => job.map Document.toValue,
      fun build : Option BuildNumber => build.map Document.toValue,
      fun state : BuildState => some (Document.toValue state), ())
    (by decide) (fun (job, build, state, ()) => ?_)
    ⟨Field.restores_option (Identifier.rereads (n + 2)) Identifier.toValue_ne_null,
      Field.restores_option (BuildNumber.rereads (n + 2)) BuildNumber.toValue_ne_null,
      Field.restores_required (BuildState.rereads n), trivial⟩
  cases job <;> cases build <;> rfl

/-! ## Every document -/

/-- **Every document of the server is lossless.** -/
theorem documents_lossless :
    Lossless JobListing ∧ Lossless BuildListing ∧ Lossless BuildReport ∧ Lossless TriggerReceipt ∧
      Lossless TaskListing ∧ Lossless BuildState ∧ Lossless ArtifactRecord ∧ Lossless JobConfig ∧
      Lossless WorkerTask ∧ Lossless BuildNumber ∧ Lossless JobId :=
  ⟨.of_rereads (JobListing.rereads _), .of_rereads (BuildListing.rereads _),
    .of_rereads (BuildReport.rereads _), .of_rereads (TriggerReceipt.rereads _),
    .of_rereads (TaskListing.rereads _), .of_rereads (BuildState.rereads _),
    .of_rereads (ArtifactRecord.rereads _), .of_rereads (JobConfig.rereads _),
    .of_rereads (WorkerTask.rereads _), .of_rereads (BuildNumber.rereads _),
    .of_rereads (Identifier.rereads _)⟩

/-- A report from a list, with a number for each end of the range, becomes an object in which the
artifacts of the state come first. -/
theorem report_from_list_lossless :
    ∃ r : BuildReport,
      read BuildReport (utf8 ("[null, 7, \x7b\"z\": [18446744073709551615, -9223372036854775808], " ++
        "\"artifacts\": \x7b\"b\": [\"\\u00e9\", \"\"], \"a\": []\x7d, \"k\": null\x7d]")) = .ok r ∧
      Document.text r = "\x7b\"build_number\":7,\"state\":\x7b\"artifacts\":\x7b\"b\":[\"é\",\"\"],\"a\":[]\x7d," ++
        "\"z\":[18446744073709551615,-9223372036854775808],\"k\":null\x7d\x7d" ∧
      read BuildReport (utf8 (Document.text r)) = .ok r := by
  refine ⟨⟨none, some ⟨7⟩, ⟨[("b", ["é", ""]), ("a", [])],
    [("z", .array [.number (.nat 18446744073709551615), .number (.negSucc 9223372036854775807)]),
      ("k", .null)]⟩⟩, ?read, ?text, documents_lossless.2.2.1.compact ?read ?integral⟩
  case read => decide +kernel
  case text => decide +kernel
  case integral => exact ⟨rfl, ⟨⟨⟨trivial, trivial, trivial⟩, trivial, trivial⟩, ⟨rfl, rfl, trivial⟩,
    trivial, trivial⟩, trivial⟩

end BuildBrowser
