import BuildBrowser.Json.Document

/-!
# Identifiers — names that the server hands out

The server names jobs, tasks and artifacts; the browser only echoes the names back. An identifier of
one kind is not one of another, and every text, the empty one included, is an identifier. They are
ordered by scalar values, which is the order of their UTF-8 bytes.
-/

namespace BuildBrowser

/-- What an identifier names. -/
inductive Named where
  | job
  | task
  | artifact
  deriving DecidableEq, Repr

/-- The name of something. -/
structure Identifier (what : Named) where
  text : String
  deriving DecidableEq, Repr

/-- The name of a job, a recurring build definition. -/
abbrev JobId := Identifier .job

/-- The name of a task that workers run. -/
abbrev TaskId := Identifier .task

/-- The name of an artifact within one build. -/
abbrev ArtifactId := Identifier .artifact

namespace Identifier

variable {what : Named}

instance : Ord (Identifier what) := ⟨fun a b => compare a.text b.text⟩

instance : Json.Document (Identifier what) where
  decoder allowance input := (Json.text allowance input).map fun (s, rest) => (⟨s⟩, rest)
  toValue id := .string id.text

/-- Whether an identifier is listed before another, or is the same. -/
def listedBefore (a b : Identifier what) : Bool :=
  decide (a.text ≤ b.text)

end Identifier

/-- Jobs in the order of a listing: ascending. -/
def sortJobs (jobs : List JobId) : List JobId :=
  jobs.mergeSort Identifier.listedBefore

end BuildBrowser
