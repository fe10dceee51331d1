import BuildBrowser.Api.Client

/-!
# The view of one build

Its scope holds the state document of the last report that was received, shortened to directories,
with the artifacts listed from it, or neither if no report was.
-/

namespace BuildBrowser

/-- What the view of a build shows. -/
structure BuildStateScope where
  job : JobId
  build : String
  state : Option BuildState
  artifacts : Option (List ArtifactRecord)
  deriving DecidableEq, Repr

namespace BuildStateScope

/-- The scope of a build before any report. -/
def start (job : JobId) (build : String) : BuildStateScope :=
  ⟨job, build, none, none⟩

/-- The scope after the outcome of a call for the report. -/
def receive (scope : BuildStateScope) : Except Api.Error BuildState → BuildStateScope
  | .ok state =>
    { scope with state := some state.takeRecords.2, artifacts := some state.takeRecords.1 }
  | .error _ => scope

/-- Asks for the report. -/
def load (scope : BuildStateScope) : Program BuildStateScope := do
  return scope.receive (← Api.getBuild scope.job scope.build)

/-- The view of a build as it opens: asked for once. -/
def activate (job : JobId) (build : String) : Program BuildStateScope :=
  (start job build).load

end BuildStateScope

end BuildBrowser
