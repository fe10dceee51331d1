import BuildBrowser.Api.Client

/-!
# The view of a job's builds

Its scope holds the builds of the last listing that was received, newest first, or nothing if none
was. The view can also trigger a build: one call, and a new listing if the server accepted it.
-/

namespace BuildBrowser

/-- What the view of a job's builds shows. -/
structure JobBuildsScope where
  job : JobId
  builds : Option (List BuildNumber)
  deriving DecidableEq, Repr

/-- What came of a trigger: the server accepted it, and may have named the new build, or the call
failed. -/
inductive TriggerOutcome where
  | accepted (build : Option BuildNumber)
  | failed
  deriving DecidableEq, Repr

namespace JobBuildsScope

/-- The scope of a job before any listing. -/
def start (job : JobId) : JobBuildsScope :=
  ⟨job, none⟩

/-- The scope after the outcome of a listing call. -/
def receive (scope : JobBuildsScope) : Except Api.Error BuildListing → JobBuildsScope
  | .ok listing => { scope with builds := some (sortNewestFirst listing.builds) }
  | .error _ => scope

/-- Asks for the builds. -/
def update (scope : JobBuildsScope) : Program JobBuildsScope := do
  return scope.receive (← Api.listBuilds scope.job)

/-- Triggers a build, and asks for the builds if the server accepted it. -/
def trigger (scope : JobBuildsScope) : Program (TriggerOutcome × JobBuildsScope) := do
  match ← Api.triggerBuild scope.job with
  | .ok receipt =>
    let scope ← scope.update
    return (.accepted (receipt.map TriggerReceipt.build), scope)
  | .error _ => return (.failed, scope)

/-- The view of a job as it opens: asked for once. -/
def activate (job : JobId) : Program JobBuildsScope :=
  (start job).update

end JobBuildsScope

end BuildBrowser
