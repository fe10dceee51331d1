import BuildBrowser.Api.Client

/-!
# The job list view

Its scope holds the jobs of the last listing that was received, sorted, or nothing if none was. A
call that fails leaves the scope as it is.
-/

namespace BuildBrowser

/-- What the job list shows. -/
structure JobListScope where
  jobs : Option (List JobId)
  deriving DecidableEq, Repr

namespace JobListScope

/-- The scope before any listing. -/
def start : JobListScope :=
  ⟨none⟩

/-- The scope after the outcome of a listing call. -/
def receive (scope : JobListScope) : Except Api.Error (List JobId) → JobListScope
  | .ok jobs => { scope with jobs := some (sortJobs jobs) }
  | .error _ => scope

/-- Asks for the jobs. -/
def load (scope : JobListScope) : Program JobListScope := do
  return scope.receive (← Api.listJobs)

/-- The view as it opens: asked for once. -/
def activate : Program JobListScope :=
  start.load

end JobListScope

end BuildBrowser
