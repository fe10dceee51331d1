import BuildBrowser.Route.Table
import BuildBrowser.View.BuildState
import BuildBrowser.View.JobBuilds
import BuildBrowser.View.JobList

/-!
# Scopes — what an open view shows

A route opens one of three views. The value of a scope starts with the name of its view, so that two
scopes of different views never have the same value.
-/

namespace BuildBrowser

/-- The scope of an open view. -/
inductive Scope where
  | jobList (scope : JobListScope)
  | jobBuilds (scope : JobBuildsScope)
  | buildState (scope : BuildStateScope)
  deriving DecidableEq, Repr

/-- Opens the view of a route. -/
def Route.activate : Route → Program Scope
  | .jobs => do return .jobList (← JobListScope.activate)
  | .jobBuilds job => do return .jobBuilds (← JobBuildsScope.activate job)
  | .buildState job build => do return .buildState (← BuildStateScope.activate job build)

/-- Opens the view of the route that a path leads to. -/
def RouteTable.open (table : RouteTable) (path : String) : Program Scope :=
  (table.navigate path).activate

namespace Scope

/-- The view of a scope. -/
def view : Scope → View
  | .jobList _ => .jobList
  | .jobBuilds _ => .jobBuilds
  | .buildState _ => .buildState

/-- The members of a scope's value after the name of its view. -/
def data : Scope → List (String × Json.Value)
  | .jobList s => [("jobs", Json.optional s.jobs)]
  | .jobBuilds s => [("jobid", .string s.job.text), ("builds", Json.optional s.builds)]
  | .buildState s =>
    [("jobid", .string s.job.text), ("build", .string s.build), ("state", Json.optional s.state),
      ("artifacts", Json.optional s.artifacts)]

/-- The value of a scope. -/
def toValue (scope : Scope) : Json.Value :=
  .object (("view", .string scope.view.name) :: scope.data)

end Scope

end BuildBrowser
