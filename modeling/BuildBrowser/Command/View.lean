import BuildBrowser.Command.Basic
import BuildBrowser.Render.Scope

/-!
# Commands that open views

They open a view and show its scope. A call that fails leaves the scope without data, and the command
succeeds all the same.
-/

namespace BuildBrowser.Command

/-- Shows a scope. -/
def showScope (p : Presentation) (scope : Scope) : Command :=
  print (scope.render p.colour p.format)

/-- Opens the view that a path leads to. -/
def openPath (table : RouteTable) (p : Presentation) (path : String) : Command := do
  showScope p (← table.open path)

/-- Opens the view of a route. -/
def showRoute (p : Presentation) (route : Route) : Command := do
  showScope p (← route.activate)

/-- The notice of a trigger. -/
def triggerNotice : TriggerOutcome → String
  | .accepted (some build) => "Success, build number " ++ build.text ++ "\n"
  | .accepted none => "Success\n"
  | .failed => "Failed to trigger build\n"

/-- Opens the view of a job's builds, triggers a build, tells what came of it in a notice, and shows the
view. -/
def trigger (p : Presentation) (job : JobId) : Command := do
  let scope ← JobBuildsScope.activate job
  let (outcome, scope) ← scope.trigger
  .write (.notice (triggerNotice outcome)) (showScope p (.jobBuilds scope))

end BuildBrowser.Command
