import BuildBrowser.Command.Basic
import BuildBrowser.Route.Table

/-!
# The route command

It shows where a path leads, and asks the world nothing.
-/

namespace BuildBrowser

/-- Where a path leads: the path that it is sent to, if no entry of the table yields a route for it,
and the route in the end. -/
structure RouteReport where
  path : String
  redirect : Option String
  route : Route
  deriving DecidableEq, Repr

namespace RouteReport

/-- The report of a path in a table. -/
def ofPath (table : RouteTable) (path : String) : RouteReport :=
  { path
    redirect :=
      match table.resolve path with
      | .matched _ => none
      | .redirect target => some target
    route := table.navigate path }

/-- The value of a report. -/
def toValue (report : RouteReport) : Json.Value :=
  .object
    (("path", .string report.path) :: Json.memberIfSome "redirected_to" report.redirect ++
      [("route", report.route.toValue), ("view", .string report.route.view.name)])

/-- The text of a report. -/
def text (colour : Colour) (report : RouteReport) : String :=
  (match report.redirect with
    | some target => fieldLine colour "Redirect" (report.path ++ " -> " ++ target)
    | none => "") ++
    fieldLine colour "View" report.route.view.title ++ fieldLine colour "Path" report.route.path

end RouteReport

/-- Shows where a path leads. -/
def Command.route (table : RouteTable) (p : Presentation) (path : String) : Command :=
  let report := RouteReport.ofPath table path
  print (present p.format report.toValue (.whole (report.text p.colour)))

end BuildBrowser
