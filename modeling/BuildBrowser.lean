import BuildBrowser.Http.Script
import BuildBrowser.Main
import BuildBrowser.Rehearsal
import BuildBrowser.Proofs.Path
import BuildBrowser.Proofs.Text.Utf8.WellFormed
import BuildBrowser.Proofs.Segment.Canonical
import BuildBrowser.Proofs.Segment.Escapes
import BuildBrowser.Proofs.Endpoint
import BuildBrowser.Proofs.RequestTarget
import BuildBrowser.Proofs.Program.Run
import BuildBrowser.Proofs.Route.Segments
import BuildBrowser.Proofs.Route.Pattern
import BuildBrowser.Proofs.Route.Resolve
import BuildBrowser.Proofs.Route.Standard
import BuildBrowser.Proofs.Route.Canonical
import BuildBrowser.Proofs.Route.Surroundings
import BuildBrowser.Proofs.Http.DotSegments
import BuildBrowser.Proofs.Http.Address
import BuildBrowser.Proofs.Http.Flow
import BuildBrowser.Proofs.Http.Traffic
import BuildBrowser.Proofs.View.Operation
import BuildBrowser.Proofs.Command.Trigger
import BuildBrowser.Proofs.View.LastReply
import BuildBrowser.Proofs.View.Reachable
import BuildBrowser.Proofs.Text.Order
import BuildBrowser.Proofs.View.Order
import BuildBrowser.Proofs.Render.Table
import BuildBrowser.Proofs.Render.Layout
import BuildBrowser.Proofs.Render.Fits
import BuildBrowser.Proofs.Render.Listing
import BuildBrowser.Proofs.Render.Uncolour
import BuildBrowser.Proofs.Render.Colour
import BuildBrowser.Proofs.Command.Open
import BuildBrowser.Proofs.Settings
import BuildBrowser.Proofs.Api.Frontends
import BuildBrowser.Proofs.Api.NormalForm
import BuildBrowser.Proofs.Api.Script
import BuildBrowser.Proofs.Json.Lexical
import BuildBrowser.Proofs.Json.Loop
import BuildBrowser.Proofs.Json.Numeral
import BuildBrowser.Proofs.Json.Plain
import BuildBrowser.Proofs.Json.Written
import BuildBrowser.Proofs.Json.Reread
import BuildBrowser.Proofs.Json.Fits
import BuildBrowser.Proofs.Json.Controls
import BuildBrowser.Proofs.Json.Rows
import BuildBrowser.Proofs.Json.Grammar
import BuildBrowser.Proofs.Json.Local
import BuildBrowser.Proofs.Json.Local.Number
import BuildBrowser.Proofs.Json.Local.Kinds
import BuildBrowser.Proofs.Json.Skip
import BuildBrowser.Proofs.Json.Agree
import BuildBrowser.Proofs.Json.Object
import BuildBrowser.Proofs.Json.Record
import BuildBrowser.Proofs.Json.Sound
import BuildBrowser.Proofs.Json.Items
import BuildBrowser.Proofs.Json.Unsigned
import BuildBrowser.Proofs.Json.Compatible
import BuildBrowser.Proofs.Json.Given
import BuildBrowser.Proofs.Document.BuildState
import BuildBrowser.Proofs.Document.RoundTrip
import BuildBrowser.Proofs.Document.Rounds
import BuildBrowser.Proofs.Document.Compatible
import BuildBrowser.Proofs.Document.Numbers
import BuildBrowser.Proofs.Json.Verbatim
import BuildBrowser.Proofs.Document.Artifacts
import BuildBrowser.Proofs.Document.Split
import BuildBrowser.Proofs.Command.Call
import BuildBrowser.Proofs.Command.SetJob
import BuildBrowser.Proofs.Command.Supplement
import BuildBrowser.Proofs.Command.Printed
import BuildBrowser.Proofs.Command.Indented
import BuildBrowser.Proofs.CommandLine.Execution
import BuildBrowser.Proofs.CommandLine.Route
