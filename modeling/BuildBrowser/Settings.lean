import BuildBrowser.Api.Frontends
import BuildBrowser.Decimal.Natural
import BuildBrowser.Render.Paint
import BuildBrowser.Text.Split

/-!
# Settings — what the environment says

The frontends are named on the command line, or else by the environment, or else are the default one;
a list of them is separated by commas. Colour is on only if the environment asks for it and does not
forbid it, since output is never taken to be a terminal.
-/

namespace BuildBrowser

/-- The variables that the browser looks at; those that are not set are none. -/
structure Environment where
  noColour : Option String
  colour : Option String
  url : Option String
  timeout : Option String
  log : Option String
  deriving DecidableEq, Repr

/-- The frontend of a browser that none was named to. -/
def defaultUrl : String := "http://localhost:8080"

/-- The filter of a log that none was set for. -/
def defaultLogFilter : String := "warn"

/-- The entries of a list separated by commas, without the blanks at their ends, and without the
entries that are blank. -/
def splitFrontends (raw : String) : List String :=
  ((Text.splitOn ',' raw.toList).map fun entry => String.ofList (Text.strip Text.isBlank entry)).filter
    (· ≠ "")

/-- The number of a decimal numeral, which may start with a plus sign, if it fits 64 bits. -/
def parseUnsigned (s : String) : Option UInt64 :=
  let digits := match s.toList with
    | '+' :: rest => rest
    | text => text
  ((Decimal.ofDigits? digits).filter (· < UInt64.size)).map Nat.toUInt64

namespace Environment

/-- The environment without variables. -/
def empty : Environment :=
  ⟨none, none, none, none, none⟩

/-- Whether output is coloured. -/
def colourWanted (env : Environment) : Colour :=
  if env.noColour = some "1" then .off else if env.colour = some "1" then .on else .off

/-- The frontends as they are named: the command line comes before the environment. A list without
entries names the default one. -/
def frontends (env : Environment) (commandLine : Option String) : List String :=
  match splitFrontends ((commandLine.or env.url).getD defaultUrl) with
  | [] => [defaultUrl]
  | entries => entries

/-- The time that a call may take, in milliseconds, if it is limited. -/
def timeoutMs (env : Environment) : Option UInt64 :=
  (env.timeout.bind parseUnsigned).filter (· > 0)

/-- The filter of the log. -/
def logFilter (env : Environment) : String :=
  (env.log.filter (· ≠ "")).getD defaultLogFilter

end Environment

end BuildBrowser
