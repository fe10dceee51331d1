import BuildBrowser.CommandLine.Browser
import BuildBrowser.Http.Exchange
import BuildBrowser.Settings

/-!
# Running a command line

From the words of a command line and the environment to what is written and the exit code. The
frontends are set up before any command runs, also before one that sends nothing.
-/

namespace BuildBrowser.CommandLine

/-- How the browser ends: its exit code, and what it has written to the output and beside it. -/
structure Finish where
  code : Nat
  output : Bytes
  errors : String
  deriving DecidableEq, Repr

/-- How the browser ends when reading the command line stopped. -/
def Stop.finish : Stop → Finish
  | .show text => ⟨0, utf8 text, ""⟩
  | .refuse text => ⟨2, [], text⟩

/-- The line of a failure. -/
def failureLine (message : String) : String :=
  "Error: " ++ message ++ "\n"

/-- How the browser ends after a command that has written something. A failure has a line of its own
after that. -/
def finishOf (streams : Streams) (ending : Ending) : Finish :=
  let line := match ending with
    | .failure error => failureLine error.message
    | .success | .abort => ""
  ⟨ending.exitCode, streams.output, streams.notices ++ line⟩

/-- What carries requests, and what reads and writes files. -/
structure Host (m : Type → Type) where
  wire : Http.Wire m
  load : String → m (Except FileFault Bytes)
  save : String → Bytes → m (Except FileFault Unit)

/-- The world of a command: calls go to the frontends in turn, and what is written is kept. -/
def Host.world {m : Type → Type} [Monad m] (host : Host m) :
    BuildBrowser.Program.World (StateT (Api.Frontends × Streams) m) where
  send request := fun (frontends, streams) => do
    let (reply, frontends) ← Http.send host.wire request frontends
    return (reply, frontends, streams)
  load path := fun state => do return (← host.load path, state)
  save path content := fun state => do return (← host.save path content, state)
  write what := fun (frontends, streams) => return ((), frontends, streams.add what)

/-- Runs what a command line says. -/
def run {m : Type → Type} [Monad m] (host : Host m) (env : Environment) (m? : Matches) : m Finish :=
  match m?.invocation? with
  | none => return ⟨0, utf8 (browserHelp ++ "\n"), ""⟩
  | some invocation =>
    match Api.Frontends.ofTexts (env.frontends (m?.options.lookup "url")) with
    | .error error => return ⟨error.exitCode, [], failureLine error.message⟩
    | .ok frontends => do
      let command := invocation.command ⟨env.colourWanted, m?.format⟩
      let (ending, _, streams) ← (command.run host.world).run (frontends, .empty)
      return finishOf streams ending

/-- Reads a command line and runs what it says. -/
def execute {m : Type → Type} [Monad m] (host : Host m) (env : Environment) (words : List String) :
    m Finish :=
  match parse browser words with
  | .error stop => return stop.finish
  | .ok said => run host env said

end BuildBrowser.CommandLine
