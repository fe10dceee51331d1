import BuildBrowser.CommandLine.Execution
import BuildBrowser.Proofs.Program.Run

/-!
# A command line is a run of its command

The host answers what a command asks, and what the command writes is kept beside the frontends. So the
exit code of the browser, its output and what it writes beside that are those of a run of the command
(`exists_run_of_execute`): what is said of all runs of a command, and of `finishOf` after them, is said of
every command line, whatever the host does.
-/

namespace BuildBrowser.CommandLine

variable {σ : Type} (host : Host (StateM σ))

/-- Nothing that the host does changes what has been written. -/
theorem Host.keeps : host.world.Keeps Prod.snd where
  send _ _ _ := rfl
  load _ _ _ := rfl
  save _ _ _ _ := rfl
  write _ _ _ := rfl

/-- **A command line finishes as a run of its command does**, if the frontends are set up. -/
theorem exists_run_of_execute {env : Environment} {words : List String} {said : Matches}
    {invocation : Invocation} {frontends : Api.Frontends} (hsaid : parse browser words = .ok said)
    (hinvocation : said.invocation? = some invocation)
    (hfrontends : Api.Frontends.ofTexts (env.frontends (said.options.lookup "url")) = .ok frontends)
    (state : σ) :
    ∃ events ending, Run (invocation.command ⟨env.colourWanted, said.format⟩) events ending ∧
      ((execute host env words).run state).1 = finishOf (written events) ending := by
  obtain ⟨events, command, hwritten⟩ := exists_run host.keeps
    (invocation.command ⟨env.colourWanted, said.format⟩) (frontends, .empty) state
  refine ⟨events, _, command, ?_⟩
  simp only [execute, hsaid, run, hinvocation, hfrontends]
  exact congrArg (finishOf · _) hwritten

end BuildBrowser.CommandLine
