import BuildBrowser.CommandLine.Execution
import BuildBrowser.Proofs.Api.Frontends
import BuildBrowser.Proofs.Command.Call

/-!
# The route command needs no server

What the command shows depends on the path, the form of output and the colour alone, and it asks the
world nothing: in any world it is a plain value (`execute_route`). So nothing that is set up for calls
has a part in it, but for one thing. The frontends are set up before any command runs, and settings
that name none are refused there (`execute_of_noFrontend`), whatever the command is.

`SaysRoute` is what a command line has to say; `saysRoute_routeWords` gives one for every path, form
of output and list of frontends.
-/

namespace BuildBrowser.CommandLine

/-! ## Command lines -/

/-- A command line names the route command with a path, a form of output, and a list of frontends or
none. -/
def SaysRoute (words : List String) (url : Option String) (format : Format) (path : String) : Prop :=
  ∃ said, parse browser words = .ok said ∧ said.invocation? = some (.route path) ∧
    said.format = format ∧ said.options.lookup "url" = url

/-- The word for a form of output. -/
def formatWord : Format → String
  | .text => "text"
  | .json => "json"

/-- A command line for the route command: options with their values behind an equals sign, and the
path where no word is an option. -/
def routeWords (url : Option String) (format : Format) (path : String) : List String :=
  "route" :: (url.map ("--url=" ++ ·)).toList ++ ["--output=" ++ formatWord format, "--", path]

/-- The place in the grammar after the word for the route command. -/
def routePlace : Place :=
  ⟨browser, ["distci"],
    simpleVerb "route" "Show which view a path routes to (no network access)" [pathArgument]⟩

theorem parse_route_cons (words : List String) :
    parse browser ("route" :: words) = match read routePlace .start words with
      | .error stop => .error stop
      | .ok below => State.start.finish ⟨browser, [], browser.root⟩ (some below) := by
  rfl

/-- Where no verb can follow, a word after two dashes is an option. -/
theorem read_dashed {place : Place} {s : State} {word : String} {c : Char} {long : List Char}
    (hverbs : place.verb.verbs = []) (hliteral : s.literal = false)
    (hword : word.toList = '-' :: '-' :: c :: long) (words : List String) :
    read place s (word :: words) =
      (s.takeDashed place true (readLong place (c :: long))).bind fun s => read place s words := by
  have hchild : place.child? word = none := by simp [Place.child?, hverbs]
  rw [read]
  simp only [hliteral, hchild, hverbs, hword, ite_self, List.isEmpty_nil, Bool.not_true,
    Bool.false_eq_true, and_false, if_false]

/-- A list of frontends behind its option is read as it is, whatever it is. -/
theorem read_url (url : String) (words : List String) :
    read routePlace .start (("--url=" ++ url) :: words) =
      read routePlace { State.start with options := [(urlFlag, url)] } words := by
  have hword : ("--url=" ++ url).toList = '-' :: '-' :: 'u' :: 'r' :: 'l' :: '=' :: url.toList := by
    rw [String.toList_append]
    rfl
  have hread : readLong routePlace ('u' :: 'r' :: 'l' :: '=' :: url.toList) =
      .flag urlFlag (some (String.ofList url.toList)) :=
    rfl
  rw [read_dashed rfl rfl hword, hread, String.ofList_toList]
  rfl

theorem saysRoute_routeWords (url : Option String) (format : Format) (path : String) :
    SaysRoute (routeWords url format path) url format path := by
  cases url with
  | none =>
    refine ⟨⟨["distci", "route"], [("output", formatWord format)], [path]⟩, ?_, rfl, ?_, rfl⟩ <;>
      cases format <;> rfl
  | some url =>
    refine ⟨⟨["distci", "route"], [("url", url), ("output", formatWord format)], [path]⟩, ?_, rfl, ?_,
      rfl⟩
    · change parse browser ("route" :: ("--url=" ++ url) :: _) = _
      rw [parse_route_cons, read_url]
      cases format <;> rfl
    · cases format <;> rfl

/-! ## Running them -/

section

variable {m : Type → Type} [Monad m] (host : Host m) {env : Environment} {words : List String}

/-- **Settings that name no frontend are refused before any command runs.** -/
theorem execute_of_noFrontend {said : Matches} {invocation : Invocation}
    (hsaid : parse browser words = .ok said) (hinvocation : said.invocation? = some invocation)
    (hnone : NamesNoFrontend (env.frontendText (said.options.lookup "url"))) :
    execute host env words = pure ⟨3, [], "Error: no frontend URL configured\n"⟩ := by
  have hrefused : Api.Frontends.ofTexts (env.frontends (said.options.lookup "url")) =
      .error .noFrontend :=
    ofTexts_frontends_eq_error_iff.mpr ⟨rfl, hnone⟩
  simp only [execute, hsaid, run, hinvocation, hrefused]
  rfl

/-- What the route command shows: the report of the path, in colour or not, as a text or a document. -/
def routeOutput (p : Presentation) (path : String) : Bytes :=
  let report := RouteReport.ofPath .standard path
  utf8 (present p.format report.toValue (.whole (report.text p.colour))).text

/-- Printing a report asks the world nothing, and the report comes to its end. -/
theorem run_route [LawfulMonad m] (p : Presentation) (path : String) (frontends : Api.Frontends) :
    ((Command.route .standard p path).run host.world).run (frontends, .empty) =
      pure (.success, frontends, ⟨routeOutput p path, ""⟩) := by
  have hending (value : Json.Value) (text : String) :
      Command.ending (present p.format value (.whole text)) = .success :=
    Command.ending_eq_success_iff.mpr (Command.complete_present p.format value rfl)
  calc ((Command.route .standard p path).run host.world).run (frontends, .empty)
    _ = pure (Command.ending _, frontends, Streams.empty.add (.output (routeOutput p path))) :=
      pure_bind _ _
    _ = pure (.success, frontends, ⟨routeOutput p path, ""⟩) := by rw [hending]; rfl

/-- **The route command has no effect in any world**: it ends with what it shows. -/
theorem execute_route [LawfulMonad m] {url : Option String} {format : Format} {path : String}
    (h : SaysRoute words url format path) (hnamed : ¬NamesNoFrontend (env.frontendText url)) :
    execute host env words = pure ⟨0, routeOutput ⟨env.colourWanted, format⟩ path, ""⟩ := by
  obtain ⟨said, hsaid, hinvocation, rfl, rfl⟩ := h
  cases hfrontends : Api.Frontends.ofTexts (env.frontends (said.options.lookup "url")) with
  | error error => exact absurd (ofTexts_frontends_eq_error_iff.mp hfrontends).2 hnamed
  | ok frontends =>
    simp only [execute, hsaid, run, hinvocation, hfrontends, Invocation.command, run_route, pure_bind]
    rfl

end

/-- **The route command needs no server and no setting for one**, but for a list of frontends that
names none. There is a command line for every path, form of output and list of frontends. Any two that
agree in the path and the form of output end alike, whatever the lists in force are, whatever the
world is, and however long calls may take: with the report of the path, no error, and no effect. If
the list in force names no frontend, the command is refused instead, also without an effect. -/
theorem route_needs_no_server :
    (∀ (url : Option String) (format : Format) (path : String),
      ∃ words, SaysRoute words url format path) ∧
    (∀ {m : Type → Type} [Monad m] [LawfulMonad m] (host host' : Host m) (env env' : Environment)
      (words words' : List String) (url url' : Option String) (format : Format) (path : String),
      SaysRoute words url format path → SaysRoute words' url' format path →
      env.colourWanted = env'.colourWanted →
      ¬NamesNoFrontend (env.frontendText url) → ¬NamesNoFrontend (env'.frontendText url') →
      execute host env words = pure ⟨0, routeOutput ⟨env.colourWanted, format⟩ path, ""⟩ ∧
        execute host' env' words' = pure ⟨0, routeOutput ⟨env.colourWanted, format⟩ path, ""⟩) ∧
    (∀ {m : Type → Type} [Monad m] (host : Host m) (env : Environment) (words : List String)
      (url : Option String) (format : Format) (path : String),
      SaysRoute words url format path → NamesNoFrontend (env.frontendText url) →
      execute host env words = pure ⟨3, [], "Error: no frontend URL configured\n"⟩) := by
  refine ⟨?said, ?shown, ?refused⟩
  case said =>
    intro url format path
    exact ⟨routeWords url format path, saysRoute_routeWords url format path⟩
  case shown =>
    intro m _ _ host host' env env' words words' url url' format path hsays hsays' hcolour hnamed hnamed'
    refine ⟨execute_route host hsays hnamed, ?_⟩
    rw [hcolour]
    exact execute_route host' hsays' hnamed'
  case refused =>
    intro m _ host env words url format path hsays hnone
    obtain ⟨said, hsaid, hinvocation, -, rfl⟩ := hsays
    exact execute_of_noFrontend host hsaid hinvocation hnone

/-- A world in which nobody is found, and nothing is stored. -/
def nowhere : Host Id :=
  ⟨fun _ => .closed, fun _ => .error .notFound, fun _ _ => .error .notFound⟩

/-- A slash as the list of frontends makes the difference between an exit code of three and none. -/
theorem route_refused_at_slash :
    (execute nowhere .empty ["route", "/jobs", "--url", "/"]).run =
        ⟨3, [], "Error: no frontend URL configured\n"⟩ ∧
      (execute nowhere .empty ["route", "/jobs"]).run =
        ⟨0, utf8 "View: job list\nPath: /jobs\n", ""⟩ := by
  have hslash : SaysRoute ["route", "/jobs", "--url", "/"] (some "/") .text "/jobs" :=
    ⟨_, rfl, rfl, rfl, rfl⟩
  have hplain : SaysRoute ["route", "/jobs"] none .text "/jobs" := ⟨_, rfl, rfl, rfl, rfl⟩
  have hnone : NamesNoFrontend (Environment.empty.frontendText (some "/")) := by decide
  have hnamed : ¬NamesNoFrontend (Environment.empty.frontendText none) := by decide
  have hshown : (RouteReport.ofPath .standard "/jobs").text .off =
      "View: job list\nPath: /jobs\n" := by
    decide
  refine ⟨?slash, ?plain⟩
  case slash =>
    obtain ⟨said, hsaid, hinvocation, -, hurl⟩ := hslash
    rw [execute_of_noFrontend nowhere hsaid hinvocation (hurl ▸ hnone), Id.run_pure]
  case plain =>
    rw [execute_route nowhere hplain hnamed, Id.run_pure, ← hshown]
    rfl

end BuildBrowser.CommandLine
