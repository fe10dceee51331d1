import BuildBrowser.CommandLine.Grammar

/-!
# Reading a command line

Words are read from left to right. An option may stand before or after the verbs, with its value in
the next word, after an equals sign, or, for a short option, right behind the letter; after `--` no
word is an option. A value is checked when the next option or argument starts, or at the end. What is
said last and deepest of a shared option counts. Reading ends with the verbs, options and arguments
that were given (`Matches`), or stops with a text to show and an exit code (`Stop`).
-/

namespace BuildBrowser.CommandLine

/-- A text to show instead of running a command: on the output, or as an error. -/
inductive Stop where
  | show (text : String)
  | refuse (text : String)
  deriving DecidableEq, Repr

/-- What a command line says: the verbs after the root, the values of options by their long names, the
deepest first, and the arguments. -/
structure Matches where
  verbs : List String
  options : List (String × String)
  arguments : List String
  deriving DecidableEq, Repr

/-- What a value that is still to be checked belongs to. -/
inductive Pending where
  | flag (flag : Flag) (value : Option String)
  | argument (argument : Argument) (value : String)
  deriving DecidableEq, Repr

/-- What has been read at a place. -/
structure State where
  options : List (Flag × String)
  arguments : List String
  pending : Option Pending
  literal : Bool
  deriving DecidableEq, Repr

/-- Nothing read. -/
def State.start : State :=
  ⟨[], [], none, false⟩

/-! ## Messages -/

/-- The last line of a message. -/
def tryHelp : String :=
  "\n\nFor more information, try '--help'.\n"

/-- The message of an error with what it concerns below it. -/
def errorText (message : String) (below : List String) : String :=
  "error: " ++ message ++ String.join (below.map ("\n\n" ++ ·)) ++ tryHelp

/-- The words for what a value may be, on a line of their own. -/
def valuesLine : Values → String
  | .oneOf words => "\n  " ++ possibleValues words
  | _ => ""

/-- The refusal of a missing value. -/
def valueMissing (name : String) (values : Values) : Stop :=
  .refuse (errorText ("a value is required for '" ++ name ++ "' but none was supplied" ++
    valuesLine values) [])

/-- The refusal of a value that is none of the possible ones. -/
def valueInvalid (name value : String) (values : Values) : Stop :=
  .refuse (errorText ("invalid value '" ++ value ++ "' for '" ++ name ++ "'" ++ valuesLine values) [])

/-- The refusal of a word that has no place. -/
def unexpected (word : String) (tips : List String) (usage : String) : Stop :=
  .refuse (errorText ("unexpected argument '" ++ word ++ "' found")
    (tips.map ("  tip: " ++ ·) ++ [usage]))

/-- The advice to put a word that looks like an option after `--`. -/
def literalTip (word : String) : String :=
  "to pass '" ++ word ++ "' as a value, use '-- " ++ word ++ "'"

/-! ## Values -/

/-- A value that is allowed. -/
def checkValue (name : String) (values : Values) (value : String) : Except Stop String :=
  match values with
  | .any => .ok value
  | .file => if value = "" then .error (valueMissing name values) else .ok value
  | .oneOf words =>
    if words.contains value then .ok value
    else if value = "" then .error (valueMissing name values)
    else .error (valueInvalid name value values)

/-- The state with an option and its value. An option is given at a place once. -/
def State.addOption (place : Place) (flag : Flag) (value : String) (s : State) : Except Stop State :=
  if s.options.any fun o => o.1.long = flag.long then
    .error (.refuse (errorText ("the argument '" ++ flag.text ++ "' cannot be used multiple times")
      [place.usage]))
  else
    (checkValue flag.text flag.values value).map fun value =>
      { s with options := s.options ++ [(flag, value)] }

/-- The state with the pending value checked. -/
def State.settle (place : Place) (s : State) : Except Stop State :=
  let settled := { s with pending := none }
  match s.pending with
  | none => .ok settled
  | some (.flag flag none) => .error (valueMissing flag.text flag.values)
  | some (.flag flag (some value)) => settled.addOption place flag value
  | some (.argument argument value) =>
    (checkValue argument.text argument.values value).map fun value =>
      { settled with arguments := settled.arguments ++ [value] }

/-- The state with the pending value checked, or left out if it is refused. -/
def State.settled (place : Place) (s : State) : State :=
  (s.settle place).toOption.getD { s with pending := none }

/-- The options given so far, as messages name them. -/
def State.used (s : State) : List String :=
  s.options.map (·.1.text)

/-- The usage line with what has been used so far. -/
def State.usage (place : Place) (s : State) : String :=
  let s := s.settled place
  if s.options.isEmpty && s.arguments.isEmpty then place.usage else place.usageWith s.used

/-! ## Words -/

/-- What a word that starts with a dash says. -/
inductive Dashed where
  | help
  | version
  | flag (flag : Flag) (value : Option String)
  | unneeded (name value : String)
  | unknown (word : String)
  deriving DecidableEq, Repr

/-- The text before an equals sign, and the text after it if there is one. -/
def splitEquals (word : List Char) : String × Option String :=
  let name := word.takeWhile (· ≠ '=')
  match word.dropWhile (· ≠ '=') with
  | [] => (String.ofList name, none)
  | _ :: value => (String.ofList name, some (String.ofList value))

/-- What a word after two dashes says. -/
def readLong (place : Place) (word : List Char) : Dashed :=
  let (name, value?) := splitEquals word
  match place.flags.find? fun f => f.long = name with
  | some flag => .flag flag value?
  | none =>
    if name = "help" ∨ (name = "version" ∧ place.isRoot) then
      match value? with
      | some value => .unneeded ("--" ++ name) value
      | none => if name = "help" then .help else .version
    else .unknown ("--" ++ name)

/-- What a word after one dash says. -/
def readShort (place : Place) (letter : Char) (rest : List Char) : Dashed :=
  match place.flags.find? fun f => f.short = some letter with
  | some flag =>
    match rest with
    | [] => .flag flag none
    | '=' :: value => .flag flag (some (String.ofList value))
    | value => .flag flag (some (String.ofList value))
  | none =>
    if letter = 'h' then .help
    else if letter = 'V' ∧ place.isRoot then .version
    else .unknown (String.ofList ['-', letter])

/-- The state after an option, with its value if that came along. -/
def State.takeFlag (place : Place) (flag : Flag) (value? : Option String) (s : State) :
    Except Stop State :=
  (s.settle place).bind fun s =>
    match value? with
    | some value => s.addOption place flag value
    | none => .ok { s with pending := some (.flag flag none) }

/-- The state after a word that starts with a dash. -/
def State.takeDashed (place : Place) (isLong : Bool) (dashed : Dashed) (s : State) :
    Except Stop State :=
  let tips (word : String) := if place.verb.arguments.isEmpty then [] else [literalTip word]
  match dashed with
  | .help => (s.settle place).bind fun _ => .error (.show place.help)
  | .version =>
    (s.settle place).bind fun _ =>
      .error (.show (place.verb.name ++ " " ++ place.program.version ++ "\n"))
  | .flag flag value? => s.takeFlag place flag value?
  | .unneeded name value =>
    .error (.refuse (errorText ("unexpected value '" ++ value ++ "' for '" ++ name ++
      "' found; no more were expected") [place.usageWith (s.used ++ [name])]))
  | .unknown word =>
    .error (unexpected word (tips word) (if isLong then s.usage place else place.usage))

/-- The refusal of a verb that there is not. -/
def unknownVerb (place : Place) (word : String) : Stop :=
  .refuse (errorText ("unrecognized subcommand '" ++ word ++ "'") [place.usage])

/-- The state after a word that is no option: the next argument, if there is one. -/
def State.takeWord (place : Place) (word : String) (s : State) : Except Stop State :=
  (s.settle place).bind fun s =>
    match place.verb.arguments.drop s.arguments.length with
    | argument :: _ => .ok { s with pending := some (.argument argument word) }
    | [] =>
      if s.literal ∧ ((place.child? word).isSome ∨ (word = helpVerb ∧ !place.verb.verbs.isEmpty)) then
        .error (unexpected word
          ["subcommand '" ++ word ++ "' exists; to use it, remove the '--' before it"] place.usage)
      else if !place.verb.verbs.isEmpty then .error (unknownVerb place word)
      else .error (unexpected word [] place.usage)

/-! ## Ends -/

/-- What a place says when no word is left for it, given what was said below it. -/
def State.finish (place : Place) (below : Option Matches) (s : State) : Except Stop Matches :=
  (s.settle place).bind fun s =>
    let options := s.options.map fun o => (o.1.long, o.2)
    match below with
    | some m => .ok { m with verbs := place.verb.name :: m.verbs, options := m.options ++ options }
    | none =>
      let missing := place.verb.arguments.drop s.arguments.length
      if place.verb.needsVerb then
        if s.options.isEmpty ∧ s.arguments.isEmpty then .error (.refuse place.help)
        else
          .error (.refuse (errorText ("'" ++ place.words ++
            "' requires a subcommand but one was not provided\n  [subcommands: " ++
            ", ".intercalate (place.verb.verbs.map (·.name) ++ [helpVerb]) ++ "]") [place.usage]))
      else if !missing.isEmpty then
        .error (.refuse (errorText ("the following required arguments were not provided:" ++
          String.join (missing.map fun a => "\n  " ++ a.text))
          [place.usageWith s.used]))
      else .ok ⟨[place.verb.name], options, s.arguments⟩

/-- The help of the verb that explains others. -/
def helpOfHelp (place : Place) : String :=
  helpVerbAbout ++ "\n\nUsage: " ++ place.words ++ " " ++ helpVerb ++ " [COMMAND]...\n\n" ++
    String.join (helpSection "Arguments" [("[COMMAND]...", "Print help for the subcommand(s)")])

/-- The help of the verb that words lead to. -/
def helpOf (place : Place) : List String → Stop
  | [] => .show place.help
  | word :: rest =>
    match place.child? word with
    | some child => helpOf child rest
    | none =>
      if word = helpVerb ∧ !place.verb.verbs.isEmpty then .show (helpOfHelp place)
      else unknownVerb place word

/-- What words say at a place. -/
def read (place : Place) (s : State) : List String → Except Stop Matches
  | [] => s.finish place none
  | word :: rest =>
    let awaitsValue := match s.pending with
      | some (.flag _ none) => true
      | _ => false
    if s.literal then (s.takeWord place word).bind fun s => read place s rest
    else
      let child? := if awaitsValue then none else place.child? word
      match child? with
      | some child =>
        match read child .start rest with
        | .error stop => .error stop
        | .ok below => s.finish place (some below)
      | none =>
        if !awaitsValue ∧ word = helpVerb ∧ !place.verb.verbs.isEmpty then .error (helpOf place rest)
        else
          match word.toList with
          | ['-', '-'] => read place { s with literal := true } rest
          | '-' :: '-' :: long =>
            (s.takeDashed place true (readLong place long)).bind fun s => read place s rest
          | '-' :: letter :: more =>
            (s.takeDashed place false (readShort place letter more)).bind fun s => read place s rest
          | _ =>
            match s.pending with
            | some (.flag flag none) =>
              read place { s with pending := some (.flag flag (some word)) } rest
            | _ => (s.takeWord place word).bind fun s => read place s rest

/-- What the words after the program's name say. -/
def parse (program : Program) (words : List String) : Except Stop Matches :=
  read ⟨program, [], program.root⟩ .start words

end BuildBrowser.CommandLine
