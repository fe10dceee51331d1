/-!
# Command lines — what can be said, and how it is explained

A `Verb` is a command of the program, or the program itself: its options, its arguments in order, and
the verbs that can follow it. From that description come the usage line and the help text.
-/

namespace BuildBrowser.CommandLine

/-- What the value of an option or an argument may be: any text, the name of a file, which is not
empty, or one of a list of words. -/
inductive Values where
  | any
  | file
  | oneOf (words : List String)
  deriving DecidableEq, Repr

/-- An option with a value. -/
structure Flag where
  short : Option Char
  long : String
  valueName : String
  help : String
  values : Values
  default : Option String
  deriving DecidableEq, Repr

/-- An argument. All arguments must be given. -/
structure Argument where
  name : String
  help : String
  values : Values
  deriving DecidableEq, Repr

/-- A command: its name and purpose, its own options, its arguments, the verbs that can follow it,
and whether one must. -/
structure Verb where
  name : String
  about : String
  flags : List Flag
  arguments : List Argument
  verbs : List Verb
  needsVerb : Bool

/-- An option as messages name it. -/
def Flag.text (flag : Flag) : String :=
  "--" ++ flag.long ++ " <" ++ flag.valueName ++ ">"

/-- An argument as messages name it. -/
def Argument.text (argument : Argument) : String :=
  "<" ++ argument.name ++ ">"

/-- The name of the verb that explains others. -/
def helpVerb : String := "help"

/-- The purpose of the verb that explains others. -/
def helpVerbAbout : String :=
  "Print this message or the help of the given subcommand(s)"

/-- The words of a list of possible values. -/
def possibleValues (words : List String) : String :=
  "[possible values: " ++ ", ".intercalate words ++ "]"

/-! ## Help -/

/-- A row of a help text: what is explained, and the explanation. -/
abbrev HelpRow := String × String

/-- Rows under a title, the explanations aligned. -/
def helpSection (title : String) (rows : List HelpRow) : List String :=
  if rows.isEmpty then []
  else
    let width := rows.foldl (fun w row => max w row.1.length) 0
    let line (row : HelpRow) :=
      "  " ++ row.1 ++ String.ofList (List.replicate (width - row.1.length + 2) ' ') ++ row.2 ++ "\n"
    [title ++ ":\n" ++ String.join (rows.map line)]

/-- The row of an option. -/
def Flag.row (flag : Flag) : HelpRow :=
  let short := match flag.short with
    | some c => String.ofList ['-', c, ',', ' ']
    | none => "    "
  let default := match flag.default with
    | some value => " [default: " ++ value ++ "]"
    | none => ""
  let values := match flag.values with
    | .oneOf words => " " ++ possibleValues words
    | _ => ""
  (short ++ flag.text, flag.help ++ default ++ values)

/-- A program: its name and version, the options that all its commands share, and its root verb. -/
structure Program where
  version : String
  shared : List Flag
  root : Verb

namespace Verb

/-- The rows of the verbs that can follow. -/
def verbRows (verb : Verb) : List HelpRow :=
  if verb.verbs.isEmpty then []
  else verb.verbs.map (fun v => (v.name, v.about)) ++ [(helpVerb, helpVerbAbout)]

end Verb

/-- A place in the grammar: the verbs on the way from the root, the last one first. -/
structure Place where
  program : Program
  above : List String
  verb : Verb

namespace Place

/-- Whether the place is the root. -/
def isRoot (place : Place) : Bool :=
  place.above.isEmpty

/-- The words that lead to the place. -/
def words (place : Place) : String :=
  " ".intercalate (place.above.reverse ++ [place.verb.name])

/-- The options that can be given at the place: its own first. -/
def flags (place : Place) : List Flag :=
  place.verb.flags ++ place.program.shared

/-- The usage line without options in particular. -/
def usage (place : Place) : String :=
  "Usage: " ++ place.words ++ " [OPTIONS]" ++
    String.join (place.verb.arguments.map fun a => " " ++ a.text) ++
    if place.verb.verbs.isEmpty then ""
    else if place.verb.needsVerb then " <COMMAND>" else " [COMMAND]"

/-- The usage line with particular options. -/
def usageWith (place : Place) (options : List String) : String :=
  "Usage: " ++ place.words ++ String.join (options.map (" " ++ ·)) ++
    String.join (place.verb.arguments.map fun a => " " ++ a.text) ++
    if place.verb.needsVerb then " <COMMAND>" else ""

/-- The help text of the place. -/
def help (place : Place) : String :=
  let rows := place.flags.map Flag.row ++ [("-h, --help", "Print help")] ++
    if place.isRoot then [("-V, --version", "Print version")] else []
  let sections :=
    helpSection "Commands" place.verb.verbRows ++
      helpSection "Arguments" (place.verb.arguments.map fun a => (a.text, a.help)) ++
      helpSection "Options" rows
  place.verb.about ++ "\n\n" ++ place.usage ++ "\n\n" ++ "\n".intercalate sections

/-- The verb of a name that can follow the place, and its place. -/
def child? (place : Place) (name : String) : Option Place :=
  (place.verb.verbs.find? fun v => v.name = name).map fun verb =>
    ⟨place.program, place.verb.name :: place.above, verb⟩

end Place

end BuildBrowser.CommandLine
