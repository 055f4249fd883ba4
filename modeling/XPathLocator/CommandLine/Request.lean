import XPathLocator.CommandLine.Reader
import XPathLocator.OutputFormat

/-!
# `XPathLocator.CommandLine.Request`: the arguments of the program

`interface` lists the commands of the program and what each of them takes;
`read` turns arguments into a `Call`, a command to carry out and the options
that every command has. An option that is given to several commands counts as
the last one of them has it.
-/

set_option autoImplicit false

namespace XPathLocator.CommandLine

/-- A command to carry out. -/
inductive Request
  | translate (strategy value json : Option String)
  | escape (raw : String)
  | css (selector : String)
  | strategies
  | engine (name locator : String) (json : Bool)
  | showConfig
  | configPath
  | info
deriving DecidableEq, Repr

/-- The options that every command has. -/
structure Options where
  /-- The path of the configuration file. -/
  config : Option String
  logLevel : Option String
  debug : Bool
  output : Option OutputFormat
deriving DecidableEq, Repr

/-- A command and its options. -/
structure Call where
  options : Options
  request : Request
deriving DecidableEq, Repr

/-! ### Interface -/

/-- The option for the path of the configuration file, which is not empty. -/
def configFlag : Flag := ⟨"config", some 'c', .value fun path => !path.isEmpty⟩

/-- The option for the log level, which is judged later. -/
def logLevelFlag : Flag := ⟨"log-level", some 'l', .value fun _ => true⟩

/-- The option for logging as if for debugging. -/
def debugFlag : Flag := ⟨"debug", some 'd', .switch⟩

/-- The option for the output format. -/
def outputFlag : Flag :=
  ⟨"output", some 'o', .value fun name => (OutputFormat.ofText? name).isSome⟩

/-- The option for a locator as JSON. -/
def locatorFlag : Flag := ⟨"locator", none, .value fun _ => true⟩

/-- The option for reading the locator of an engine as JSON. -/
def jsonFlag : Flag := ⟨"json", none, .switch⟩

/-- The options that every command has. -/
def commonFlags : List Flag :=
  [configFlag, logLevelFlag, debugFlag, outputFlag, ⟨"version", some 'V', .version⟩,
    ⟨"help", some 'h', .help⟩]

/-- A command with options of its own and operands. -/
def leaf (flags : List Flag) (operands : List Operand) : Interface :=
  .mk (commonFlags ++ flags) operands []

/-- A command with other commands under it. -/
def group (commands : List (String × Interface)) : Interface :=
  .mk commonFlags [] commands

/-- The arguments of the program. Texts in a language of their own may start
with a hyphen; names may not. -/
def interface : Interface :=
  group
    [("translate", leaf [locatorFlag] [⟨false⟩, ⟨true⟩]),
     ("escape", leaf [] [⟨true⟩]),
     ("css", leaf [] [⟨true⟩]),
     ("strategies", leaf [] []),
     ("engine", leaf [jsonFlag] [⟨false⟩, ⟨true⟩]),
     ("config", group [("show", leaf [] []), ("path", leaf [] [])]),
     ("info", leaf [] [])]

/-! ### Calls -/

/-- The value of an option as the last command that has it gives it. -/
def optionValue? (given : List Given) (flag : Flag) : Option String :=
  given.reverse.findSome? (·.values.lookup flag.long)

/-- The options that every command has, from what each of them was given. -/
def Options.ofGiven (given : List Given) : Options :=
  ⟨optionValue? given configFlag, optionValue? given logLevelFlag,
    (optionValue? given debugFlag).isSome,
    (optionValue? given outputFlag).bind OutputFormat.ofText?⟩

/-- The request of a command, from its names and what the last of them was
given. A locator is given either way but not both. -/
def Request.ofGiven? (path : List String) (given : Given) : Option Request :=
  match path, given.operands with
  | ["translate"], operands => match given.values.lookup locatorFlag.long, operands with
    | some json, [] => some (.translate none none (some json))
    | none, [strategy, value] => some (.translate (some strategy) (some value) none)
    | _, _ => none
  | ["escape"], [raw] => some (.escape raw)
  | ["css"], [selector] => some (.css selector)
  | ["strategies"], [] => some .strategies
  | ["engine"], [name, locator] =>
    some (.engine name locator (given.values.lookup jsonFlag.long).isSome)
  | ["config", "show"], [] => some .showConfig
  | ["config", "path"], [] => some .configPath
  | ["info"], [] => some .info
  | _, _ => none

/-- The call that the arguments of the program ask for. -/
def read (arguments : List String) : Except Stop Call := do
  let (path, given) ← interface.read arguments
  match given.getLast?.bind (Request.ofGiven? path) with
  | some request => return ⟨.ofGiven given, request⟩
  | none => throw .usage

end XPathLocator.CommandLine
