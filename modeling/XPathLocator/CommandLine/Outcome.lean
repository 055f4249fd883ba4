import XPathLocator.Command
import XPathLocator.CommandLine.Request
import XPathLocator.Log.Filter

/-!
# `XPathLocator.CommandLine.Outcome`: a run of the program

A run is a function of its arguments, the environment and the files. Its
`Outcome` is an exit status and what is written.

The settings are loaded first, then the log level is judged, then the command
is carried out; the first of these that fails is what the program reports.
Overrides that could not be read are logged as warnings before the command, so
they show even where it fails. The environment can set a filter for the log; it
wins over the level, but does not excuse a level that is none.
-/

set_option autoImplicit false

namespace XPathLocator.CommandLine

/-- What a run writes, and its exit status. -/
structure Outcome where
  status : UInt8
  output : String
  errors : String
  /-- The warnings that were logged. -/
  warnings : List String
deriving DecidableEq, Repr

namespace Outcome

/-- A run that ends well. -/
def success (output : String) (warnings : List String) : Outcome :=
  ⟨0, output ++ "\n", "", warnings⟩

/-- A run that fails. -/
def failure (message : String) (warnings : List String) : Outcome :=
  ⟨1, "", "Error: " ++ message, warnings⟩

/-- How to call the program. -/
def usageText : String :=
  "Usage: " ++ Report.programName ++ " [OPTIONS] <COMMAND>\n\nCommands: "
    ++ ", ".intercalate (interface.commands.map (·.1))

/-- A run that ends with its arguments. -/
def ofStop : Stop → Outcome
  | .usage => ⟨2, "", usageText, []⟩
  | .version path =>
    success ("-".intercalate (Report.programName :: path) ++ " " ++ Report.programVersion) []
  | .help _ => success usageText []

end Outcome

/-- What the messages of the program have as their target in the log. -/
def logTarget : String := "qa_selector"

/-- The variable with the filter for the log. -/
def logVariable : String := "RUST_LOG"

/-- The level of a run: that of the options, or else of the settings, unless the
run is for debugging. -/
def logLevel? (options : Options) (config : Config) : Option Log.Level :=
  if options.debug then some .debug
  else Log.Level.ofText? (options.logLevel.getD config.logLevel)

/-- The filter of a run: that of the environment, if it can be read, or else the
level. -/
def logFilter (env : Environment) (level : Log.Level) : Log.Filter :=
  ((env logVariable).bind Log.Filter.ofText?).getD (.ofLevel level)

/-- The report that a request asks for. -/
def Request.report (request : Request) (build : Report.Build) (env : Environment)
    (options : Options) (loaded : Config.Loaded) : Except String Report :=
  let config := loaded.config
  match request with
  | .translate strategy value json =>
    (Command.translate config.translator strategy value json).map .locator
      |>.mapError (·.message)
  | .escape raw => .ok (.escaped (Command.escape raw))
  | .css selector => (Command.css config selector).map .selector |>.mapError (·.message)
  | .strategies => (Command.strategies config.translator).map .strategies |>.mapError (·.message)
  | .engine name locator json =>
    (Command.engine config.registry name locator json).map .engine |>.mapError (·.message)
  | .showConfig => .ok (.config loaded)
  | .configPath => (Config.path env options.config).map .configPath |>.mapError (·.message)
  | .info => .ok (.info (Command.info build config.registry))

/-- Carries out a call. -/
def Call.run (call : Call) (build : Report.Build) (env : Environment) (files : String → File) :
    Outcome :=
  match Config.load env files call.options.config with
  | .error reason => .failure reason.message []
  | .ok loaded => match logLevel? call.options loaded.config with
    | none => .failure "Invalid log level" []
    | some level =>
      -- The warnings are logged even where the command fails.
      let warnings := if (logFilter env level).shows logTarget .warn then
        loaded.ignored.map (·.message) else []
      match call.request.report build env call.options loaded with
      | .error message => .failure message warnings
      | .ok report =>
        .success (report.render (call.options.output.getD loaded.config.output)) warnings

/-- The path of the file that a run reads, if its arguments lead to one. -/
def filePath? (env : Environment) (arguments : List String) : Option String := do
  let call ← (read arguments).toOption
  (Config.path env call.options.config).toOption

/-- Runs the program. -/
def run (build : Report.Build) (env : Environment) (files : String → File)
    (arguments : List String) : Outcome :=
  match read arguments with
  | .error stop => .ofStop stop
  | .ok call => call.run build env files

end XPathLocator.CommandLine
