import XPathLocator.CommandLine.Outcome

/-!
# `XPathLocator.Main`: the program

The program reads its environment and one file, runs, and writes what the run
says.
-/

set_option autoImplicit false

namespace XPathLocator

/-- The variables that the program looks at. -/
def knownVariables : List String :=
  [Config.Overrides.multiKeyVariable, Config.Overrides.cssHtmlVariable, CommandLine.logVariable,
    "HOME", "XDG_CONFIG_HOME"]

/-- The variables that the program looks at, as they are set. -/
def readEnvironment : IO Environment := do
  let values ← knownVariables.mapM fun name => return (name, ← IO.getEnv name)
  return fun name => (values.lookup name).join

/-- What stands at a path. -/
def readFile (path : String) : IO File := do
  match ← (IO.FS.readBinFile path).toBaseIO with
  | .ok bytes => return .content bytes
  | .error (.noFileOrDirectory ..) => return .missing
  | .error _ => return .unreadable

/-- The files of a run, of which it reads the one at its path. -/
def readFiles (path : Option String) : IO (String → File) := do
  match path with
  | none => return fun _ => .missing
  | some path =>
    let file ← readFile path
    return fun other => if other = path then file else .missing

/-- The build of a program that was not told of one. -/
def unknownBuild : Report.Build := ⟨"unknown", "unknown"⟩

end XPathLocator

open XPathLocator in
/-- Runs the program and writes its outcome. -/
def main (arguments : List String) : IO UInt32 := do
  let env ← readEnvironment
  let files ← readFiles (CommandLine.filePath? env arguments)
  let outcome := CommandLine.run unknownBuild env files arguments
  for warning in outcome.warnings do
    IO.eprintln ("WARN " ++ CommandLine.logTarget ++ ": " ++ warning)
  IO.print outcome.output
  if !outcome.errors.isEmpty then IO.eprintln outcome.errors
  return outcome.status.toUInt32
