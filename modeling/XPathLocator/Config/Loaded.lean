import XPathLocator.Config.Document
import XPathLocator.Config.Overrides

/-!
# `XPathLocator.Config.Loaded`: settings from a file and the environment

Settings come from a file, at the path that was asked for or at the default
one, and then from the environment. A file that is not there is no error: the
defaults stand for it. One that is there has to be readable, UTF-8 and a
configuration document.

Nothing here touches a disk. What stands at a path is a `File`, and `load`
is a function of the files and the environment.
-/

set_option autoImplicit false

namespace XPathLocator

/-- What stands at a path. -/
inductive File
  | missing
  | unreadable
  | content (bytes : ByteArray)

/-- A path below another one. -/
def joinPath (base name : String) : String :=
  if base.endsWith "/" then base ++ name else base ++ "/" ++ name

namespace Config

/-- The directory for the configuration of programs: the one that the
environment names, if its path is absolute, or else `.config` in the home
directory. -/
def directory? (env : Environment) : Option String :=
  match env "XDG_CONFIG_HOME" with
  | some path => if path.startsWith "/" then some path else inHome
  | none => inHome
where
  /-- The directory in the home directory. -/
  inHome : Option String := do
    let home ← env "HOME"
    if home.isEmpty then none else some (joinPath home ".config")

/-- The path of the configuration file where none is asked for. -/
def defaultPath? (env : Environment) : Option String :=
  (directory? env).map fun base => joinPath (joinPath base "qa-selector") "config.yaml"

/-- Why there are no settings. -/
inductive LoadError
  | noDirectory
  | unreadable (path : String)
  | unparsable (path : String)
deriving DecidableEq, Repr

/-- The wording of why there are no settings. -/
def LoadError.message : LoadError → String
  | .noDirectory => "Failed to get config directory"
  | .unreadable path => "Failed to read config file " ++ path
  | .unparsable path => "Failed to parse config file " ++ path

/-- Settings, and where they were looked for. -/
structure Loaded where
  config : Config
  path : String
  /-- Whether there was a file at the path. -/
  fromFile : Bool
  /-- The overrides that could not be read. -/
  ignored : List Overrides.Ignored

/-- The path of the configuration file: the one asked for, or the default. -/
def path (env : Environment) (asked : Option String) : Except LoadError String :=
  match asked with
  | some path => .ok path
  | none => match defaultPath? env with
    | some path => .ok path
    | none => .error .noDirectory

/-- The settings in a file, nothing if there is none. -/
def ofFile (lib : Yaml.Library) (path : String) : File → Except LoadError (Option Config)
  | .missing => .ok none
  | .unreadable => .error (.unreadable path)
  | .content bytes => match String.fromUTF8? bytes with
    | none => .error (.unreadable path)
    | some text => match ofText? lib text with
      | none => .error (.unparsable path)
      | some config => .ok (some config)

/-- The settings from the file at a path and from the environment. -/
def load (env : Environment) (files : String → File) (asked : Option String)
    (lib : Yaml.Library := Yaml.library) : Except LoadError Loaded := do
  let path ← path env asked
  let inFile ← ofFile lib path (files path)
  -- From here on nothing fails: what the environment gets wrong is only reported.
  let overrides := Overrides.ofEnvironment env
  return ⟨overrides.apply (inFile.getD {}), path, inFile.isSome, overrides.ignored⟩

end Config

end XPathLocator
