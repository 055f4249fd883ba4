import XPathLocator.Config.Loaded
import XPathLocator.Json.Printer
import XPathLocator.Yaml.Printer

/-!
# `XPathLocator.Report`: what a command answers

Each command has a record of what it found. A record has two forms: its `data`,
a JSON value with the fields in a fixed order, and its `human` text, which for
whatever yields an XPath or a literal is that text alone.

`Report.render` writes a report in an output format. How data are written in
JSON and in YAML is left to two `Writers`. White space at the end of the text is
cut, in every format.
-/

set_option autoImplicit false

namespace XPathLocator

namespace Report

/-- A locator and its XPath. The value is the one that was given, not trimmed. -/
structure TranslatedLocator where
  strategy : Locator.Strategy
  value : String
  xpath : String
deriving DecidableEq, Repr

/-- A text and the XPath literal that denotes it. -/
structure EscapedText where
  raw : String
  literal : String
deriving DecidableEq, Repr

/-- A CSS selector and its XPath. -/
structure CompiledSelector where
  selector : String
  xpath : String
deriving DecidableEq, Repr

/-- A strategy and the XPath that it makes of a sample value. -/
structure StrategySample where
  strategy : Locator.Strategy
  shape : String
deriving DecidableEq, Repr

/-- A locator for an engine and its XPath. -/
structure EngineAnswer where
  engine : String
  locator : Json
  xpath : String

/-- When and from what the program was built. -/
structure Build where
  date : String
  commit : String
deriving DecidableEq, Repr

/-- The program itself: its build, and the names of its engines. -/
structure SystemInfo where
  build : Build
  engines : List String
deriving DecidableEq, Repr

end Report

/-- The answer of a command. -/
inductive Report
  | locator (t : Report.TranslatedLocator)
  | escaped (e : Report.EscapedText)
  | selector (c : Report.CompiledSelector)
  | strategies (samples : List Report.StrategySample)
  | engine (t : Report.EngineAnswer)
  | config (loaded : Config.Loaded)
  | configPath (path : String)
  | info (system : Report.SystemInfo)

namespace Report

/-! ### Data -/

/-- A translated locator as data. -/
def TranslatedLocator.data (t : TranslatedLocator) : Json :=
  .object [("strategy", .string t.strategy.text), ("value", .string t.value),
    ("xpath", .string t.xpath)]

/-- An escaped text as data. -/
def EscapedText.data (e : EscapedText) : Json :=
  .object [("raw", .string e.raw), ("literal", .string e.literal)]

/-- A compiled selector as data. -/
def CompiledSelector.data (c : CompiledSelector) : Json :=
  .object [("selector", .string c.selector), ("xpath", .string c.xpath)]

/-- A strategy's sample as data. -/
def StrategySample.data (s : StrategySample) : Json :=
  .object [("name", .string s.strategy.text), ("description", .string s.strategy.description),
    ("passthrough", .bool s.strategy.isVerbatim), ("shape", .string s.shape)]

/-- The answer of an engine as data. -/
def EngineAnswer.data (t : EngineAnswer) : Json :=
  .object [("engine", .string t.engine), ("locator", t.locator), ("xpath", .string t.xpath)]

/-- Loaded settings as data. -/
def loadedData (loaded : Config.Loaded) : Json :=
  .object [("path", .string loaded.path), ("from_file", .bool loaded.fromFile),
    ("config", loaded.config.toJson)]

/-- The name of the program. -/
def programName : String := "qa-selector"

/-- The version of the program. -/
def programVersion : String := "0.1.0"

/-- The names of all strategies. -/
def strategyNames : List String :=
  Locator.Strategy.all.map (·.text)

/-- The program as data. -/
def SystemInfo.data (i : SystemInfo) : Json :=
  .object [("name", .string programName), ("version", .string programVersion),
    ("build_date", .string i.build.date), ("git_commit", .string i.build.commit),
    ("strategies", .array (strategyNames.map .string)),
    ("engines", .array (i.engines.map .string))]

/-- A report as data. -/
def data : Report → Json
  | .locator t => t.data
  | .escaped e => e.data
  | .selector c => c.data
  | .strategies samples => .array (samples.map (·.data))
  | .engine t => t.data
  | .config loaded => loadedData loaded
  | .configPath path => .string path
  | .info system => system.data

/-! ### Texts for people -/

/-- A text filled up with spaces to a width. -/
def padTo (width : Nat) (s : String) : String :=
  s.pushn ' ' (width - s.length)

/-- Two lines for a strategy: its name and what it looks for, and below that the
shape of its XPath. The second column starts two spaces behind the width. -/
def StrategySample.human (width : Nat) (s : StrategySample) : String :=
  padTo width s.strategy.text ++ "  " ++ s.strategy.description ++ "\n"
    ++ padTo width "" ++ "  " ++ s.shape

/-- A list of strategies, the second column behind the longest name. -/
def strategiesHuman (samples : List StrategySample) : String :=
  let width := (samples.map (·.strategy.text.length)).foldl max 0
  "\n".intercalate (samples.map (·.human width))

/-- Loaded settings as a configuration file, below a comment that says where
they are from. -/
def loadedHuman (yaml : Json → String) (loaded : Config.Loaded) : String :=
  let origin := if loaded.fromFile then "" else " (not found, using defaults)"
  "# " ++ loaded.path ++ origin ++ "\n" ++ yaml loaded.config.toJson

/-- The program in a few lines. -/
def SystemInfo.human (i : SystemInfo) : String :=
  "\n".intercalate
    ["QA Selector System Information",
     "==============================",
     "Version: " ++ programVersion,
     "Build Date: " ++ i.build.date,
     "Git Commit: " ++ i.build.commit,
     "",
     "Strategies: " ++ ", ".intercalate strategyNames,
     "Engines: " ++ ", ".intercalate i.engines]

/-- A report as a text for people, who read settings in YAML. -/
def human (yaml : Json → String) : Report → String
  | .locator t => t.xpath
  | .escaped e => e.literal
  | .selector c => c.xpath
  | .strategies samples => strategiesHuman samples
  | .engine t => t.xpath
  | .config loaded => loadedHuman yaml loaded
  | .configPath path => path
  | .info system => system.human

/-! ### Formats -/

/-- The writers of data, one for each format that is for data. -/
structure Writers where
  json : Json → String
  yaml : Json → String

/-- JSON over several lines, and YAML in block style. -/
def Writers.standard : Writers := ⟨Json.pretty, Yaml.write⟩

/-- The text of a report, before white space at its end is cut. -/
def fullText (report : Report) (writers : Writers) : OutputFormat → String
  | .human => report.human writers.yaml
  | .json => writers.json report.data
  | .yaml => writers.yaml report.data

/-- The text of a report in an output format. -/
def render (report : Report) (format : OutputFormat) (writers : Writers := .standard) : String :=
  Text.trimEnd (report.fullText writers format)

end Report

end XPathLocator
