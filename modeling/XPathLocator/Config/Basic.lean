import XPathLocator.Css.Compiler
import XPathLocator.Engine
import XPathLocator.OutputFormat

/-!
# `XPathLocator.Config.Basic`: the settings of the program

A `Config` decides how locators are read (`Config.translator`,
`Config.registry`), how results are written and how much is logged. Every
setting has a default, so a configuration can be given in part or not at all.
-/

set_option autoImplicit false

namespace XPathLocator

/-- The settings of the program. -/
structure Config where
  /-- The name of the log level, as it was given. -/
  logLevel : String := "info"
  output : OutputFormat := .human
  /-- What is done with locator objects of several entries. -/
  multiKey : Locator.MultiKeyPolicy := .reject
  /-- The compiler of CSS selectors, for HTML unless it is told otherwise. -/
  css : Css.Compiler := ⟨true⟩
deriving DecidableEq, Repr

namespace Config

/-- The translator of locators under these settings. -/
def translator (c : Config) : Locator.Translator :=
  ⟨c.css.compile, c.multiKey⟩

/-- The engines under these settings. -/
def registry (c : Config) : Registry :=
  .withDefaults c.css.compile c.multiKey

/-- The settings as data, under the names that a configuration file gives them. -/
def toJson (c : Config) : Json :=
  .object [("log_level", .string c.logLevel), ("output", .string c.output.text),
    ("multi_key", .string c.multiKey.text), ("css", .object [("html", .bool c.css.html)])]

end Config

end XPathLocator
