import XPathLocator.Json.Reader
import XPathLocator.Report
import XPathLocator.XPath.Literal

/-!
# `XPathLocator.Command`: what the program does

Each command makes a record of `XPathLocator.Report`, or fails with a
`Command.Error`. Locators come as a strategy and a value or as the text of a
JSON value. The text counts where both are there, and it is read before
anything is said about what it holds.

A command that takes such a text takes the reader of JSON texts as its last argument. The
commands ask nothing of it; the reader of the program is `Json.read?`.
-/

set_option autoImplicit false

namespace XPathLocator.Command

open Report (Build CompiledSelector EngineAnswer EscapedText StrategySample SystemInfo
  TranslatedLocator)

/-- Why a command failed. -/
inductive Error
  /-- The locator could not be translated. -/
  | locator (reason : Locator.Error)
  /-- The CSS selector could not be compiled. -/
  | css (selector : String) (reason : Css.Error)
  /-- The text under `--locator` is no JSON value. -/
  | optionNotJson
  /-- The locator for an engine is no JSON value. -/
  | locatorNotJson
  /-- A strategy is there, and no value for it. -/
  | noValue
  /-- There is no locator. -/
  | noLocator
deriving DecidableEq, Repr

/-- The wording of a failure: a cause follows what it is the cause of, behind a
colon. A selector that is refused names its cause itself, and so twice. -/
def Error.message : Error → String
  | .locator (.invalidCss reason) =>
    (Locator.Error.invalidCss reason).message ++ ": " ++ reason.message
  | .locator reason => reason.message
  | .css selector reason => "Invalid CSS selector '" ++ selector ++ "': " ++ reason.message
  | .optionNotJson => "--locator is not valid JSON"
  | .locatorNotJson => "Locator is not valid JSON"
  | .noValue => "Missing locator value"
  | .noLocator => "Provide STRATEGY VALUE or --locator '<json>'"

/-- The locator that was asked for, by a strategy and a value or by a JSON text. -/
def readLocator (policy : Locator.MultiKeyPolicy) (strategy value json : Option String)
    (read? : String → Option Json := Json.read?) : Except Error Locator :=
  match json, strategy, value with
  | some text, _, _ => match read? text with
    | some json => (Locator.ofJson policy json).mapError .locator
    | none => .error .optionNotJson
  | none, some strategy, some value => (Locator.ofPair strategy value).mapError .locator
  | none, some _, none => .error .noValue
  | none, none, _ => .error .noLocator

/-- Translates a locator. -/
def translate (translator : Locator.Translator) (strategy value json : Option String)
    (read? : String → Option Json := Json.read?) : Except Error TranslatedLocator := do
  let locator ← readLocator translator.multiKey strategy value json read?
  let xpath ← (translator.toXPath locator).mapError .locator
  return ⟨locator.strategy, locator.value, xpath⟩

/-- Writes a text as an XPath literal. -/
def escape (raw : String) : EscapedText :=
  ⟨raw, XPath.Literal.ofText raw⟩

/-- Compiles a CSS selector. -/
def css (config : Config) (selector : String) : Except Error CompiledSelector := do
  let xpath ← (config.css.compile selector).mapError (.css selector)
  return ⟨selector, xpath⟩

/-- Translates a sample value by every strategy. -/
def strategies (translator : Locator.Translator) : Except Error (List StrategySample) :=
  Locator.Strategy.all.mapM fun strategy => do
    let shape ← (translator.toXPath ⟨strategy, "VALUE"⟩).mapError .locator
    return ⟨strategy, shape⟩

/-- The locator for an engine: a JSON value where it is asked for or the engine
reads locators, and a string otherwise. -/
def engineLocator (name text : String) (json : Bool)
    (read? : String → Option Json := Json.read?) : Except Error Json :=
  if json || name = Registry.locatorEngine then
    match read? text with
    | some value => .ok value
    | none => .error .locatorNotJson
  else .ok (.string text)

/-- Translates a locator by the engine of a name. -/
def engine (registry : Registry) (name text : String) (json : Bool)
    (read? : String → Option Json := Json.read?) : Except Error EngineAnswer := do
  let locator ← engineLocator name text json read?
  let xpath ← (registry.toXPath name locator).mapError .locator
  return ⟨name, locator, xpath⟩

/-- Describes the program. -/
def info (build : Build) (registry : Registry) : SystemInfo :=
  ⟨build, registry.names⟩

end XPathLocator.Command
