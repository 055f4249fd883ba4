import XPathLocator.Locator.Translator
import XPathLocator.Text.Inspect

/-!
# `XPathLocator.Engine`: named ways to read a locator

An engine turns a JSON value into an XPath. A `Registry` holds engines by name,
at most one to a name: registering a name again replaces its engine and touches
no other. Names are kept in ascending order of their characters, which for
UTF-8 texts is also the order of their bytes.
-/

set_option autoImplicit false

namespace XPathLocator

open Locator (CssCompiler Translator)

/-- A way to read a JSON value as an XPath. -/
abbrev Engine := Json → Except Locator.Error String

namespace Engine

/-- Takes a string, or refuses the locator in the name of an engine. -/
def expectString (engine : String) (json : Json) : Except Locator.Error String :=
  match json.string? with
  | some s => .ok s
  | none => .error (.malformed (.notString engine))

/-- Reads a string as a CSS selector. -/
def css (compile : CssCompiler) : Engine := fun json => do
  (compile (← expectString "css" json)).mapError .invalidCss

/-- Takes a string as the XPath itself. -/
def xpath : Engine :=
  expectString "xpath"

/-- Reads an object as a locator. -/
def ofTranslator (translator : Translator) : Engine :=
  translator.jsonToXPath

end Engine

/-- Engines by name, in ascending order of the names. -/
structure Registry where
  entries : List (String × Engine)

namespace Registry

/-- No engines. -/
def empty : Registry := ⟨[]⟩

/-- Sets the engine of a name in a list that is ordered by name. -/
def insert (name : String) (engine : Engine) : List (String × Engine) → List (String × Engine)
  | [] => [(name, engine)]
  | (n, e) :: rest =>
    if name < n then (name, engine) :: (n, e) :: rest
    else if name = n then (name, engine) :: rest
    else (n, e) :: insert name engine rest

/-- Sets the engine of a name. -/
def register (r : Registry) (name : String) (engine : Engine) : Registry :=
  ⟨insert name engine r.entries⟩

/-- The name of the engine that reads locators. -/
def locatorEngine : String := "se"

/-- The engines for locators, selectors and XPath, sharing one compiler. -/
def withDefaults (css : CssCompiler) (multiKey : Locator.MultiKeyPolicy) : Registry :=
  empty
    |>.register locatorEngine (.ofTranslator ⟨css, multiKey⟩)
    |>.register "css" (.css css)
    |>.register "xpath" .xpath

/-- The registered names, in ascending order. -/
def names (r : Registry) : List String :=
  r.entries.map (·.1)

/-- Whether a name is registered. -/
def contains (r : Registry) (name : String) : Bool :=
  r.names.contains name

/-- The engine of a name. -/
def engine (r : Registry) (name : String) : Except Locator.Error Engine :=
  match r.entries.lookup name with
  | some e => .ok e
  | none => .error (.unknownEngine name)

/-- The XPath of a JSON value, read by the engine of a name. -/
def toXPath (r : Registry) (name : String) (json : Json) : Except Locator.Error String := do
  (← r.engine name) json

/-- The registry in one line, for a log: the names alone. -/
def inspect (r : Registry) : String :=
  "SelectorsHandler \x7b engines: [" ++ ", ".intercalate (r.names.map Text.inspect) ++ "] \x7d"

end Registry

end XPathLocator
