import XPathLocator.Css.Error

/-!
# `XPathLocator.Locator.Error`: why a locator has no XPath

A locator can have the wrong shape, name a strategy that does not exist, hold a
selector that the CSS compiler refuses, or be meant for an engine that is not
registered. Shapes are causes of their own, in `Malformed`.
-/

set_option autoImplicit false

namespace XPathLocator.Locator

/-- What is wrong with the shape of a locator. -/
inductive Malformed
  /-- Not an object, but a value of the kind named. -/
  | notObject (kind : String)
  /-- An object without entries. -/
  | noEntry
  /-- An object with more entries than the policy admits. -/
  | manyEntries (count : Nat)
  /-- The value under the strategy is not a string, but of the kind named. -/
  | valueNotString (strategy kind : String)
  /-- The engine takes a string, and the locator is none. -/
  | notString (engine : String)
deriving DecidableEq, Repr

/-- The wording of what is wrong with a shape. -/
def Malformed.message : Malformed → String
  | .notObject kind => "expected a single-entry mapping, got " ++ kind
  | .noEntry => "locator mapping is empty"
  | .manyEntries count => "expected exactly one strategy, got " ++ toString count
  | .valueNotString strategy kind =>
    "value for \"" ++ strategy ++ "\" must be a string, got " ++ kind
  | .notString engine => "the \"" ++ engine ++ "\" engine expects a string locator"

/-- Why a locator could not be translated. -/
inductive Error
  | malformed (reason : Malformed)
  | unknownStrategy (name : String)
  | invalidCss (reason : Css.Error)
  | unknownEngine (name : String)
deriving DecidableEq, Repr

namespace Error

/-- The kind of a refusal. -/
def code : Error → String
  | .malformed _ => "incorrect_selector"
  | .unknownStrategy _ => "unknown_selector"
  | .invalidCss _ => "invalid_css"
  | .unknownEngine _ => "unknown_engine"

/-- The wording of a refusal. -/
def message : Error → String
  | .malformed reason => "Incorrect Selenium selector format: " ++ reason.message
  | .unknownStrategy name => "Selector type \"" ++ name ++ "\" not yet implemented"
  | .invalidCss reason => "Invalid CSS selector: " ++ reason.message
  | .unknownEngine name => "Selector engine \"" ++ name ++ "\" is not registered"

/-- The strategy that does not exist, where that is the refusal. -/
def strategy? : Error → Option String
  | .unknownStrategy name => some name
  | _ => none

end Error

end XPathLocator.Locator
