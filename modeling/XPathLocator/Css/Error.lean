/-!
# `XPathLocator.Css.Error`: why a selector has no XPath

Three kinds of refusal, told apart by `Error.code`: there is no selector, the
text is no selector, or it is one that has no XPath form here. `Error.message`
gives the wording. Positions count UTF-8 bytes from the start of the text.
-/

set_option autoImplicit false

namespace XPathLocator.Css

/-- What a selector could have gone on with where it did not. -/
inductive Expectation
  | selector
  | selectorAfterCombinator
  | selectorInNot
  | commaOrEnd
  | className
  | attributeName
  | attributeOperator
  | equalsSign
  | attributeValue
  | closingBracket
  | pseudoClassName
  | pseudoElementName
  | string
  | closingParenthesis
deriving DecidableEq, Repr

/-- An expectation in words. -/
def Expectation.text : Expectation → String
  | .selector => "selector"
  | .selectorAfterCombinator => "selector after combinator"
  | .selectorInNot => "selector inside :not()"
  | .commaOrEnd => "',' or end of selector"
  | .className => "class name"
  | .attributeName => "attribute name"
  | .attributeOperator => "']' or attribute operator"
  | .equalsSign => "'=' after attribute operator"
  | .attributeValue => "attribute value"
  | .closingBracket => "']'"
  | .pseudoClassName => "pseudo-class name"
  | .pseudoElementName => "pseudo-element name"
  | .string => "string"
  | .closingParenthesis => "')'"

/-- The places among the siblings of one element name. -/
inductive TypePlace
  | first
  | last
  | only
deriving DecidableEq, Repr

/-- The pseudo-class that asks for a place among the siblings of one name. -/
def TypePlace.name : TypePlace → String
  | .first => "first-of-type"
  | .last => "last-of-type"
  | .only => "only-of-type"

/-- Why a selector could not be compiled. -/
inductive Error
  /-- Nothing but white space. -/
  | empty
  /-- A token that no selector has at this point. -/
  | unexpectedToken (found : String) (position : Nat) (expected : Expectation)
  /-- The text ends where a selector cannot end. -/
  | unexpectedEnd (expected : Expectation)
  /-- The opening quote at `position` has no closing one. -/
  | unterminatedString (position : Nat)
  /-- A pseudo-class without an XPath form, as the selector names it. -/
  | unsupportedPseudoClass (name : String)
  /-- A pseudo-element; these are never elements. -/
  | unsupportedPseudoElement (name : String)
  /-- A place among siblings of one name, asked of an element of any name. -/
  | elementNameRequired (place : TypePlace)
deriving DecidableEq, Repr

namespace Error

/-- The kind of a refusal. -/
def code : Error → String
  | .empty => "empty_selector"
  | .unexpectedToken .. | .unexpectedEnd _ | .unterminatedString _ => "syntax_error"
  | .unsupportedPseudoClass _ | .unsupportedPseudoElement _ | .elementNameRequired _ =>
    "unsupported"

/-- Whether the text is a selector, only one without an XPath form. -/
def isUnsupported (e : Error) : Bool :=
  e.code = "unsupported"

/-- The wording of a refusal. -/
def message : Error → String
  | .empty => "Empty CSS selector"
  | .unexpectedToken found position expected =>
    "Unexpected '" ++ found ++ "' at position " ++ toString position
      ++ ", expected " ++ expected.text
  | .unexpectedEnd expected => "Unexpected end of selector, expected " ++ expected.text
  | .unterminatedString position =>
    "Unterminated string starting at position " ++ toString position
  | .unsupportedPseudoClass name => "Pseudo-class ':" ++ name ++ "' is not supported"
  | .unsupportedPseudoElement name => "Pseudo-element '::" ++ name ++ "' is not supported"
  | .elementNameRequired place =>
    "'*:" ++ place.name ++ "' is not implemented, an element name is required"

end Error

end XPathLocator.Css
