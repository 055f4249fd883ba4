import XPathLocator.Locator.Basic
import XPathLocator.Locator.Rule

/-!
# `XPathLocator.Locator.Translator`: locators as XPath

The strategies that need no compiler follow their rule; a `css` value goes to a
compiler of selectors, which is the only part that can refuse a locator; an
`xpath` value is the answer itself.
-/

set_option autoImplicit false

namespace XPathLocator.Locator

/-- A compiler of CSS selectors. -/
abbrev CssCompiler := String → Except Css.Error String

/-- A translator of locators: what compiles `css` values, and what is done with
objects of several entries. -/
structure Translator where
  css : CssCompiler
  multiKey : MultiKeyPolicy

/-- The XPath of a locator. -/
def Translator.toXPath (t : Translator) (l : Locator) : Except Error String :=
  let value := l.effectiveValue
  match l.strategy with
  | .className => .ok (Rule.className value)
  | .css => (t.css value).mapError .invalidCss
  | .id => .ok (Rule.id value)
  | .name => .ok (Rule.name value)
  | .idOrName => .ok (Rule.idOrName value)
  | .tagName => .ok (Rule.tagName value)
  | .linkText => .ok (Rule.linkText value)
  | .label => .ok (Rule.label value)
  | .partialLinkText => .ok (Rule.partialLinkText value)
  | .xpath => .ok value

/-- The XPath of a locator in its JSON form. -/
def Translator.jsonToXPath (t : Translator) (json : Json) : Except Error String := do
  t.toXPath (← ofJson t.multiKey json)

end XPathLocator.Locator
