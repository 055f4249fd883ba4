import XPathLocator.XPath.Literal

/-!
# `XPathLocator.Locator.Rule`: the XPath of each strategy

One rule for each strategy that needs no compiler. All look at the context node
and everything below it. A value is always a literal, so no value can change
what surrounds it; the one exception is `tagName`, whose value *is* the node
test.
-/

set_option autoImplicit false

namespace XPathLocator.Locator.Rule

open XPath

/-- The axis on which every rule looks. -/
def axis : String := "descendant-or-self::"

/-- Elements with a word in their `class` attribute. Both sides are padded with
spaces, so that a word is only found whole. -/
def className (value : String) : String :=
  axis ++ "*[@class and contains(concat(' ', normalize-space(@class), ' '), "
    ++ Literal.ofText (" " ++ value ++ " ") ++ ")]"

/-- Elements with an `id`. -/
def id (value : String) : String :=
  axis ++ "*[@id = " ++ Literal.ofText value ++ "]"

/-- Elements with a `name`. -/
def name (value : String) : String :=
  axis ++ "*[@name = " ++ Literal.ofText value ++ "]"

/-- Elements with an `id` or a `name`. -/
def idOrName (value : String) : String :=
  axis ++ "*[@id = " ++ Literal.ofText value ++ " or @name = " ++ Literal.ofText value ++ "]"

/-- Elements that pass a node test, which is taken as it stands. -/
def tagName (value : String) : String :=
  axis ++ value

/-- Links with a text. -/
def linkText (value : String) : String :=
  axis ++ "a[./@href][normalize-space(string(.)) = " ++ Literal.ofText value ++ "]"

/-- Links with a text in their text. -/
def partialLinkText (value : String) : String :=
  axis ++ "a[./@href][contains(normalize-space(string(.)), " ++ Literal.ofText value ++ ")]"

/-- Form controls with a label. A label is tied to its control by the control's
`id`, or holds the control, which must then be an `input`. -/
def label (value : String) : String :=
  axis ++ "*[@id = (//label[normalize-space(string(.)) = " ++ Literal.ofText value
    ++ "]/@for)]|" ++ axis ++ "label[normalize-space(string(.)) = " ++ Literal.ofText value
    ++ "]//input"

end XPathLocator.Locator.Rule
