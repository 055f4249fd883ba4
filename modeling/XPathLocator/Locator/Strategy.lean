/-!
# `XPathLocator.Locator.Strategy`: the ways to identify an element

Ten strategies, each with the name that locators use. `all` fixes their order,
in which they are listed; a name belongs to one strategy only, and letters count
as written.
-/

set_option autoImplicit false

namespace XPathLocator.Locator

/-- A way to identify an element by a value. -/
inductive Strategy
  /-- The value is a word of the `class` attribute. -/
  | className
  /-- The value is a CSS selector. -/
  | css
  | id
  | name
  /-- The value is the `id` or the `name` attribute. -/
  | idOrName
  /-- The value is the name of the element, as a node test. -/
  | tagName
  /-- The value is the text of a link. -/
  | linkText
  /-- The value is the text of the label of a form control. -/
  | label
  /-- The value occurs in the text of a link. -/
  | partialLinkText
  /-- The value is an XPath. -/
  | xpath
deriving DecidableEq, Repr

namespace Strategy

/-- All strategies, in the order in which they are listed. -/
def all : List Strategy :=
  [.className, .css, .id, .name, .idOrName, .tagName, .linkText, .label,
    .partialLinkText, .xpath]

/-- The name of a strategy in a locator. -/
def text : Strategy → String
  | .className => "className"
  | .css => "css"
  | .id => "id"
  | .name => "name"
  | .idOrName => "idOrName"
  | .tagName => "tagName"
  | .linkText => "linkText"
  | .label => "label"
  | .partialLinkText => "partialLinkText"
  | .xpath => "xpath"

/-- The strategy of a name. -/
def ofText? (text : String) : Option Strategy :=
  all.find? (·.text = text)

/-- Whether the value becomes a part of the XPath as it stands, so that it has
to be a node test, or an expression, already. -/
def isVerbatim : Strategy → Bool
  | .tagName | .xpath => true
  | _ => false

/-- What a strategy selects, in one line. -/
def description : Strategy → String
  | .className => "elements whose class list contains the value"
  | .css => "elements matching the CSS selector"
  | .id => "elements whose id equals the value"
  | .name => "elements whose name equals the value"
  | .idOrName => "elements whose id or name equals the value"
  | .tagName => "elements with the given tag name"
  | .linkText => "links whose text equals the value"
  | .label => "form controls labelled with the value"
  | .partialLinkText => "links whose text contains the value"
  | .xpath => "nodes matching the XPath expression"

end Strategy

end XPathLocator.Locator
