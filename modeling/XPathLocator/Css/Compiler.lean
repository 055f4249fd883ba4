import XPathLocator.Css.Selector.Parser
import XPathLocator.XPath.Expr

/-!
# `XPathLocator.Css.Compiler`: selectors as XPath

A compound becomes one step: its element name the node test, its conditions the
predicate, in order. A combinator says how the next step is attached. The
selectors of a group become the branches of a union.

A name is written as a node test, or behind `@`, only where it has the form
`[a-zA-Z_][a-zA-Z0-9_.-]*`; any other name is compared with `name()` as a
literal. Values are always literals. In HTML documents the names of elements and
attributes are compared in lower case, so they are written in lower case.

The only refusal here is `Error.elementNameRequired`: XPath can count siblings
of a given name, but not siblings of the name that an element happens to have.
-/

set_option autoImplicit false

namespace XPathLocator.Css

open XPath (Expr nameIs Literal.ofText)

/-- Whether a name can stand in an XPath as it is. -/
def isPlainName (name : String) : Bool :=
  match name.toList with
  | [] => false
  | c :: cs =>
    (c.isAlpha || c = '_') && cs.all fun d => d.isAlphanum || d = '_' || d = '.' || d = '-'

/-- The condition that no element meets. -/
def never : String := "0"

/-- One of the words of `attr` is `word`. An empty word is none. -/
def includesWord (attr word : String) : String :=
  if word.isEmpty then never
  else attr ++ " and contains(concat(' ', normalize-space(" ++ attr ++ "), ' '), "
    ++ Literal.ofText (" " ++ word ++ " ") ++ ")"

/-- What an attribute selector demands of the attribute that the XPath
`attr` denotes. An empty value starts, ends and occurs in nothing. -/
def attributeCondition (attr : String) : Option (AttributeOp × String) → String
  | none => attr
  | some (.equals, value) => attr ++ " = " ++ Literal.ofText value
  | some (.includes, value) => includesWord attr value
  | some (.dashMatch, value) =>
    attr ++ " and (" ++ attr ++ " = " ++ Literal.ofText value ++ " or starts-with("
      ++ attr ++ ", " ++ Literal.ofText (value ++ "-") ++ "))"
  | some (.startsWith, value) =>
    if value.isEmpty then never
    else attr ++ " and starts-with(" ++ attr ++ ", " ++ Literal.ofText value ++ ")"
  | some (.endsWith, value) =>
    if value.isEmpty then never
    else attr ++ " and substring(" ++ attr ++ ", string-length(" ++ attr ++ ")-"
      ++ toString (value.length - 1) ++ ") = " ++ Literal.ofText value
  | some (.contains, value) =>
    if value.isEmpty then never
    else attr ++ " and contains(" ++ attr ++ ", " ++ Literal.ofText value ++ ")"

/-- How many siblings of the same name a place allows, and on which axis. -/
def typePlaceCondition (element : String) : TypePlace → String
  | .first => "count(preceding-sibling::" ++ element ++ ") = 0"
  | .last => "count(following-sibling::" ++ element ++ ") = 0"
  | .only => "count(parent::*/child::" ++ element ++ ") = 1"

/-- What a pseudo-class demands of an element whose node test is `element`. -/
def pseudoCondition (element : String) : Pseudo → Except Error String
  | .root => return "not(parent::*)"
  | .firstChild => return "count(preceding-sibling::*) = 0"
  | .lastChild => return "count(following-sibling::*) = 0"
  | .onlyChild => return "count(parent::*/child::*) = 1"
  | .ofType place =>
    if element = "*" then throw (.elementNameRequired place)
    else return typePlaceCondition element place
  | .empty => return "not(*) and not(string-length())"
  | .link => return "@href and (name(.) = 'a' or name(.) = 'link' or name(.) = 'area')"
  | .checked =>
    return "(@checked and (name(.) = 'input' or name(.) = 'command') and "
      ++ "(@type = 'checkbox' or @type = 'radio')) or (@selected and name(.) = 'option')"
  | .disabled => return "@disabled"
  | .enabled => return "not(@disabled)"
  | .interaction => return never

/-- A compiler of selectors, for HTML documents or for XML ones. -/
structure Compiler where
  /-- Whether names are compared in lower case. -/
  html : Bool
deriving DecidableEq, Repr

namespace Compiler

/-- A name as the documents have it. -/
def normalName (compiler : Compiler) (name : String) : String :=
  if compiler.html then name.toLower else name

/-- The step for an element name, before any condition. -/
def element (compiler : Compiler) (name : Option String) : Expr :=
  let name := compiler.normalName (name.getD "*")
  if name = "*" || isPlainName name then ⟨"", name, ""⟩
  else Expr.any.addCondition (nameIs name)

/-- The XPath of an attribute. -/
def attr (compiler : Compiler) (name : String) : String :=
  let name := compiler.normalName name
  if isPlainName name then "@" ++ name else "attribute::*[" ++ nameIs name ++ "]"

mutual

/-- What a simple selector demands of an element whose node test is
`element`. A negated compound has its own step, whose node test becomes a
condition; if it demands nothing, its negation is never met. -/
def condition (compiler : Compiler) (element : String) : Simple → Except Error String
  | .id name => return "@id = " ++ Literal.ofText name
  | .ofClass name => return includesWord "@class" name
  | .attribute name test => return attributeCondition (compiler.attr name) test
  | .pseudo p => pseudoCondition element p
  | .contains text => return "contains(string(.), " ++ Literal.ofText text ++ ")"
  | .not name simples => do
    let inner := (← compiler.narrow (compiler.element name) simples).addNameTest
    return if inner.condition.isEmpty then never else "not(" ++ inner.condition ++ ")"

/-- Narrows the last step by each simple selector in turn. -/
def narrow (compiler : Compiler) (expr : Expr) : List Simple → Except Error Expr
  | [] => return expr
  | simple :: rest => do
    compiler.narrow (expr.addCondition (← compiler.condition expr.element simple)) rest

end

/-- The step for a compound. -/
def compound (compiler : Compiler) (c : Compound) : Except Error Expr :=
  compiler.narrow (compiler.element c.element) c.simples

/-- Attaches the step of a compound behind a combinator. The next sibling is the
first of the later ones, whatever its name, so there the name moves into the
predicate before the position is asked. -/
def attach (left : Expr) (combinator : Combinator) (right : Expr) : Expr :=
  match combinator with
  | .descendant => left.join "/descendant-or-self::*/" right
  | .child => left.join "/" right
  | .nextSibling =>
    (left.join "/following-sibling::" right).addNameTest.addCondition "position() = 1"
  | .laterSibling => left.join "/following-sibling::" right

/-- The path for a chain of compounds, without the axis it starts on. -/
def complex (compiler : Compiler) (c : Complex) : Except Error Expr := do
  c.tail.foldlM
    (fun left (combinator, next) => return attach left combinator (← compiler.compound next))
    (← compiler.compound c.head)

/-- The axis that starts every selector: the context node and all below it. -/
def defaultAxis : String := "descendant-or-self::"

/-- The union for a group, each path behind `axis`. -/
def group (compiler : Compiler) (axis : String) (g : Group) : Except Error String := do
  let paths ← g.mapM fun c => return axis ++ (← compiler.complex c).render
  return " | ".intercalate paths

/-- The XPath of a selector, each path behind `axis`. -/
def compileFrom (compiler : Compiler) (axis css : String) : Except Error String := do
  compiler.group axis (← parse css)

/-- The XPath of a selector. -/
def compile (compiler : Compiler) (css : String) : Except Error String :=
  compiler.compileFrom defaultAxis css

end Compiler

end XPathLocator.Css
