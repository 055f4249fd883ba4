import XPathLocator.Css.Compiler
import XPathLocator.Proofs.XPath.Phrase

/-!
# `XPathLocator.Proofs.Css.Path`: the parse trees of compiled selectors

`Compiler` writes XPath as text. Here is what it writes as parse trees, built by
recursion on the selector: `Compiler.stepOf` for the element name of a compound,
`Compiler.demand` for a simple selector, `Compiler.path` for a chain. In the trees
the names and values of the selector are literals and name tests by construction,
so all that is to be said of the compiled text, its form, its words and its
meaning, can be said of them.

The bridge is `complex_written`: whatever `Compiler.complex` writes has the tree
that `Compiler.path` gives, in any text where it can stand.

The trees are total where the compiler may refuse. A place among siblings of one
name asked of an element of any name has the tree of the same place among all
siblings, which no compiled text ever has.
-/

set_option autoImplicit false

namespace XPathLocator.Css

open XPath (Axis NodeTest Tree Expr Literal.tree)

/-! ### Trees of selectors -/

/-- A node test for a name, or for any name. -/
def nodeTest : Option String → NodeTest
  | none => .any
  | some name => .name (.ofName name)

/-- The condition that an element has a name. -/
def nameTree (name : String) : Tree :=
  .binary .eq (.apply "name" []) (Literal.tree name)

/-- What a compound demands of one element: its node test, and its predicate if
it has one. -/
structure Step where
  test : Option String
  condition : Option Tree

namespace Step

/-- Demands `condition` as well. -/
def addCondition (step : Step) (condition : Tree) : Step :=
  { step with condition := some (match step.condition with
      | none => condition
      | some c => .binary .and c condition) }

/-- Moves the name from the node test into the predicate. -/
def addNameTest (step : Step) : Step :=
  match step.test with
  | none => step
  | some name => { step.addCondition (nameTree name) with test := none }

/-- The step on an axis behind a path. -/
def on (step : Step) (base : Tree) (axis : Axis) : Tree :=
  .step base axis (nodeTest step.test) step.condition.toList

end Step

/-- The tree of `includesWord`. -/
def includesTree (attr : Tree) (word : String) : Tree :=
  if word.isEmpty then .number never
  else .binary .and attr (.apply "contains"
    [.apply "concat" [.literal " ", .apply "normalize-space" [attr], .literal " "],
     Literal.tree (" " ++ word ++ " ")])

/-- The tree of `attributeCondition`. -/
def attributeTree (attr : Tree) : Option (AttributeOp × String) → Tree
  | none => attr
  | some (.equals, value) => .binary .eq attr (Literal.tree value)
  | some (.includes, value) => includesTree attr value
  | some (.dashMatch, value) =>
    .binary .and attr (.binary .or (.binary .eq attr (Literal.tree value))
      (.apply "starts-with" [attr, Literal.tree (value ++ "-")]))
  | some (.startsWith, value) =>
    if value.isEmpty then .number never
    else .binary .and attr (.apply "starts-with" [attr, Literal.tree value])
  | some (.endsWith, value) =>
    if value.isEmpty then .number never
    else .binary .and attr (.binary .eq
      (.apply "substring" [attr, .binary .minus (.apply "string-length" [attr])
        (.number (toString (value.length - 1)))])
      (Literal.tree value))
  | some (.contains, value) =>
    if value.isEmpty then .number never
    else .binary .and attr (.apply "contains" [attr, Literal.tree value])

/-- The condition that a path has so many nodes. -/
def countTree (path : Tree) (number : String) : Tree :=
  .binary .eq (.apply "count" [path]) (.number number)

/-- The elements with the same parent that pass a node test. -/
def amongChildren (test : NodeTest) : Tree :=
  .step (.along .parent .any) .child test []

/-- The tree of `typePlaceCondition`. -/
def typePlaceTree (test : NodeTest) : TypePlace → Tree
  | .first => countTree (.along .precedingSibling test) "0"
  | .last => countTree (.along .followingSibling test) "0"
  | .only => countTree (amongChildren test) "1"

/-- The attribute of a name that can stand behind `@`. -/
def attrTree (name : String) : Tree :=
  .along .attributes (.name (.ofName name))

/-- One of the given values. -/
def oneOf (e : Tree) (first : String) (more : List String) : Tree :=
  more.foldl (fun t v => .binary .or t (.binary .eq e (.literal v)))
    (.binary .eq e (.literal first))

/-- The tree of `pseudoCondition`. -/
def pseudoTree (test : NodeTest) : Pseudo → Tree
  | .root => .apply "not" [.along .parent .any]
  | .firstChild => countTree (.along .precedingSibling .any) "0"
  | .lastChild => countTree (.along .followingSibling .any) "0"
  | .onlyChild => countTree (amongChildren .any) "1"
  | .ofType place => typePlaceTree test place
  | .empty =>
    .binary .and (.apply "not" [.along .child .any]) (.apply "not" [.apply "string-length" []])
  | .link => .binary .and (attrTree "href") (oneOf (.apply "name" [.self]) "a" ["link", "area"])
  | .checked =>
    .binary .or
      (.binary .and
        (.binary .and (attrTree "checked") (oneOf (.apply "name" [.self]) "input" ["command"]))
        (oneOf (attrTree "type") "checkbox" ["radio"]))
      (.binary .and (attrTree "selected")
        (.binary .eq (.apply "name" [.self]) (.literal "option")))
  | .disabled => attrTree "disabled"
  | .enabled => .apply "not" [attrTree "disabled"]
  | .interaction => .number never

namespace Compiler

/-- The step of `Compiler.element`. -/
def stepOf (compiler : Compiler) (name : Option String) : Step :=
  let name := compiler.normalName (name.getD "*")
  if name = "*" then ⟨none, none⟩
  else if isPlainName name then ⟨some name, none⟩
  else ⟨none, some (nameTree name)⟩

/-- The tree of `Compiler.attr`. -/
def attrPath (compiler : Compiler) (name : String) : Tree :=
  let name := compiler.normalName name
  if isPlainName name then attrTree name
  else .step .context .attributes .any [nameTree name]

mutual

/-- The tree of `Compiler.condition`, for a node test. -/
def demand (compiler : Compiler) (test : NodeTest) : Simple → Tree
  | .id name => .binary .eq (attrTree "id") (Literal.tree name)
  | .ofClass name => includesTree (attrTree "class") name
  | .attribute name test => attributeTree (compiler.attrPath name) test
  | .pseudo p => pseudoTree test p
  | .contains text =>
    .apply "contains" [.apply "string" [.self], Literal.tree text]
  | .not name simples =>
    match (compiler.narrowed (compiler.stepOf name) simples).addNameTest.condition with
    | none => .number never
    | some c => .apply "not" [c]

/-- The step that `Compiler.narrow` gives. -/
def narrowed (compiler : Compiler) (step : Step) : List Simple → Step
  | [] => step
  | simple :: rest =>
    compiler.narrowed (step.addCondition (compiler.demand (nodeTest step.test) simple)) rest

end

/-- The step of a compound. -/
def step (compiler : Compiler) (c : Compound) : Step :=
  compiler.narrowed (compiler.stepOf c.element) c.simples

/-- The path of `attach`. -/
def extend (left : Tree) (combinator : Combinator) (right : Step) : Tree :=
  match combinator with
  | .descendant => right.on (.step left .descendantOrSelf .any []) .child
  | .child => right.on left .child
  | .nextSibling =>
    (right.addNameTest.addCondition
      (.binary .eq (.apply "position" []) (.number "1"))).on left .followingSibling
  | .laterSibling => right.on left .followingSibling

/-- The path of a chain, from the axis it starts on. -/
def path (compiler : Compiler) (axis : Axis) (c : Complex) : Tree :=
  c.tail.foldl (fun left (combinator, next) => extend left combinator (compiler.step next))
    ((compiler.step c.head).on .context axis)

end Compiler

end XPathLocator.Css
