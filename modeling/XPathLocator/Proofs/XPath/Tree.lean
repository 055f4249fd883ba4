/-!
# `XPathLocator.Proofs.XPath.Tree`: what an XPath 1.0 expression says

A `Tree` is the parse tree of an expression. Brackets that only group leave no
trace in it, and the abbreviations of location paths stand in their full form:
`@x` is a step on the attribute axis, `.` and `..` are steps on the self and the
parent axis, and `//` is a step on the descendant-or-self axis between two
others.

A location path nests to the left. Its first step stands on `context` or on
`root`, each further step on the path before it. So a path is extended, and its
last step narrowed, at the outermost constructor.
-/

set_option autoImplicit false

namespace XPathLocator.XPath

/-- The axes on which a step can go. -/
inductive Axis
  | ancestor
  | ancestorOrSelf
  | attributes
  | child
  | descendant
  | descendantOrSelf
  | following
  | followingSibling
  | namespaces
  | parent
  | preceding
  | precedingSibling
  | self
deriving DecidableEq, Repr

namespace Axis

/-- An axis as a step names it. -/
def name : Axis → String
  | .ancestor => "ancestor"
  | .ancestorOrSelf => "ancestor-or-self"
  | .attributes => "attribute"
  | .child => "child"
  | .descendant => "descendant"
  | .descendantOrSelf => "descendant-or-self"
  | .following => "following"
  | .followingSibling => "following-sibling"
  | .namespaces => "namespace"
  | .parent => "parent"
  | .preceding => "preceding"
  | .precedingSibling => "preceding-sibling"
  | .self => "self"

/-- Every axis, in the order of the names. -/
def all : List Axis :=
  [.ancestor, .ancestorOrSelf, .attributes, .child, .descendant, .descendantOrSelf,
   .following, .followingSibling, .namespaces, .parent, .preceding, .precedingSibling, .self]

/-- The axis of a name. -/
def ofName? (name : String) : Option Axis :=
  all.find? fun axis => axis.name = name

/-- An axis is found by its name. -/
@[simp]
theorem ofName?_name (axis : Axis) : ofName? axis.name = some axis := by
  cases axis <;> decide

end Axis

/-- A name with the namespace prefix before its colon, if it has one. -/
structure QName where
  qualifier : Option String
  name : String
deriving DecidableEq, Repr

/-- A name without a namespace prefix. -/
def QName.ofName (name : String) : QName := ⟨none, name⟩

/-- The kinds of nodes that a node test can ask for. -/
inductive NodeType
  | comment
  | text
  | instruction
  | node
deriving DecidableEq, Repr

namespace NodeType

/-- A kind of node as a node test names it. -/
def name : NodeType → String
  | .comment => "comment"
  | .text => "text"
  | .instruction => "processing-instruction"
  | .node => "node"

/-- The kind of node of a name. -/
def ofName? (name : String) : Option NodeType :=
  [.comment, .text, .instruction, .node].find? fun type => type.name = name

end NodeType

/-- What a step asks of the nodes on its axis. -/
inductive NodeTest
  /-- Written `*`: any node of the axis's own kind. -/
  | any
  /-- Written `p:*`: any name with this namespace prefix. -/
  | anyIn (qualifier : String)
  /-- One name. -/
  | name (name : QName)
  /-- One kind of node. -/
  | type (type : NodeType)
  /-- A processing instruction for one target. -/
  | instruction (target : String)
deriving DecidableEq, Repr

/-- The operators between two operands. -/
inductive Operator
  | or
  | and
  | eq
  | ne
  | lt
  | le
  | gt
  | ge
  | plus
  | minus
  | times
  | div
  | mod
  | union
deriving DecidableEq, Repr

namespace Operator

/-- An operator as an expression writes it. -/
def text : Operator → String
  | .or => "or"
  | .and => "and"
  | .eq => "="
  | .ne => "!="
  | .lt => "<"
  | .le => "<="
  | .gt => ">"
  | .ge => ">="
  | .plus => "+"
  | .minus => "-"
  | .times => "*"
  | .div => "div"
  | .mod => "mod"
  | .union => "|"

/-- The operator that a name stands for behind an operand. -/
def ofName? (name : String) : Option Operator :=
  [.or, .and, .div, .mod].find? fun op => op.text = name

/-- How tightly an operator binds: the operands of one rank are built with
operators of higher ranks, and operators of one rank group to the left. Rank 6
belongs to the sign, which stands before its operand, and rank 8 to paths. -/
def rank : Operator → Nat
  | .or => 0
  | .and => 1
  | .eq | .ne => 2
  | .lt | .le | .gt | .ge => 3
  | .plus | .minus => 4
  | .times | .div | .mod => 5
  | .union => 7

end Operator

/-- The parse tree of an expression. -/
inductive Tree
  /-- The node from which a relative path starts. -/
  | context
  /-- The root of the document, from which an absolute path starts. -/
  | root
  /-- A further step of the path `base`. -/
  | step (base : Tree) (axis : Axis) (test : NodeTest) (predicates : List Tree)
  /-- A predicate on an expression that is no step. -/
  | filter (base predicate : Tree)
  | binary (op : Operator) (left right : Tree)
  /-- Written with the sign `-`. -/
  | negate (operand : Tree)
  | literal (value : String)
  | number (digits : String)
  /-- A variable, written behind `$`. -/
  | reference (name : QName)
  | call (function : QName) (arguments : List Tree)
deriving Repr

namespace Tree

/-- The step that `//` stands for between two others. -/
def anyBelow (base : Tree) : Tree :=
  .step base .descendantOrSelf (.type .node) []

/-- One step from the context node. -/
def along (axis : Axis) (test : NodeTest) : Tree :=
  .step .context axis test []

/-- The context node itself, written `.`. -/
def self : Tree :=
  .along .self (.type .node)

/-- A call of a function without a namespace prefix. -/
def apply (function : String) (arguments : List Tree) : Tree :=
  .call (.ofName function) arguments

/-- Whether a tree is a location path: steps, the first of them on the context
node or the root. -/
def IsLocationPath : Tree → Prop
  | .step base _ _ _ => base = .context ∨ base = .root ∨ base.IsLocationPath
  | _ => False

/-- The union of a first operand with the further ones, grouped to the left. -/
def unionOf (first : Tree) (more : List Tree) : Tree :=
  more.foldl (.binary .union) first

end Tree

end XPathLocator.XPath
