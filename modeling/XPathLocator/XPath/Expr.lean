import XPathLocator.XPath.Literal

/-!
# `XPathLocator.XPath.Expr`: a path under construction

An expression is kept in three parts: `path`, all that stands before the last
step; `element`, the node test of the last step; and `condition`, its predicate
without the brackets, empty for none. A further condition can then narrow the
last step, and a further step can follow it, with nothing read again.

`render` puts the parts together. `join` renders its left operand into the new
path, so that what the right operand says about the last step stays open.
-/

set_option autoImplicit false

namespace XPathLocator.XPath

/-- The condition that an element has a name. -/
def nameIs (name : String) : String :=
  "name() = " ++ Literal.ofText name

/-- A location path whose last step can still be narrowed. -/
structure Expr where
  /-- Everything before the last node test, with its separators. -/
  path : String
  /-- The node test of the last step. -/
  element : String
  /-- The predicate of the last step, without brackets; empty for none. -/
  condition : String
deriving DecidableEq, Repr

namespace Expr

/-- Any element: the starting point of every path. -/
def any : Expr := ⟨"", "*", ""⟩

/-- Demands `condition` of the last step as well. The first condition stands as
it is; each later one makes a conjunction of two bracketed operands. -/
def addCondition (e : Expr) (condition : String) : Expr :=
  { e with condition :=
      if e.condition.isEmpty then condition
      else "(" ++ e.condition ++ ") and (" ++ condition ++ ")" }

/-- Moves the node test into the condition, as a comparison of `name()`, so
that the step counts every element. A step that has `*` keeps it. -/
def addNameTest (e : Expr) : Expr :=
  if e.element = "*" then e
  else { e.addCondition (nameIs e.element) with element := "*" }

/-- The expression as text. -/
def render (e : Expr) : String :=
  e.path ++ e.element ++ if e.condition.isEmpty then "" else "[" ++ e.condition ++ "]"

/-- Attaches `right` as a further step after `left`, with `combiner` between them. -/
def join (left : Expr) (combiner : String) (right : Expr) : Expr :=
  { right with path := left.render ++ combiner ++ right.path }

end Expr

end XPathLocator.XPath
