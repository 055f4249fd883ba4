import XPathLocator.Proofs.XPath.Value
import XPathLocator.Proofs.XPath.Grammar

/-!
# `XPathLocator.Proofs.XPath.Eval`: the value of an expression

`eval d e focus` is the value that XPath 1.0 gives to the parse tree `e` at a node of
the document `d`, or nothing where the expression has none. A step takes the nodes
on its axis in the direction of the axis and narrows them by each predicate in
turn, so that the positions a predicate sees are those among the nodes still left.
-/

set_option autoImplicit false

namespace XPathLocator.XPath

/-! ### Axes and node tests -/

namespace Axis

/-- The axes that run against the document order. -/
def isReverse : Axis → Bool
  | .ancestor | .ancestorOrSelf | .preceding | .precedingSibling => true
  | _ => false

/-- Whether a node of a document is on the axis of another one. No node has
namespace nodes here. -/
def holds (d : Document) (axis : Axis) (n m : Node) : Bool :=
  match axis, n, m with
  | .self, n, m => n = m
  | .attributes, .tree p, .attr q _ => p = q
  | .child, .tree p, .tree q => q.tail = p && q ≠ []
  | .parent, .tree p, .tree q => p.tail = q && p ≠ []
  | .parent, .attr p _, .tree q => p = q
  | .descendant, .tree p, .tree q => p.isSuffixOf q && p ≠ q
  | .descendantOrSelf, n, m => n = m || match n, m with
    | .tree p, .tree q => p.isSuffixOf q
    | _, _ => false
  | .ancestor, .tree p, .tree q => q.isSuffixOf p && p ≠ q
  | .ancestor, .attr p _, .tree q => q.isSuffixOf p
  | .ancestorOrSelf, n, m => n = m || match m with
    | .tree q => q.isSuffixOf n.path
    | _ => false
  | .followingSibling, .tree (i :: p), .tree (j :: q) => p = q && i < j
  | .precedingSibling, .tree (i :: p), .tree (j :: q) => p = q && j < i
  | .following, n, .tree q =>
    (d.nodes.dropWhile (· ≠ n)).tail.contains (.tree q) && !(match n with
      | .tree p => p.isSuffixOf q
      | .attr _ _ => false)
  | .preceding, n, .tree q =>
    (d.nodes.takeWhile (· ≠ n)).contains (.tree q) && !(q.isSuffixOf n.path)
  | _, _, _ => false

/-- The nodes on the axis of a node, in the direction of the axis. -/
def nodes (d : Document) (axis : Axis) (n : Node) : List Node :=
  let ns := d.nodes.filter (axis.holds d n)
  if axis.isReverse then ns.reverse else ns

end Axis

namespace NodeTest

/-- Whether a node is of the kind that an axis has names for: attributes on their
own axis, and else elements. -/
def isPrincipal (d : Document) : Axis → Node → Bool
  | .attributes, .attr _ _ => true
  | .attributes, _ | .namespaces, _ | _, .attr _ _ => false
  | _, .tree path => match d.content? path with
    | some (.element _ _ _) => true
    | _ => false

/-- Whether a node on an axis passes a node test. A name with a namespace prefix is
the name of no node here. -/
def passes (d : Document) (axis : Axis) (test : NodeTest) (n : Node) : Bool :=
  match test, n with
  | .any, n => isPrincipal d axis n
  | .name q, n => isPrincipal d axis n && q.qualifier.isNone && d.nameOf n = q.name
  | .anyIn _, _ => false
  | .type .node, _ => true
  | .type .text, .tree path => match d.content? path with
    | some (.text _) => true
    | _ => false
  | .type .comment, .tree path => match d.content? path with
    | some (.comment _) => true
    | _ => false
  | .type .instruction, .tree path => match d.content? path with
    | some (.instruction _ _) => true
    | _ => false
  | .instruction target, .tree path => match d.content? path with
    | some (.instruction t _) => t = target
    | _ => false
  | _, .attr _ _ => false

end NodeTest

/-! ### Evaluation -/

/-- The nodes that a predicate keeps, where the first of them has the given
position. -/
def keep (predicate : Focus → Option Value) (size position : Nat) :
    List Node → Option (List Node)
  | [] => some []
  | n :: ns => do
    let v ← predicate ⟨n, position, size⟩
    let rest ← keep predicate size (position + 1) ns
    return if v.accepts position then n :: rest else rest

mutual

/-- The value of an expression. -/
def eval (d : Document) : Tree → Focus → Option Value
  | .context, focus => some (.nodes [focus.node])
  | .root, _ => some (.nodes [.tree []])
  | .step base axis test predicates, focus => do
    let starts ← (← eval d base focus).nodes?
    let found ← starts.mapM fun n =>
      narrow d predicates ((axis.nodes d n).filter (test.passes d axis))
    return .nodes (d.inOrder found.flatten)
  | .filter base predicate, focus => do
    let ns ← (← eval d base focus).nodes?
    return .nodes (← keep (eval d predicate) ns.length 1 ns)
  | .binary op left right, focus => do
    let a ← eval d left focus
    let b ← eval d right focus
    Value.operate? d op a b
  | .negate operand, focus => return .number (-(← (← eval d operand focus).number?))
  | .literal value, _ => some (.string value)
  | .number digits, _ => (digitsValue? digits).map .number
  | .reference _, _ => none
  | .call function arguments, focus =>
    if function.qualifier.isSome then none
    else do call? d focus function.name (← evalAll d arguments focus)

/-- The values of the arguments of a call. -/
def evalAll (d : Document) : List Tree → Focus → Option (List Value)
  | [], _ => some []
  | e :: es, focus => do
    let v ← eval d e focus
    let vs ← evalAll d es focus
    return v :: vs

/-- The nodes on an axis that the predicates of a step leave, one predicate after
the other. -/
def narrow (d : Document) : List Tree → List Node → Option (List Node)
  | [], ns => some ns
  | predicate :: predicates, ns => do
    narrow d predicates (← keep (eval d predicate) ns.length 1 ns)

end

/-- A text is an XPath that selects these nodes from the document node. -/
def Selects (d : Document) (text : String) (ns : List Node) : Prop :=
  ∃ e, Parses text e ∧ eval d e ⟨.tree [], 1, 1⟩ = some (.nodes ns)

end XPathLocator.XPath
