import XPathLocator.Proofs.XPath.Meaning

/-!
# `XPathLocator.Proofs.XPath.Template`: expressions with a place for a text

A template is an expression with a variable, and `Tree.put` puts an expression where the
variable is. So two instances of a template have the same steps, predicates, operators and
functions, and differ in what stands for the variable.

What stands there for a text is a literal that denotes it (`Tree.Denotes`): one in quotes,
or the call of `concat` that stands for a text with both quotes.
-/

set_option autoImplicit false

namespace XPathLocator.XPath

mutual

/-- An expression with `a` in the places of the variable `x`. -/
def Tree.put (e : Tree) (x : QName) (a : Tree) : Tree :=
  match e with
  | .context => .context
  | .root => .root
  | .step base axis test predicates => .step (base.put x a) axis test (putAll predicates x a)
  | .filter base predicate => .filter (base.put x a) (predicate.put x a)
  | .binary op left right => .binary op (left.put x a) (right.put x a)
  | .negate operand => .negate (operand.put x a)
  | .literal value => .literal value
  | .number digits => .number digits
  | .reference name => if name = x then a else .reference name
  | .call function arguments => .call function (putAll arguments x a)

/-- `Tree.put` in each of a list of expressions. -/
def Tree.putAll (es : List Tree) (x : QName) (a : Tree) : List Tree :=
  match es with
  | [] => []
  | e :: es => e.put x a :: putAll es x a

end

/-- A tree that is put in the place of a variable stands there. -/
@[simp]
theorem Tree.put_reference (x : QName) (a : Tree) : (Tree.reference x).put x a = a :=
  if_pos rfl

/-- A literal, or a call of `concat` with two literals or more. -/
inductive Tree.IsLiteral : Tree → Prop
  | quoted (v : String) : IsLiteral (.literal v)
  | concat (v w : String) (more : List String) :
      IsLiteral (.apply "concat" ((v :: w :: more).map .literal))

/-- A literal whose value is `v`, in every document. -/
structure Tree.Denotes (e : Tree) (v : String) : Prop where
  isLiteral : e.IsLiteral
  eval_eq : ∀ d focus, eval d e focus = some (.string v)

/-- The tree of a written text denotes the text. -/
theorem Literal.tree_denotes (v : String) : (Literal.tree v).Denotes v := by
  refine ⟨?_, fun d focus => Means.text v focus⟩
  rw [Literal.tree]
  split
  · next h =>
    obtain ⟨w, w', ws, hws⟩ := Literal.exists_concatValues_eq h
    rw [hws]
    exact .concat w w' ws
  · exact .quoted v

end XPathLocator.XPath
