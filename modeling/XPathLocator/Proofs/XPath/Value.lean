import XPathLocator.Proofs.XPath.Document
import XPathLocator.Proofs.XPath.Token

/-!
# `XPathLocator.Proofs.XPath.Value`: values and functions of XPath 1.0

An expression has a value of one of four types. The functions and operators here
are the ones that selectors and locators need, and those they are compared with;
where the language has more of them, or would give a number that is no integer,
there is no value. Among them they compute with integers only, so a number is one.

Characters are code points, and white space is that of the language: space, tab,
line feed and carriage return.
-/

set_option autoImplicit false

namespace XPathLocator.XPath

/-- The value of an expression. -/
inductive Value
  /-- A set of nodes, in document order. -/
  | nodes (ns : List Node)
  | boolean (b : Bool)
  | number (n : Int)
  | string (s : String)
deriving DecidableEq, Repr

/-! ### Functions of strings -/

/-- The words of a text: the runs between its white space. -/
def textWords (s : List Char) : List (List Char) :=
  match s with
  | [] => []
  | c :: r =>
    if isSpace c then textWords r
    else (c :: r.takeWhile (!isSpace ·)) :: textWords (r.dropWhile (!isSpace ·))
termination_by s.length
decreasing_by
  · simp
  · exact Nat.lt_succ_of_le (List.dropWhile_suffix _).length_le

/-- The words of a text with one space between them. -/
def normalizeSpace (s : String) : String :=
  " ".intercalate ((textWords s.toList).map .ofList)

/-- Whether `part` occurs in a text. -/
def occursIn (part s : String) : Bool :=
  s.toList.tails.any part.toList.isPrefixOf

/-- A text from a position on, where the first character has position one. -/
def substringFrom (s : String) (position : Int) : String :=
  .ofList (s.toList.drop (position - 1).toNat)

/-- The number that a run of decimal digits denotes. -/
def digitsValue? (digits : String) : Option Int :=
  if digits.toList.all Char.isDigit then
    some (Nat.ofDigitChars 10 digits.toList 0)
  else none

/-! ### Conversions -/

namespace Value

/-- The nodes of a set of nodes. -/
def nodes? : Value → Option (List Node)
  | .nodes ns => some ns
  | _ => none

/-- The string for a value; for a set of nodes, the string value of its first one. -/
def toText (d : Document) : Value → String
  | .nodes ns => (ns.head?.map d.stringOf).getD ""
  | .boolean b => if b then "true" else "false"
  | .number n => toString n
  | .string s => s

/-- The truth of a value. -/
def truth : Value → Bool
  | .nodes ns => !ns.isEmpty
  | .boolean b => b
  | .number n => n ≠ 0
  | .string s => !s.isEmpty

/-- The number for a value that is none of text. -/
def number? : Value → Option Int
  | .boolean b => some (if b then 1 else 0)
  | .number n => some n
  | _ => none

/-- Whether a predicate with this value keeps the node at a position: a number asks
for that position. -/
def accepts (position : Nat) : Value → Bool
  | .number n => n = position
  | v => v.truth

/-- Whether two values are equal. A set of nodes is compared node by node with a
string or another set, and as a truth value with a truth value. -/
def equal? (d : Document) : Value → Value → Option Bool
  | .boolean a, b => some (a = b.truth)
  | a, .boolean b => some (a.truth = b)
  | .nodes ns, .nodes ms => some (ns.any fun n => ms.any fun m => d.stringOf n = d.stringOf m)
  | .nodes ns, .string s | .string s, .nodes ns => some (ns.any fun n => d.stringOf n = s)
  | .string s, .string t => some (s = t)
  | .number n, .number m => some (n = m)
  | _, _ => none

/-- The value of an operator for its operands. -/
def operate? (d : Document) : Operator → Value → Value → Option Value
  | .or, a, b => some (.boolean (a.truth || b.truth))
  | .and, a, b => some (.boolean (a.truth && b.truth))
  | .eq, a, b => (a.equal? d b).map .boolean
  | .minus, a, b => return .number ((← a.number?) - (← b.number?))
  | .union, a, b => return .nodes (d.inOrder ((← a.nodes?) ++ (← b.nodes?)))
  | _, _, _ => none

end Value

/-! ### Functions -/

/-- Where an expression is evaluated: a node, and its position among the nodes that
are evaluated together. -/
structure Focus where
  node : Node
  position : Nat
  size : Nat

/-- The value of a function for its arguments. Where an argument may be left out,
it is the node in focus. -/
def call? (d : Document) (focus : Focus) (function : String) (arguments : List Value) :
    Option Value :=
  match function, arguments with
  | "position", [] => some (.number focus.position)
  | "last", [] => some (.number focus.size)
  | "count", [.nodes ns] => some (.number ns.length)
  | "name", [] => some (.string (d.nameOf focus.node))
  | "name", [.nodes ns] => some (.string ((ns.head?.map d.nameOf).getD ""))
  | "string", [v] => some (.string (v.toText d))
  | "string-length", [] => some (.number (d.stringOf focus.node).length)
  | "string-length", [v] => some (.number (v.toText d).length)
  | "normalize-space", [] => some (.string (normalizeSpace (d.stringOf focus.node)))
  | "normalize-space", [v] => some (.string (normalizeSpace (v.toText d)))
  | "concat", v :: w :: vs => some (.string (.join ((v :: w :: vs).map (·.toText d))))
  | "contains", [v, w] => some (.boolean (occursIn (w.toText d) (v.toText d)))
  | "starts-with", [v, w] =>
    some (.boolean ((w.toText d).toList.isPrefixOf (v.toText d).toList))
  | "substring", [v, w] => w.number?.map fun n => .string (substringFrom (v.toText d) n)
  | "not", [v] => some (.boolean !v.truth)
  | _, _ => none

end XPathLocator.XPath
