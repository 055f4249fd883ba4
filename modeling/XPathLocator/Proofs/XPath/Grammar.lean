import XPathLocator.Proofs.XPath.Token

/-!
# `XPathLocator.Proofs.XPath.Grammar`: the expressions of XPath 1.0

`Derives part ts e` says that the tokens `ts` are a `part` of an expression with
the parse tree `e`. Its rules are the productions of XPath 1.0, with one rule for
all binary operators. They differ in their ranks only: an operand of rank `n` is
built with operators of rank `n` or higher, so `.expr 0` is a whole expression and
`.expr 8` is an operand without operators outside brackets.

Paths are derived from the left, as their trees nest. A `.start` is all that
stands before the next step, `.steps` is a path whose last step may still take a
predicate, and `.location` is any location path; a last step `.` or `..` takes no
predicate. `.filtered` is an expression that is no location path but may take
predicates and steps: a literal, a number, a variable, a call, or an expression in
brackets.
-/

set_option autoImplicit false

namespace XPathLocator.XPath

/-- The parts of an expression that have tokens of their own. -/
inductive Part
  /-- An operand built with operators of this rank or a higher one. -/
  | expr (rank : Nat)
  /-- A primary expression, perhaps with predicates. -/
  | filtered
  /-- A call from its name to the end of its last argument so far. -/
  | arguments
  /-- A path up to the place of its next step. -/
  | start
  /-- A location path whose last step may take predicates. -/
  | steps
  /-- A location path. -/
  | location
deriving DecidableEq, Repr

/-- The tokens of a node test. -/
inductive TestTokens : List Token → NodeTest → Prop
  | name (test : NodeTest) : TestTokens [.nameTest test] test
  | type (type : NodeType) : TestTokens [.nodeType type, .openParen, .closeParen] (.type type)
  | instruction (target : String) :
      TestTokens [.nodeType .instruction, .openParen, .literal target, .closeParen]
        (.instruction target)

/-- The tokens of a step up to its predicates. A step that names no axis goes to
the children. -/
inductive StepTokens : List Token → Axis → NodeTest → Prop
  | full {ts : List Token} {test : NodeTest} (axis : Axis) (h : TestTokens ts test) :
      StepTokens (.axis axis :: .doubleColon :: ts) axis test
  | short {ts : List Token} {test : NodeTest} (h : TestTokens ts test) :
      StepTokens (.at :: ts) .attributes test
  | bare {ts : List Token} {test : NodeTest} (h : TestTokens ts test) :
      StepTokens ts .child test

/-- A node test has a token. -/
theorem TestTokens.ne_nil {ts : List Token} {test : NodeTest} (h : TestTokens ts test) :
    ts ≠ [] := by
  cases h <;> exact List.cons_ne_nil _ _

/-- A step has a token. -/
theorem StepTokens.ne_nil {ts : List Token} {axis : Axis} {test : NodeTest}
    (h : StepTokens ts axis test) : ts ≠ [] := by
  cases h with
  | full | short => exact List.cons_ne_nil _ _
  | bare h => exact h.ne_nil

/-- The grammar: these tokens are a part of an expression, with this tree. -/
inductive Derives : Part → List Token → Tree → Prop
  | binary {ts us : List Token} {a b : Tree} (op : Operator)
      (left : Derives (.expr op.rank) ts a) (right : Derives (.expr (op.rank + 1)) us b) :
      Derives (.expr op.rank) (ts ++ .operator op :: us) (.binary op a b)
  | negate {ts : List Token} {a : Tree} (operand : Derives (.expr 6) ts a) :
      Derives (.expr 6) (.operator .minus :: ts) (.negate a)
  | tighter {n : Nat} {ts : List Token} {a : Tree} (hn : n < 8)
      (operand : Derives (.expr (n + 1)) ts a) : Derives (.expr n) ts a
  | root : Derives (.expr 8) [.slash] .root
  | path {ts : List Token} {a : Tree} (h : Derives .location ts a) : Derives (.expr 8) ts a
  | primary {ts : List Token} {a : Tree} (h : Derives .filtered ts a) : Derives (.expr 8) ts a
  | literal (value : String) : Derives .filtered [.literal value] (.literal value)
  | number (digits : String) : Derives .filtered [.number digits] (.number digits)
  | reference (name : QName) : Derives .filtered [.reference name] (.reference name)
  | group {ts : List Token} {a : Tree} (inner : Derives (.expr 0) ts a) :
      Derives .filtered (.openParen :: (ts ++ [.closeParen])) a
  | callEmpty (function : QName) :
      Derives .filtered [.function function, .openParen, .closeParen] (.call function [])
  | call {ts : List Token} {a : Tree} (h : Derives .arguments ts a) :
      Derives .filtered (ts ++ [.closeParen]) a
  | argument {ts : List Token} {a : Tree} (function : QName) (h : Derives (.expr 0) ts a) :
      Derives .arguments (.function function :: .openParen :: ts) (.call function [a])
  | nextArgument {ts us : List Token} {function : QName} {args : List Tree} {a : Tree}
      (h : Derives .arguments ts (.call function args)) (next : Derives (.expr 0) us a) :
      Derives .arguments (ts ++ .comma :: us) (.call function (args ++ [a]))
  | filter {ts us : List Token} {a p : Tree} (h : Derives .filtered ts a)
      (predicate : Derives (.expr 0) us p) :
      Derives .filtered (ts ++ .openBracket :: (us ++ [.closeBracket])) (.filter a p)
  | relative : Derives .start [] .context
  | absolute : Derives .start [.slash] .root
  | absoluteBelow : Derives .start [.doubleSlash] (.anyBelow .root)
  | afterStep {ts : List Token} {a : Tree} (h : Derives .location ts a) :
      Derives .start (ts ++ [.slash]) a
  | belowStep {ts : List Token} {a : Tree} (h : Derives .location ts a) :
      Derives .start (ts ++ [.doubleSlash]) (.anyBelow a)
  | afterFiltered {ts : List Token} {a : Tree} (h : Derives .filtered ts a) :
      Derives .start (ts ++ [.slash]) a
  | belowFiltered {ts : List Token} {a : Tree} (h : Derives .filtered ts a) :
      Derives .start (ts ++ [.doubleSlash]) (.anyBelow a)
  | step {ts us : List Token} {a : Tree} {axis : Axis} {test : NodeTest}
      (h : Derives .start ts a) (head : StepTokens us axis test) :
      Derives .steps (ts ++ us) (.step a axis test [])
  | predicate {ts us : List Token} {a p : Tree} {axis : Axis} {test : NodeTest}
      {ps : List Tree} (h : Derives .steps ts (.step a axis test ps))
      (predicate : Derives (.expr 0) us p) :
      Derives .steps (ts ++ .openBracket :: (us ++ [.closeBracket]))
        (.step a axis test (ps ++ [p]))
  | steps {ts : List Token} {a : Tree} (h : Derives .steps ts a) : Derives .location ts a
  | self {ts : List Token} {a : Tree} (h : Derives .start ts a) :
      Derives .location (ts ++ [.dot]) (.step a .self (.type .node) [])
  | parent {ts : List Token} {a : Tree} (h : Derives .start ts a) :
      Derives .location (ts ++ [.doubleDot]) (.step a .parent (.type .node) [])

/-- No operand binds tighter than a path. -/
theorem Derives.rank_le {n : Nat} {ts : List Token} {a : Tree} (h : Derives (.expr n) ts a) :
    n ≤ 8 := by
  cases h with
  | binary op => cases op <;> decide
  | tighter hn => exact Nat.le_of_lt hn
  | negate => decide
  | root | path | primary => exact Nat.le_refl 8

/-- An operand serves wherever a lower rank is asked for. -/
theorem Derives.loosen {m n : Nat} {ts : List Token} {a : Tree} (h : Derives (.expr n) ts a)
    (hmn : m ≤ n) : Derives (.expr m) ts a := by
  have hn := h.rank_le
  -- One rank at a time, from `n` down to `m`.
  induction n with
  | zero =>
      rw [Nat.le_zero.mp hmn]
      exact h
  | succ n ih =>
      rcases Nat.lt_or_eq_of_le hmn with hlt | rfl
      · exact ih (.tighter hn h) (by omega) (by omega)
      · exact h

/-- An operand of any rank is an expression. -/
theorem Derives.whole {n : Nat} {ts : List Token} {a : Tree} (h : Derives (.expr n) ts a) :
    Derives (.expr 0) ts a :=
  h.loosen (Nat.zero_le n)

/-- Only the place of a first step has no tokens in front of it. -/
theorem Derives.ne_nil {part : Part} {ts : List Token} {a : Tree} (h : Derives part ts a) :
    part = .start ∨ ts ≠ [] := by
  induction h with
  | tighter _ _ ih => exact .inr (ih.resolve_left nofun)
  | path _ ih => exact .inr (ih.resolve_left nofun)
  | primary _ ih => exact .inr (ih.resolve_left nofun)
  | steps _ ih => exact .inr (ih.resolve_left nofun)
  | step _ head =>
      have hhead := head.ne_nil
      exact .inr fun h => hhead (List.append_eq_nil_iff.mp h).2
  | relative | absolute | absoluteBelow => exact .inl rfl
  | afterStep | belowStep | afterFiltered | belowFiltered => exact .inl rfl
  -- The other rules put a token of their own into the list.
  | _ => exact .inr (by simp)

/-- An operand is never empty. -/
theorem Derives.operand_ne_nil {n : Nat} {ts : List Token} {a : Tree}
    (h : Derives (.expr n) ts a) : ts ≠ [] :=
  h.ne_nil.resolve_left (by simp)

/-- A text is an XPath 1.0 expression with this parse tree. -/
def Parses (text : String) (e : Tree) : Prop :=
  ∃ ts, tokens? false text.toList = some ts ∧ Derives (.expr 0) ts e

end XPathLocator.XPath
