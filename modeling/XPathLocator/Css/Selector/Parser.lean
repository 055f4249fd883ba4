import XPathLocator.Css.Selector
import XPathLocator.Css.Token.Lexer
import XPathLocator.Remainder

/-!
# `XPathLocator.Css.Selector.Parser`: selectors from tokens

One function for each noun of the grammar, each reading from the front of the
tokens and giving what is left. An error names the first token that no selector
has at its place, or the end of the text if that comes too early.

White space needs care, since it is padding in most places and a combinator
between two compounds. `tail` decides it by what follows: behind white space a
compound is a descendant, unless a combinator, a comma or the end comes first.

`simples` is the one recursive reader, through the argument of `:not`. What it
leaves is a `Rest` of what it was given, and everything else it reads is a
`Tail`, so each round has fewer tokens than the one before.
-/

set_option autoImplicit false

namespace XPathLocator.Css

open Token (Kind)

/-- Refuses what stands in front. -/
def unexpected {α : Type} (ts : List Token) (expected : Expectation) : Except Error α :=
  match ts with
  | [] => throw (.unexpectedEnd expected)
  | t :: _ => throw (.unexpectedToken t.describe t.position expected)

/-- Passes over white space. -/
def skipBlank (ts : List Token) : Rest ts :=
  Rest.dropWhile (fun t => t.kind = .blank) ts

/-- An identifier. -/
def ident (expected : Expectation) (ts : List Token) : Except Error (String × Tail ts) :=
  match ts with
  | ⟨.ident name, _⟩ :: r => return (name, .ofCons _ r)
  | ts => unexpected ts expected

/-- The given character. -/
def delim (c : Char) (expected : Expectation) (ts : List Token) : Except Error (Tail ts) :=
  match ts with
  | [] => unexpected [] expected
  | t :: r => if t.kind = .delim c then return .ofCons t r else unexpected (t :: r) expected

/-! ### Attributes -/

/-- The operator of an attribute selector; nothing if the selector closes
instead. -/
def attributeOp (ts : List Token) : Except Error (Option AttributeOp × Tail ts) :=
  match ts with
  | ⟨.delim c, p⟩ :: r =>
    if c = ']' then return (none, .ofCons _ r)
    else if c = '=' then return (some .equals, .ofCons _ r)
    else match AttributeOp.ofChar? c with
      | some op => do
        let rest ← delim '=' .equalsSign r
        return (some op, (Tail.ofCons _ r).of rest.toRest)
      | none => unexpected (⟨.delim c, p⟩ :: r) .attributeOperator
  | ts => unexpected ts .attributeOperator

/-- The value of an attribute selector: a name, a string or a number. -/
def attributeValue (ts : List Token) : Except Error (String × Tail ts) :=
  match ts with
  | ⟨.ident value, _⟩ :: r => return (value, .ofCons _ r)
  | ⟨.string value, _⟩ :: r => return (value, .ofCons _ r)
  | ⟨.number value, _⟩ :: r => return (value, .ofCons _ r)
  | ts => unexpected ts .attributeValue

/-- An attribute selector, read behind its opening bracket. -/
def attributeTest (ts : List Token) : Except Error (Simple × Rest ts) := do
  let start := skipBlank ts
  let (name, r₁) ← ident .attributeName start.1
  let r₂ := skipBlank r₁.1
  let (op, r₃) ← attributeOp r₂.1
  let behind := start.of (r₁.of (r₂.of r₃.toRest)).toRest
  match op with
  | none => return (.attribute name none, behind)
  | some op =>
    let r₄ := skipBlank behind.1
    let (value, r₅) ← attributeValue r₄.1
    let r₆ := skipBlank r₅.1
    let r₇ ← delim ']' .closingBracket r₆.1
    return (.attribute name (some (op, value)),
      behind.of (r₄.of (r₅.of (r₆.of r₇.toRest)).toRest))

/-! ### Compounds -/

/-- The element name in front, if there is one; `*` is a name here. -/
def typeSelector (ts : List Token) : Option String × Rest ts :=
  match ts with
  | ⟨.ident name, _⟩ :: r => (some name, (Tail.ofCons _ r).toRest)
  | ⟨.delim '*', _⟩ :: r => (some "*", (Tail.ofCons _ r).toRest)
  | ts => (none, .all ts)

/-- The text of `:contains`: a string or a name. -/
def containsText (ts : List Token) : Except Error (String × Tail ts) :=
  match ts with
  | ⟨.string text, _⟩ :: r => return (text, .ofCons _ r)
  | ⟨.ident text, _⟩ :: r => return (text, .ofCons _ r)
  | ts => unexpected ts .string

/-- Whether an argument follows, and what is left behind its opening bracket and
the white space there. -/
def openArgument (ts : List Token) : Bool × Rest ts :=
  match ts with
  | ⟨.delim '(', _⟩ :: r => (true, ((Tail.ofCons _ r).of (skipBlank r)).toRest)
  | ts => (false, .all ts)

/-- The end of an argument: its closing bracket, perhaps behind white space. -/
def closeArgument (ts : List Token) : Except Error (Tail ts) := do
  let r := skipBlank ts
  let rest ← delim ')' .closingParenthesis r.1
  return r.tail rest

/-- The simple selectors in front, as many as there are. -/
def simples (ts : List Token) : Except Error (List Simple × Rest ts) :=
  match ts with
  | ⟨.hash name, _⟩ :: r => do
    let (more, rest) ← simples r
    return (.id name :: more, ((Tail.ofCons _ r).of rest).toRest)
  | ⟨.delim '.', _⟩ :: r => do
    let (name, r₁) ← ident .className r
    let (more, rest) ← simples r₁.1
    return (.ofClass name :: more, ((Tail.ofCons _ r).of (r₁.of rest).toRest).toRest)
  | ⟨.delim '[', _⟩ :: r => do
    let (simple, r₁) ← attributeTest r
    let (more, rest) ← simples r₁.1
    return (simple :: more, ((Tail.ofCons _ r).of (r₁.of rest)).toRest)
  | ⟨.delim ':', _⟩ :: ⟨.delim ':', _⟩ :: r => do
    let (name, _) ← ident .pseudoElementName r
    throw (.unsupportedPseudoElement name)
  | ⟨.delim ':', _⟩ :: r => do
    let (written, r₁) ← ident .pseudoClassName r
    let name := written.toLower
    let (hasArgument, r₂) := openArgument r₁.1
    let behind := r₁.of r₂
    let (simple, r₃) ←
      if hasArgument then
        if name = "not" then do
          let (element, r₃) := typeSelector behind.1
          let (inner, r₄) ← simples r₃.1
          let behindInner := r₃.of r₄
          -- Nothing was read, so the error is about what stands here.
          if element.isNone && inner.isEmpty then
            unexpected behindInner.1 .selectorInNot
          else
            let r₅ ← closeArgument behindInner.1
            pure (Simple.not element inner, behind.of (behindInner.of r₅.toRest))
        else if name = "contains" then do
          let (text, r₃) ← containsText behind.1
          let r₄ ← closeArgument r₃.1
          pure (Simple.contains text, behind.of (r₃.of r₄.toRest).toRest)
        else throw (.unsupportedPseudoClass (name ++ "()"))
      else match Pseudo.ofName? name with
        | some p => pure (Simple.pseudo p, behind)
        | none => throw (.unsupportedPseudoClass name)
    let (more, rest) ← simples r₃.1
    return (simple :: more, ((Tail.ofCons _ r).of (r₃.of rest).toRest).toRest)
  | ts => return ([], .all ts)
termination_by ts.length
decreasing_by
  all_goals simp only [List.length_cons]
  all_goals omega

/-- A compound; an empty one is refused. -/
def compound (expected : Expectation) (ts : List Token) : Except Error (Compound × Tail ts) := do
  let (element, r₁) := typeSelector ts
  let (conditions, r₂) ← simples r₁.1
  let rest := r₁.of r₂
  -- A compound that takes no token is no compound.
  if h : rest.1.length < ts.length then
    return (⟨element, conditions⟩, ⟨rest.1, h⟩)
  else unexpected ts expected

/-! ### Chains and lists -/

/-- The combinator in front, with the white space around it; nothing where the
chain ends. White space alone is a combinator if a compound should follow. -/
def combinator? (ts : List Token) : Option (Combinator × Tail ts) :=
  let r := skipBlank ts
  let descendant : Option (Combinator × Tail ts) :=
    if h : r.1.length < ts.length then some (.descendant, ⟨r.1, h⟩) else none
  match h : r.1 with
  | [] => none
  | ⟨.delim ',', _⟩ :: _ => none
  | ⟨.delim c, _⟩ :: t =>
    match Combinator.ofChar? c with
    | some combinator => some (combinator, r.tail ⟨(skipBlank t).1, by
        have := (skipBlank t).2; rw [h, List.length_cons]; omega⟩)
    | none => descendant
  | _ => descendant

/-- The links of a chain behind its first compound. -/
def links (ts : List Token) : Except Error (List (Combinator × Compound) × Rest ts) :=
  match combinator? ts with
  | none => return ([], .all ts)
  | some (combinator, r) => do
    let (next, r₁) ← compound .selectorAfterCombinator r.1
    let (more, rest) ← links r₁.1
    return ((combinator, next) :: more, (r.of (r₁.of rest).toRest).toRest)
termination_by ts.length
decreasing_by have := r.2; have := r₁.2; omega

/-- A chain of compounds. -/
def complex (ts : List Token) : Except Error (Complex × Tail ts) := do
  let (head, r) ← compound .selector ts
  let (tail, rest) ← links r.1
  return (⟨head, tail⟩, r.of rest)

/-- Chains separated by commas, up to the end of the tokens. -/
def group (ts : List Token) : Except Error Group := do
  let start := skipBlank ts
  let (first, r) ← complex start.1
  match _h : (skipBlank r.1).1 with
  | [] => return [first]
  | t :: rest =>
    if t.kind = .delim ',' then return first :: (← group rest)
    else unexpected (t :: rest) .commaOrEnd
termination_by ts.length
decreasing_by
  have := start.2; have := r.2; have := (skipBlank r.1).2
  rw [_h, List.length_cons] at this; omega

/-- The selectors of a text. -/
def parse (css : String) : Except Error Group :=
  if (Text.trim css).isEmpty then throw .empty
  else do group (← tokenize css)

/-- A text that is not blank is parsed from its tokens. -/
theorem parse_eq_group {css : String} {ts : List Token} (hcss : (Text.trim css).isEmpty = false)
    (h : tokenize css = .ok ts) : parse css = group ts := by
  rw [parse, if_neg (by simp [hcss]), h]
  rfl

end XPathLocator.Css
