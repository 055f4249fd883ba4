import XPathLocator.Css.Selector.Parser

/-!
# `XPathLocator.Proofs.Css.Cursor`: the parser as a program with a cursor

The tokens stand still here and a cursor moves over them, in loops that go round until they
are left and with a compound inside `:not` read as any other. Nothing in this module says that
this comes to an end. A `Walk` is told how many rounds its loops may have and how deep the
compounds may be nested, and it has no result if that is not enough. Where it ends, it says
where the cursor stands then, with an error as well as with a value.

`compound` tells "there is no compound here" from an error. Its callers make an error of that
about the token at the cursor (`required`), so it matters that the cursor has not moved.
-/

set_option autoImplicit false

namespace XPathLocator.Css.Cursor

open Token (Kind)

/-- What starts from a cursor: a value or an error and the cursor then, or nothing. -/
abbrev Moves (α : Type) := ExceptT Error (StateT Nat Option) α

/-- What starts from a cursor, with a number that limits its loops and the depth of `:not`. -/
abbrev Walk (α : Type) := ReaderT Nat Moves α

/-- It has not come to an end. -/
def never {α : Type} : Moves α :=
  fun _ => none

/-- Goes one level deeper. -/
def deeper {α : Type} (walk : Walk α) : Walk α
  | 0 => never
  | n + 1 => walk n

/-- What one round of a loop comes to: the loop is left, with or without one more item, or it
goes on behind an item. -/
inductive Round (α : Type)
  | leave
  | last (a : α)
  | more (a : α)

/-- The items of a loop. It has one round, and `n` more if it goes on for so long. -/
def rounds {α : Type} (round : Moves (Round α)) (n : Nat) : Moves (List α) := do
  match ← round with
  | .leave => return []
  | .last a => return [a]
  | .more a =>
    match n with
    | 0 => never
    | n + 1 =>
      let items ← rounds round n
      return a :: items

/-- A loop. -/
def loop {α : Type} (round : Walk (Round α)) : Walk (List α) :=
  fun n => rounds (round n) n

section
variable (ts : List Token)

/-! ### Single tokens -/

/-- The token at the cursor, if it is not behind the last one. -/
def peek : Walk (Option Token) := do
  return ts[← get]?

/-- Moves the cursor over one token. -/
def advance : Walk Unit :=
  modify (· + 1)

/-- Takes the token at the cursor, if there is one. -/
def next : Walk (Option Token) := do
  match ← peek ts with
  | some t =>
    advance
    return some t
  | none => return none

/-- Passes over one token of white space. -/
def blank : Walk (Round Unit) := do
  match ← peek ts with
  | some t =>
    if t.kind = .blank then
      advance
      return .more ()
    else return .leave
  | none => return .leave

/-- Passes over white space, and says whether there was any. -/
def skipBlanks : Walk Bool := do
  let passed ← loop (blank ts)
  return !passed.isEmpty

/-- Refuses a token, or the end of the tokens. -/
def refuse {α : Type} (found : Option Token) (expected : Expectation) : Walk α :=
  fun _ i => some (unexpected found.toList expected, i)

/-- What was found; if it is nothing, the token at the cursor is refused. -/
def required {α : Type} (expected : Expectation) : Option α → Walk α
  | some a => return a
  | none => do refuse (← peek ts) expected

/-- Takes a token that is asked for. Another one is taken as well, before it is refused. -/
def take {α : Type} (accept : Kind → Option α) (expected : Expectation) : Walk α := do
  let found ← next ts
  match found.bind fun t => accept t.kind with
  | some a => return a
  | none => refuse found expected

/-- Takes an identifier. -/
def ident : Expectation → Walk String :=
  take ts fun
    | .ident name => some name
    | _ => none

/-- Takes the given character. -/
def delim (c : Char) : Expectation → Walk Unit :=
  take ts fun k => if k = .delim c then some () else none

/-! ### Attributes -/

/-- Takes the operator of an attribute selector, or the bracket that closes it. -/
def attributeOp : Walk (Option AttributeOp) := do
  let found ← next ts
  match found.map Token.kind with
  | some (.delim c) =>
    if c = ']' then return none
    else if c = '=' then return some .equals
    else match AttributeOp.ofChar? c with
      | some op =>
        delim ts '=' .equalsSign
        return some op
      | none => refuse found .attributeOperator
  | _ => refuse found .attributeOperator

/-- Takes the value of an attribute selector. -/
def attributeValue : Walk String :=
  take ts (fun
    | .ident value | .string value | .number value => some value
    | _ => none) .attributeValue

/-- Takes an attribute selector behind its opening bracket. -/
def attributeTest : Walk Simple := do
  let _ ← skipBlanks ts
  let name ← ident ts .attributeName
  let _ ← skipBlanks ts
  match ← attributeOp ts with
  | none => return .attribute name none
  | some op =>
    let _ ← skipBlanks ts
    let value ← attributeValue ts
    let _ ← skipBlanks ts
    delim ts ']' .closingBracket
    return .attribute name (some (op, value))

/-! ### Pseudo-classes -/

/-- Takes the opening of an argument, if there is one. -/
def opens : Walk Bool := do
  match (← peek ts).map Token.kind with
  | some (.delim c) =>
    if c = '(' then
      advance
      let _ ← skipBlanks ts
      return true
    else return false
  | _ => return false

/-- Takes the end of an argument. -/
def close : Walk Unit := do
  let _ ← skipBlanks ts
  delim ts ')' .closingParenthesis

/-- Takes the text of `:contains`. -/
def containsText : Walk String :=
  take ts (fun
    | .string text | .ident text => some text
    | _ => none) .string

/-- What a pseudo-class goes on with behind its name. -/
inductive PseudoHead
  /-- Nothing, since it takes no argument. -/
  | plain (p : Pseudo)
  /-- The argument of `:not`. -/
  | not
  /-- The argument of `:contains`. -/
  | contains

/-- Takes what stands behind the name of a pseudo-class. -/
def head (name : String) : Walk PseudoHead := do
  if ← opens ts then
    if name = "not" then return .not
    else if name = "contains" then return .contains
    else throw (.unsupportedPseudoClass (name ++ "()"))
  else match Pseudo.ofName? name with
    | some p => return .plain p
    | none => throw (.unsupportedPseudoClass name)

/-- Takes the name of a pseudo-class behind its colon, and the opening of its argument. -/
def pseudoHead : Walk PseudoHead := do
  if (← peek ts).map Token.kind = some (.delim ':') then
    advance
    let name ← ident ts .pseudoElementName
    throw (.unsupportedPseudoElement name)
  else
    let name ← ident ts .pseudoClassName
    head ts name.toLower

section
variable (inner : Walk (Option Compound))

/-- Takes a pseudo-class behind its colon, with `inner` for the compound in `:not`. -/
def pseudoClass : Walk Simple := do
  match ← pseudoHead ts with
  | .plain p => return .pseudo p
  | .not =>
    let found ← inner
    let c ← required ts .selectorInNot found
    close ts
    return .not c.element c.simples
  | .contains =>
    let text ← containsText ts
    close ts
    return .contains text

/-! ### Compounds -/

/-- The compound that was read, or nothing if there was none. -/
def compoundOf? (element : Option String) (simples : List Simple) : Option Compound :=
  if element.isNone && simples.isEmpty then none else some ⟨element, simples⟩

/-- Takes the element name at the cursor, if there is one. -/
def element : Walk (Option String) := do
  match (← peek ts).map Token.kind with
  | some (.ident name) =>
    advance
    return some name
  | some (.delim c) =>
    if c = '*' then
      advance
      return some "*"
    else return none
  | _ => return none

/-- Takes the simple selector at the cursor, if one starts there. -/
def simple : Walk (Round Simple) := do
  match (← peek ts).map Token.kind with
  | some (.hash name) =>
    advance
    return .more (.id name)
  | some (.delim c) =>
    if c = '.' then
      advance
      let name ← ident ts .className
      return .more (.ofClass name)
    else if c = '[' then
      advance
      let s ← attributeTest ts
      return .more s
    else if c = ':' then
      advance
      let s ← pseudoClass ts inner
      return .more s
    else return .leave
  | _ => return .leave

/-- Takes the compound at the cursor; nothing if none starts there. -/
def compoundWith : Walk (Option Compound) := do
  let element ← element ts
  let simples ← loop (simple ts inner)
  return compoundOf? element simples

end

/-- Takes the compound at the cursor, and each one inside of it in the same way. -/
def compound : Nat → Moves (Option Compound)
  | 0 => compoundWith ts (fun _ => never) 0
  | n + 1 => compoundWith ts (fun _ => compound n) (n + 1)

/-! ### Chains and lists -/

/-- The combinator that a token stands for. -/
def combinatorOf? : Kind → Option Combinator
  | .delim c => Combinator.ofChar? c
  | _ => none

/-- Takes the combinator at the cursor with the white space around it; nothing where the
chain ends, behind white space there. -/
def combinator : Walk (Option Combinator) := do
  let blank ← skipBlanks ts
  match ← peek ts with
  | none => return none
  | some t =>
    if t.kind = .delim ',' then return none
    else match combinatorOf? t.kind with
      | some c =>
        advance
        let _ ← skipBlanks ts
        return some c
      | none => return if blank then some .descendant else none

/-- Takes a combinator and the compound behind it. -/
def link : Walk (Round (Combinator × Compound)) := do
  match ← combinator ts with
  | some c =>
    let found ← compound ts
    let next ← required ts .selectorAfterCombinator found
    return .more (c, next)
  | none => return .leave

/-- Takes a chain of compounds and the white space behind it. -/
def complex : Walk Complex := do
  let found ← compound ts
  let head ← required ts .selector found
  let tail ← loop (link ts)
  return ⟨head, tail⟩

/-- Takes a chain and the comma behind it. The chain is the last one if the tokens end there. -/
def item : Walk (Round Complex) := do
  let _ ← skipBlanks ts
  let c ← complex ts
  let _ ← skipBlanks ts
  let found ← next ts
  match found with
  | none => return .last c
  | some t =>
    if t.kind = .delim ',' then return .more c
    else refuse found .commaOrEnd

/-- Takes chains separated by commas, up to the end of the tokens. -/
def group : Walk Group :=
  loop (item ts)

end

end XPathLocator.Css.Cursor
