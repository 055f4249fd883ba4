import XPathLocator.Css.Selector.Parser

/-!
# `XPathLocator.Proofs.Css.Grammar`: selectors as a grammar of tokens

The grammar that the parser is for, stated apart from it and on the kinds of tokens
only, since positions matter to errors alone. White space may stand around commas and
combinators, inside brackets, and at both ends of a group. Between two compounds it is
the descendant combinator, unless another combinator stands in it.

The terminals are written here as well: the signs of the operators (`OpSign`) and of the
combinators (`CombinatorSign`), and the names of the pseudo-classes (`PseudoName`).

`SimplesKinds` is the one recursive part. It is a list of simple selectors, so its
constructors add one in front, and the argument of `:not` is such a list again.
-/

set_option autoImplicit false

namespace XPathLocator.Css

open Token (Kind)

/-- White space, perhaps none. -/
def Blanks (ks : List Kind) : Prop :=
  ∀ k ∈ ks, k = .blank

/-- White space may be absent. -/
theorem blanks_nil : Blanks [] := by
  simp [Blanks]

/-- An element name, or none; `*` is a name here. -/
inductive ElementKinds : List Kind → Option String → Prop
  | none : ElementKinds [] none
  | ident (name : String) : ElementKinds [.ident name] (some name)
  | any : ElementKinds [.delim '*'] (some "*")

/-- The sign of an operator that is more than an equals sign. -/
inductive OpSign : Char → AttributeOp → Prop
  | includes : OpSign '~' .includes
  | dashMatch : OpSign '|' .dashMatch
  | startsWith : OpSign '^' .startsWith
  | endsWith : OpSign '$' .endsWith
  | contains : OpSign '*' .contains

/-- The operator of an attribute selector. Nothing stands between its sign and the equals sign. -/
inductive OpKinds : List Kind → AttributeOp → Prop
  | equals : OpKinds [.delim '='] .equals
  | other {c : Char} {op : AttributeOp} (h : OpSign c op) : OpKinds [.delim c, .delim '='] op

/-- The value of an attribute selector. -/
inductive ValueKind : Kind → String → Prop
  | ident (value : String) : ValueKind (.ident value) value
  | string (value : String) : ValueKind (.string value) value
  | number (value : String) : ValueKind (.number value) value

/-- The text of `:contains`. -/
inductive TextKind : Kind → String → Prop
  | string (text : String) : TextKind (.string text) text
  | ident (text : String) : TextKind (.ident text) text

/-- An attribute selector behind its opening bracket. -/
inductive AttributeKinds : List Kind → Simple → Prop
  | bare {b₁ b₂ : List Kind} (name : String) (h₁ : Blanks b₁) (h₂ : Blanks b₂) :
      AttributeKinds (b₁ ++ .ident name :: (b₂ ++ [.delim ']'])) (.attribute name none)
  | test {b₁ b₂ b₃ b₄ ops : List Kind} {op : AttributeOp} {k : Kind} {value : String}
      (name : String) (h₁ : Blanks b₁) (h₂ : Blanks b₂) (hop : OpKinds ops op)
      (h₃ : Blanks b₃) (hvalue : ValueKind k value) (h₄ : Blanks b₄) :
      AttributeKinds (b₁ ++ .ident name :: (b₂ ++ (ops ++ (b₃ ++ k :: (b₄ ++ [.delim ']'])))))
        (.attribute name (some (op, value)))

/-- The names of the pseudo-classes without an argument, in lower case. A state of interaction has
several names. -/
inductive PseudoName : String → Pseudo → Prop
  | root : PseudoName "root" .root
  | firstChild : PseudoName "first-child" .firstChild
  | lastChild : PseudoName "last-child" .lastChild
  | onlyChild : PseudoName "only-child" .onlyChild
  | firstOfType : PseudoName "first-of-type" (.ofType .first)
  | lastOfType : PseudoName "last-of-type" (.ofType .last)
  | onlyOfType : PseudoName "only-of-type" (.ofType .only)
  | empty : PseudoName "empty" .empty
  | link : PseudoName "link" .link
  | checked : PseudoName "checked" .checked
  | disabled : PseudoName "disabled" .disabled
  | enabled : PseudoName "enabled" .enabled
  | hover : PseudoName "hover" .interaction
  | active : PseudoName "active" .interaction
  | focus : PseudoName "focus" .interaction
  | visited : PseudoName "visited" .interaction
  | target : PseudoName "target" .interaction

/-- The simple selectors of a compound, in order. Names of pseudo-classes are read in any
case. -/
inductive SimplesKinds : List Kind → List Simple → Prop
  | nil : SimplesKinds [] []
  | id {ks : List Kind} {ss : List Simple} (name : String) (more : SimplesKinds ks ss) :
      SimplesKinds (.hash name :: ks) (.id name :: ss)
  | ofClass {ks : List Kind} {ss : List Simple} (name : String) (more : SimplesKinds ks ss) :
      SimplesKinds (.delim '.' :: .ident name :: ks) (.ofClass name :: ss)
  | attr {as ks : List Kind} {s : Simple} {ss : List Simple} (h : AttributeKinds as s)
      (more : SimplesKinds ks ss) : SimplesKinds (.delim '[' :: (as ++ ks)) (s :: ss)
  | pseudo {ks : List Kind} {ss : List Simple} {name : String} {p : Pseudo}
      (h : PseudoName name.toLower p) (more : SimplesKinds ks ss) :
      SimplesKinds (.delim ':' :: .ident name :: ks) (.pseudo p :: ss)
  | contains {b₁ b₂ ks : List Kind} {ss : List Simple} {name text : String} {k : Kind}
      (h : name.toLower = "contains") (h₁ : Blanks b₁) (htext : TextKind k text)
      (h₂ : Blanks b₂) (more : SimplesKinds ks ss) :
      SimplesKinds
        (.delim ':' :: .ident name :: .delim '(' :: (b₁ ++ k :: (b₂ ++ .delim ')' :: ks)))
        (.contains text :: ss)
  | not {b₁ es is b₂ ks : List Kind} {element : Option String} {inner ss : List Simple}
      {name : String} (h : name.toLower = "not") (h₁ : Blanks b₁)
      (helement : ElementKinds es element) (hinner : SimplesKinds is inner)
      (hne : element = none → inner ≠ []) (h₂ : Blanks b₂) (more : SimplesKinds ks ss) :
      SimplesKinds
        (.delim ':' :: .ident name :: .delim '(' ::
          (b₁ ++ (es ++ (is ++ (b₂ ++ .delim ')' :: ks)))))
        (.not element inner :: ss)

/-- A compound: an element name or simple selectors, or both. -/
inductive CompoundKinds : List Kind → Compound → Prop
  | mk {es ss : List Kind} {element : Option String} {simples : List Simple}
      (helement : ElementKinds es element) (hsimples : SimplesKinds ss simples)
      (hne : element = none → simples ≠ []) : CompoundKinds (es ++ ss) ⟨element, simples⟩

/-- The sign of a combinator. The descendant combinator has none. -/
inductive CombinatorSign : Char → Combinator → Prop
  | child : CombinatorSign '>' .child
  | nextSibling : CombinatorSign '+' .nextSibling
  | laterSibling : CombinatorSign '~' .laterSibling

/-- A combinator with the white space around it. -/
inductive CombinatorKinds : List Kind → Combinator → Prop
  | descendant {b : List Kind} (hb : Blanks b) (hne : b ≠ []) : CombinatorKinds b .descendant
  | other {b₁ b₂ : List Kind} {c : Char} {combinator : Combinator} (h₁ : Blanks b₁)
      (h : CombinatorSign c combinator) (h₂ : Blanks b₂) :
      CombinatorKinds (b₁ ++ .delim c :: b₂) combinator

/-- The links of a chain behind its first compound. -/
inductive LinksKinds : List Kind → List (Combinator × Compound) → Prop
  | nil : LinksKinds [] []
  | cons {cs ks ls : List Kind} {combinator : Combinator} {next : Compound}
      {tail : List (Combinator × Compound)} (h : CombinatorKinds cs combinator)
      (hnext : CompoundKinds ks next) (more : LinksKinds ls tail) :
      LinksKinds (cs ++ (ks ++ ls)) ((combinator, next) :: tail)

/-- A chain of compounds. -/
inductive ComplexKinds : List Kind → Complex → Prop
  | mk {hs ts : List Kind} {head : Compound} {tail : List (Combinator × Compound)}
      (hhead : CompoundKinds hs head) (htail : LinksKinds ts tail) :
      ComplexKinds (hs ++ ts) ⟨head, tail⟩

/-- Chains with commas between them. -/
inductive GroupKinds : List Kind → Group → Prop
  | one {b₁ cs b₂ : List Kind} {c : Complex} (h₁ : Blanks b₁) (hc : ComplexKinds cs c)
      (h₂ : Blanks b₂) : GroupKinds (b₁ ++ (cs ++ b₂)) [c]
  | cons {b₁ cs b₂ gs : List Kind} {c : Complex} {g : Group} (h₁ : Blanks b₁)
      (hc : ComplexKinds cs c) (h₂ : Blanks b₂) (more : GroupKinds gs g) :
      GroupKinds (b₁ ++ (cs ++ (b₂ ++ .delim ',' :: gs))) (c :: g)

end XPathLocator.Css
