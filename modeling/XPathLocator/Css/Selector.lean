import XPathLocator.Css.Error

/-!
# `XPathLocator.Css.Selector`: the selectors that are compiled

A group is a list of complex selectors; a complex selector is a chain of
compounds with a combinator before each but the first; a compound is an element
name, if there is one, and simple selectors that all speak of one element.
Everything stands in source order, which is also the order of the XPath.

Names and values are those the text denotes, with escapes resolved and letters
as written.
-/

set_option autoImplicit false

namespace XPathLocator.Css

/-- How an attribute's value is compared. -/
inductive AttributeOp
  /-- With `=`, it is the given value. -/
  | equals
  /-- With `~=`, the given value is one of its words. -/
  | includes
  /-- With `|=`, it is the given value, or starts with that and a hyphen. -/
  | dashMatch
  /-- With `^=`, it starts with the given value. -/
  | startsWith
  /-- With `$=`, it ends with the given value. -/
  | endsWith
  /-- With `*=`, the given value occurs in it. -/
  | contains
deriving DecidableEq, Repr

/-- The operator as a selector writes it. -/
def AttributeOp.text : AttributeOp → String
  | .equals => "="
  | .includes => "~="
  | .dashMatch => "|="
  | .startsWith => "^="
  | .endsWith => "$="
  | .contains => "*="

/-- The operator that a character makes together with an equals sign. -/
def AttributeOp.ofChar? : Char → Option AttributeOp
  | '~' => some .includes
  | '|' => some .dashMatch
  | '^' => some .startsWith
  | '$' => some .endsWith
  | '*' => some .contains
  | _ => none

/-- The pseudo-classes that take no argument. -/
inductive Pseudo
  | root
  | firstChild
  | lastChild
  | onlyChild
  /-- A place among the siblings of the same element name. -/
  | ofType (place : TypePlace)
  | empty
  | link
  | checked
  | disabled
  | enabled
  /-- A state of interaction such as `:hover`, which no element of a document at
  rest has. -/
  | interaction
deriving DecidableEq, Repr

namespace Pseudo

/-- The names of the pseudo-classes, in lower case. -/
def names : List (String × Pseudo) :=
  [("root", .root),
   ("first-child", .firstChild),
   ("last-child", .lastChild),
   ("only-child", .onlyChild),
   (TypePlace.first.name, .ofType .first),
   (TypePlace.last.name, .ofType .last),
   (TypePlace.only.name, .ofType .only),
   ("empty", .empty),
   ("link", .link),
   ("checked", .checked),
   ("disabled", .disabled),
   ("enabled", .enabled),
   ("hover", .interaction),
   ("active", .interaction),
   ("focus", .interaction),
   ("visited", .interaction),
   ("target", .interaction)]

/-- The pseudo-class of a name in lower case. -/
def ofName? (name : String) : Option Pseudo :=
  names.lookup name

/-- A name of a pseudo-class. -/
def name : Pseudo → String
  | .root => "root"
  | .firstChild => "first-child"
  | .lastChild => "last-child"
  | .onlyChild => "only-child"
  | .ofType place => place.name
  | .empty => "empty"
  | .link => "link"
  | .checked => "checked"
  | .disabled => "disabled"
  | .enabled => "enabled"
  | .interaction => "hover"

end Pseudo

/-- One condition on an element. -/
inductive Simple
  /-- Written `#name`. -/
  | id (name : String)
  /-- Written `.name`. -/
  | ofClass (name : String)
  /-- Written `[name]`, or with an operator and a value. -/
  | attribute (name : String) (test : Option (AttributeOp × String))
  /-- A pseudo-class without an argument. -/
  | pseudo (p : Pseudo)
  /-- Written `:contains(text)`. -/
  | contains (text : String)
  /-- Written `:not(…)`, of the compound with this element and these conditions. -/
  | not (element : Option String) (simples : List Simple)
deriving BEq, Repr

/-- A test of one element: of its name, unless none is given, and of each
condition. The name `*` is any name. -/
structure Compound where
  element : Option String
  simples : List Simple
deriving BEq, Repr

/-- How an element stands to the one before it in a chain. -/
inductive Combinator
  | descendant
  | child
  | nextSibling
  | laterSibling
deriving DecidableEq, Repr

/-- The combinator as a selector writes it. -/
def Combinator.text : Combinator → String
  | .descendant => " "
  | .child => ">"
  | .nextSibling => "+"
  | .laterSibling => "~"

/-- The combinator that a character stands for. -/
def Combinator.ofChar? : Char → Option Combinator
  | '>' => some .child
  | '+' => some .nextSibling
  | '~' => some .laterSibling
  | _ => none

/-- A chain of compounds; the last one describes the elements selected. -/
structure Complex where
  head : Compound
  tail : List (Combinator × Compound)
deriving BEq, Repr

/-- The selectors of a comma-separated list. -/
abbrev Group := List Complex

end XPathLocator.Css
