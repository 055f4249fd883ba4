/-!
# `XPathLocator.Css.Token`: the tokens of a selector

A token carries the value that its text denotes, with every escape resolved,
and the byte position at which its text starts. White space is a token of its
own, since between two compounds it is a combinator.
-/

set_option autoImplicit false

namespace XPathLocator.Css

/-- What a token says. -/
inductive Token.Kind
  /-- A name that may stand as an identifier. -/
  | ident (name : String)
  /-- A name behind `#`. -/
  | hash (name : String)
  /-- A quoted string, without its quotes. -/
  | string (value : String)
  /-- Digits, perhaps with a point and further digits. -/
  | number (text : String)
  /-- Any other character. -/
  | delim (c : Char)
  /-- A run of white space. -/
  | blank
deriving DecidableEq, Repr

/-- A token and the byte position at which it starts. -/
structure Token where
  kind : Token.Kind
  position : Nat
deriving DecidableEq, Repr

/-- A token as error messages show it. -/
def Token.describe (t : Token) : String :=
  match t.kind with
  | .ident name => name
  | .hash name => "#" ++ name
  | .string value => "\"" ++ value ++ "\""
  | .number text => text
  | .delim c => String.singleton c
  | .blank => "whitespace"

end XPathLocator.Css
