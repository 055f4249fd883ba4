/-!
# `XPathLocator.Yaml.Scalar`: what a plain scalar is read as

A YAML scalar without quotes can denote something other than its text: nothing,
a truth value or a number. `isNull`, `toBool?` and `isNumber` say which do, by
the core schema: `~` and three spellings of `null`, three spellings each of
`true` and `false`, whole numbers in four bases, and decimal numbers that a
double can hold. A number never starts with a superfluous zero.

`Scalar.isSpecial` collects them: a text of this kind has to be quoted, and so
has a run of digits with leading zeros, which some readers take for a number.
-/

set_option autoImplicit false

namespace XPathLocator.Yaml.Scalar

/-- Whether a plain scalar denotes nothing. -/
def isNull (text : String) : Bool :=
  ["", "~", "null", "Null", "NULL"].contains text

/-- The truth value that a plain scalar denotes. -/
def toBool? (text : String) : Option Bool :=
  if ["true", "True", "TRUE"].contains text then some true
  else if ["false", "False", "FALSE"].contains text then some false
  else none

/-- The text behind a plus or minus sign, if it starts with one. -/
def dropSign : List Char → List Char
  | '+' :: s => s
  | '-' :: s => s
  | s => s

/-- Whether a text is a sign, if any, and digits of which the first is a
superfluous zero. -/
def hasLeadingZero (text : List Char) : Bool :=
  match dropSign text with
  | '0' :: d :: ds => (d :: ds).all Char.isDigit
  | _ => false

/-- The value of a digit in a base, if it is one. -/
def digit? (base : Nat) (c : Char) : Option Nat :=
  let value :=
    if c.isDigit then c.toNat - '0'.toNat
    else if 'a' ≤ c && c ≤ 'f' then c.toNat - 'a'.toNat + 10
    else if 'A' ≤ c && c ≤ 'F' then c.toNat - 'A'.toNat + 10
    else base
  if value < base then some value else none

/-- The number that at least one digit in a base denotes. -/
def ofDigits? (base : Nat) : List Char → Option Nat
  | [] => none
  | digits => digits.foldlM (fun n c => return n * base + (← digit? base c)) 0

/-- The base and the digits of a whole number with a base mark. -/
def marked? : List Char → Option (Nat × List Char)
  | '0' :: 'x' :: digits => some (16, digits)
  | '0' :: 'o' :: digits => some (8, digits)
  | '0' :: 'b' :: digits => some (2, digits)
  | _ => none

/-- Whether a text is a whole number with a base mark, of at most 128 bits. -/
def isMarkedWhole (text : List Char) : Bool :=
  let (negative, digits) := match text with
    | '-' :: s => (true, s)
    | '+' :: s => (false, s)
    | s => (false, s)
  match (marked? digits).bind fun (base, ds) => ofDigits? base ds with
  | some n => if negative then n ≤ Nat.pow 2 127 else n < Nat.pow 2 128
  | none => false

/-- The digits and the decimal exponent of an unsigned decimal number: digits
with at most one point, at least one of them, and perhaps an exponent. -/
def decimal? (text : List Char) : Option (List Char × Int) := do
  let whole := text.takeWhile Char.isDigit
  let behind := text.dropWhile Char.isDigit
  let (fraction, behind) := match behind with
    | '.' :: s => (s.takeWhile Char.isDigit, s.dropWhile Char.isDigit)
    | s => ([], s)
  let digits := whole ++ fraction
  if digits.isEmpty then none
  else match behind with
    | [] => some (digits, -fraction.length)
    | e :: s =>
      if e = 'e' || e = 'E' then
        let n ← ofDigits? 10 (dropSign s)
        some (digits, (if s.head? = some '-' then -(n : Int) else n) - fraction.length)
      else none

/-- The least number that rounds to no finite double. -/
def overflow : Nat := Nat.pow 2 1024 - Nat.pow 2 970

/-- Whether `digits · 10^exponent` rounds to a finite double. Far from the
bound the number of digits decides. -/
def isFinite (digits : List Char) (exponent : Int) : Bool :=
  let digits := digits.dropWhile (· = '0')
  let size := digits.length + exponent
  if digits.isEmpty || size < 300 then true
  else if 320 < size then false
  else
    let n := (ofDigits? 10 digits).getD 0
    n * Nat.pow 10 exponent.toNat < overflow * Nat.pow 10 (-exponent).toNat

/-- Whether a text is a decimal number, with a sign or without one. -/
def isDecimal (text : List Char) : Bool :=
  match decimal? (dropSign text) with
  | some (digits, exponent) => !hasLeadingZero text && isFinite digits exponent
  | none => false

/-- The spellings of infinity and of what is no number. -/
def nonFinite : List String :=
  [".inf", ".Inf", ".INF", "+.inf", "+.Inf", "+.INF", "-.inf", "-.Inf", "-.INF",
    ".nan", ".NaN", ".NAN"]

/-- Whether a plain scalar denotes a number. -/
def isNumber (text : String) : Bool :=
  isMarkedWhole text.toList || isDecimal text.toList || nonFinite.contains text

/-- Whether a text must not stand as a plain scalar, because it would be read
as something else. -/
def isSpecial (text : String) : Bool :=
  isNull text || (toBool? text).isSome || isNumber text || hasLeadingZero text.toList

end XPathLocator.Yaml.Scalar
