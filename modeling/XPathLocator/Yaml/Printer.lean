import XPathLocator.Json.Printer
import XPathLocator.Text.Blank
import XPathLocator.Yaml.Character
import XPathLocator.Yaml.Scalar

/-!
# `XPathLocator.Yaml.Printer`: values as YAML

`Yaml.write` writes a JSON value in block style, two spaces to a level, an entry
of a mapping to a line, and the items of a sequence behind hyphens. A sequence
under a key stands at the indentation of the key. Empty collections are written
as brackets.

A string gets the first style that can hold it:

* plain, where no part of it would be taken for punctuation and the whole of it
  for nothing but a string;
* single quotes, where no line break meets a space and every character can be
  printed;
* double quotes with escapes, for all else.

A string with a line feed is a literal block instead, line by line, if every
character can be printed and no line ends in a space. Lines are never folded.
-/

set_option autoImplicit false

namespace XPathLocator.Yaml

open Text (utf8Length)

/-! ### Styles -/

/-- The styles of a scalar. -/
inductive Style
  | plain
  | single
  | double
  | literal
deriving DecidableEq, Repr

/-- Whether a colon or a number sign would be taken for punctuation somewhere
in a text, whose first character follows a separator or not. -/
def hasPunctuation (afterSeparator : Bool) : List Char → Bool
  | [] => false
  | c :: s =>
    (c = ':' && atSeparator s) || (c = '#' && afterSeparator)
      || hasPunctuation (isSeparator c) s

/-- Whether the start of a text would be taken for punctuation. -/
def startsAsPunctuation (s : List Char) : Bool :=
  ['-', '-', '-'].isPrefixOf s || ['.', '.', '.'].isPrefixOf s
    || match s with
      | [] => false
      | c :: r => indicators.contains c || ((c = '-' || c = '?') && atSeparator r)

/-- Whether two neighbours in a text are of the given classes, in this order. -/
def hasNeighbours (p q : Char → Bool) (s : List Char) : Bool :=
  (s.zip (s.drop 1)).any fun (a, b) => p a && q b

/-- Whether a character is a space or breaks a line. -/
def isSpaceOrBreak (c : Char) : Bool :=
  c = ' ' || isBreak c

/-- Whether a text can be held by anything but double quotes. -/
def isUnescaped (s : List Char) : Bool :=
  s.all isPrintable && !hasNeighbours (· = ' ') isBreak s

/-- Whether a text can be a plain scalar. -/
def canBePlain (s : List Char) : Bool :=
  isUnescaped s && !s.any isBreak && !s.head?.any isSpaceOrBreak
    && !s.getLast?.any isSpaceOrBreak && !startsAsPunctuation s && !hasPunctuation false s

/-- Whether a text can stand in single quotes. -/
def canBeSingle (s : List Char) : Bool :=
  isUnescaped s && !hasNeighbours isBreak (· = ' ') s

/-- Whether a text can be a literal block. -/
def canBeLiteral (s : List Char) : Bool :=
  isUnescaped s && !s.getLast?.any (· = ' ')

/-- The style of a string. -/
def Style.of (text : String) : Style :=
  let s := text.toList
  if s.contains '\n' then if canBeLiteral s then .literal else .double
  else if canBePlain s && !Scalar.isSpecial text then .plain
  else if canBeSingle s then .single
  else .double

/-! ### Scalars -/

/-- The spaces of an indentation. -/
def pad (indent : Nat) : String :=
  "".pushn ' ' indent

/-- The last characters of a code point in hexadecimal, as many as asked. -/
def hex (width code : Nat) : String :=
  let digits := (Nat.toDigits 16 code).map Char.toUpper
  .ofList (List.replicate (width - digits.length) '0' ++ digits)

/-- One character in double quotes. -/
def escapeChar (c : Char) : String :=
  match c with
  | '\x00' => "\\0"
  | '\x07' => "\\a"
  | '\x08' => "\\b"
  | '\t' => "\\t"
  | '\n' => "\\n"
  | '\x0b' => "\\v"
  | '\x0c' => "\\f"
  | '\r' => "\\r"
  | '\x1b' => "\\e"
  | '"' => "\\\""
  | '\\' => "\\\\"
  | '\u0085' => "\\N"
  | '\u2028' => "\\L"
  | '\u2029' => "\\P"
  | c =>
    if isPrintable c then String.singleton c
    else if c.toNat ≤ 0xFF then "\\x" ++ hex 2 c.toNat
    else if c.toNat ≤ 0xFFFF then "\\u" ++ hex 4 c.toNat
    else "\\U" ++ hex 8 c.toNat

/-- Text behind line breaks, each line that holds anything indented. -/
def indentLines (indent : Nat) (atStart : Bool) : List Char → String
  | [] => ""
  | c :: s =>
    if isBreak c then String.singleton c ++ indentLines indent true s
    else (if atStart then pad indent else "") ++ String.singleton c ++ indentLines indent false s

/-- The inside of single quotes: a quote is written twice, a line is indented. -/
def singleBody (indent : Nat) (s : List Char) : String :=
  let doubled := s.flatMap fun c => if c = '\'' then ['\'', '\''] else [c]
  indentLines indent false doubled ++ if s.getLast?.any isBreak then pad indent else ""

/-- What a literal block says of its end: `-` where the text does not end in a
line break, `+` where it ends in an empty line, nothing where it ends in one
break. -/
def chomping (s : List Char) : String :=
  match s.reverse with
  | [] => "-"
  | [c] => if isBreak c then "+" else "-"
  | c :: d :: _ => if !isBreak c then "-" else if isBreak d then "+" else ""

/-- A literal block, with its indentation given where the text hides it. -/
def literal (indent : Nat) (s : List Char) : String :=
  "|" ++ (if s.head?.any isSpaceOrBreak then "2" else "") ++ chomping s ++ "\n"
    ++ indentLines indent true s

/-- A string, whose lines after the first are indented. -/
def scalar (indent : Nat) (text : String) : String :=
  match Style.of text with
  | .plain => text
  | .single => "'" ++ singleBody indent text.toList ++ "'"
  | .double => "\"" ++ String.join (text.toList.map escapeChar) ++ "\""
  | .literal => literal indent text.toList

/-! ### Collections -/

/-- Whether a key can stand in front of its colon: on one line, and not too
long. Another key gets a question mark and a line of its own. -/
def isSimpleKey (key : String) : Bool :=
  !key.toList.any isBreak && utf8Length key.toList ≤ 128

/-- A text with a line break at its end. One that ends in a line break, as a
literal block may, needs no other. -/
def closeLine (text : String) : String :=
  if text.toList.getLast?.any isBreak then text else text ++ "\n"

/-- Joins lines at an indentation. -/
def joinLines (indent : Nat) : List String → String
  | [] => ""
  | [line] => line
  | line :: next :: rest =>
    closeLine line ++ pad indent ++ joinLines indent (next :: rest)

mutual

/-- A value behind an indicator. A collection starts on the line of the
indicator and goes on at the indentation given. -/
def block (indent : Nat) : Json → String
  | .null => "null"
  | .bool b => Json.boolText b
  | .number n => n.text
  | .string s => scalar indent s
  | .array [] => "[]"
  | .object [] => "\x7b\x7d"
  | .array (item :: rest) => joinLines indent (items indent (item :: rest))
  | .object (entry :: rest) => joinLines indent (entries indent (entry :: rest))

/-- The lines of a sequence. -/
def items (indent : Nat) : List Json → List String
  | [] => []
  | item :: rest => ("- " ++ block (indent + 2) item) :: items indent rest

/-- The lines of a mapping. A collection under a key starts on a line of its
own, a sequence at the indentation of the key. -/
def entries (indent : Nat) : List (String × Json) → List String
  | [] => []
  | (key, value) :: rest =>
    (if isSimpleKey key then
      scalar (indent + 2) key ++ ":" ++
        match value with
        | .array (item :: more) =>
          "\n" ++ pad indent ++ joinLines indent (items indent (item :: more))
        | .object (entry :: more) =>
          "\n" ++ pad (indent + 2)
            ++ joinLines (indent + 2) (entries (indent + 2) (entry :: more))
        | other => " " ++ block (indent + 2) other
    else
      joinLines indent
        ["? " ++ scalar (indent + 2) key, ": " ++ block (indent + 2) value]) :: entries indent rest

end

/-- A document with one value, without the line break at its end. -/
def print (value : Json) : String :=
  match value with
  | .array _ | .object _ => block 0 value
  | other => block 2 other

/-- A document with one value. -/
def write (value : Json) : String :=
  closeLine (print value)

end XPathLocator.Yaml
