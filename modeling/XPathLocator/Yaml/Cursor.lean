import XPathLocator.Yaml.Character
import XPathLocator.Yaml.Node

/-!
# `XPathLocator.Yaml.Cursor`: a place in a YAML text

A `Cursor` knows its line and column, the text ahead and the nodes that were
given a name. A `Reading` is a reader that moves a cursor, or fails. Passing
over a line break starts a new line at the column zero.

Between nodes stand spaces, comments and line breaks. Tabs may stand there too,
but not where they would be taken for the indentation of a block.
-/

set_option autoImplicit false

namespace XPathLocator.Yaml

/-- How far a text has been read, and the nodes that were given a name. -/
structure Cursor where
  line : Nat
  column : Nat
  rest : List Char
  anchors : List (String × Node)

/-- A reader of a part of a text. -/
abbrev Reading := StateT Cursor Option

/-- The cursor behind a character. -/
def Cursor.past (cursor : Cursor) (c : Char) (rest : List Char) : Cursor :=
  if isBreak c then { cursor with line := cursor.line + 1, column := 0, rest }
  else { cursor with column := cursor.column + 1, rest }

/-- Passes over the next characters, as many as asked. -/
def skip : Nat → Reading Unit
  | 0 => pure ()
  | n + 1 => do
    let cursor ← get
    match cursor.rest with
    | [] => failure
    | c :: rest => set (cursor.past c rest); skip n

/-- Whether a text starts with a character that stands alone. -/
def startsAlone (c : Char) : List Char → Bool
  | d :: rest => d = c && atSeparator rest
  | [] => false

/-- Whether a document mark stands here. -/
def Cursor.atMark (cursor : Cursor) : Bool :=
  cursor.column = 0
    && (['-', '-', '-'].isPrefixOf cursor.rest || ['.', '.', '.'].isPrefixOf cursor.rest)
    && atSeparator (cursor.rest.drop 3)

/-- Whether no further node of the document follows here. -/
def Cursor.atEnd (cursor : Cursor) : Bool :=
  cursor.rest.isEmpty || cursor.atMark

/-- Passes over spaces, comments and line breaks. A tab passes where `tabs` says
so; behind a line break it does in flow collections only. -/
def Cursor.toContent (flow tabs comment : Bool) (cursor : Cursor) : List Char → Cursor
  | [] => { cursor with rest := [] }
  | c :: rest =>
    if isBreak c then (cursor.past c rest).toContent flow flow false rest
    else if comment || c = ' ' || (c = '\t' && tabs) then
      (cursor.past c rest).toContent flow tabs comment rest
    else if c = '#' then (cursor.past c rest).toContent flow tabs true rest
    else { cursor with rest := c :: rest }

/-- Passes over what separates nodes. Says whether a line break was passed. -/
def toContent (flow tabs : Bool) : Reading Bool := do
  let cursor ← get
  let next := cursor.toContent flow tabs false cursor.rest
  set next
  return cursor.line < next.line

end XPathLocator.Yaml
