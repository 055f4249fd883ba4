import XPathLocator.Yaml.BlockText
import XPathLocator.Yaml.Flow

/-!
# `XPathLocator.Yaml.Reader`: reading YAML documents

`Yaml.read?` reads a text that holds one document and gives its root node; a
text without a document has the absent node. It knows block and flow
collections, all five styles of scalars, comments, anchors and aliases, tags,
directives and document marks.

Block structure is told by columns. A collection is read at the column of its
first item or key, and goes on as long as lines start at that column. A key is
recognised after the fact: a node that ends on its own line and is followed by
a colon is one.

The nodes call each other, so the readers count their depth down from a bound
that the length of the text gives, and that no text reaches.
-/

set_option autoImplicit false

namespace XPathLocator.Yaml

/-! ### Block collections -/

mutual

/-- A node under a node at the column `parent`. `keys` says whether a key, or a
collection marked by a hyphen, may start here. -/
def node (bound : Nat) (parent : Int) (keys : Bool) : Reading Node := do
  match bound with
  | 0 => failure
  | bound + 1 =>
    let start ← get
    if startsAlone '-' start.rest then
      if keys then return .sequence (← blockItems bound start.column false) else failure
    else if startsAlone '?' start.rest || startsAlone ':' start.rest then
      if keys then return .mapping (← blockEntries bound start.column) else failure
    else
      let props ← properties false
      -- Without properties the reader stands on the node already, and a tab here
      -- would be indentation.
      let crossed ← if props.isEmpty then pure false else toContent false true
      let cursor ← get
      if !props.isEmpty && (cursor.atEnd || (crossed && cursor.column ≤ parent)) then
        props.attach .absent
      else if crossed then props.attach (← node bound parent true)
      else if (← at? '|') || (← at? '>') then
        props.attach (.scalar none false (← blockScalar parent))
      else
        -- What is read now is a key if a colon follows on the same line.
        let first ← flowNode bound false (parent + 1).toNat
        let line := (← get).line
        skipBlanks
        if startsAlone ':' (← get).rest && line = start.line then
          if keys then
            let key ← props.attach first
            skip 1
            let value ← blockValue bound start.column
            return .mapping ((key, value) :: (← blockEntries bound start.column))
          else failure
        else props.attach first

/-- The value behind the colon of a key at a column. A sequence may stand at the
column of its key. -/
def blockValue (bound : Nat) (column : Nat) : Reading Node := do
  match bound with
  | 0 => failure
  | bound + 1 =>
    let crossed ← toContent false true
    let cursor ← get
    if cursor.atEnd then return .absent
    -- On the line of its key a value is no collection that goes by columns.
    else if !crossed then node bound column false
    else if column < cursor.column then node bound column true
    else if cursor.column = column && startsAlone '-' cursor.rest then
      return .sequence (← blockItems bound column true)
    else return .absent

/-- The node behind a hyphen, a question mark or the colon of an entry that has
one, at a column. -/
def blockPart (bound : Nat) (column : Nat) : Reading Node := do
  match bound with
  | 0 => failure
  | bound + 1 =>
    skip 1
    let crossed ← toContent false false
    let cursor ← get
    if cursor.atEnd || (crossed && cursor.column ≤ column) then return .absent
    else node bound column true

/-- The items of a sequence at a column, from a hyphen on. One that stands at
the column of its key ends where the next key starts. -/
def blockItems (bound : Nat) (column : Nat) (underKey : Bool) : Reading (List Node) := do
  match bound with
  | 0 => failure
  | bound + 1 =>
    let item ← blockPart bound column
    let _ ← toContent false false
    let cursor ← get
    if cursor.atEnd || cursor.column < column then return [item]
    else if cursor.column = column && startsAlone '-' cursor.rest then
      return item :: (← blockItems bound column underKey)
    else if cursor.column = column && underKey then return [item]
    else failure

/-- The further entries of a mapping at a column. -/
def blockEntries (bound : Nat) (column : Nat) : Reading (List (Node × Node)) := do
  match bound with
  | 0 => failure
  | bound + 1 =>
    let _ ← toContent false false
    let cursor ← get
    if cursor.atEnd || cursor.column < column then return []
    else if column < cursor.column then failure
    else if startsAlone '?' cursor.rest then
      let key ← blockPart bound column
      let _ ← toContent false false
      let next ← get
      let value ←
        if next.column = column && startsAlone ':' next.rest then blockPart bound column
        else pure .absent
      return (key, value) :: (← blockEntries bound column)
    else
      let key ←
        if startsAlone ':' cursor.rest then pure .absent
        else do
          let props ← properties false
          let key ← flowNode bound false (column + 1)
          let line := (← get).line
          skipBlanks
          if startsAlone ':' (← get).rest && line = cursor.line then props.attach key
          else failure
      skip 1
      let value ← blockValue bound column
      return (key, value) :: (← blockEntries bound column)

end

/-! ### Documents -/

/-- Whether a character may occur in a text at all. -/
def isAllowed (c : Char) : Bool :=
  isPrintable c || c = '\t' || c = '\r' || c = '\u0085' || c = '\ufeff'

/-- A text with one spelling of each line break. -/
def normalizeBreaks : List Char → List Char
  | '\r' :: '\n' :: rest => '\n' :: normalizeBreaks rest
  | '\r' :: rest => '\n' :: normalizeBreaks rest
  | '\u0085' :: rest => '\n' :: normalizeBreaks rest
  | c :: rest => c :: normalizeBreaks rest
  | [] => []

/-- Whether a line is a directive that a document may have. -/
def isDirective (line : List Char) : Bool :=
  let words := ((String.ofList line).splitOn " ").filter fun word => !word.isEmpty
  match words with
  | name :: version :: _ =>
    name = "%TAG" || (name = "%YAML" && ["1.1", "1.2"].contains version)
  | _ => false

/-- The lines behind the directives of a document, and whether there were any. -/
def dropDirectives (found : Bool) : List Line → Option (Bool × List Line)
  | [] => some (found, [])
  | (line, ending) :: rest =>
    if line.head? = some '%' then
      if isDirective line then dropDirectives true rest else none
    else if line.all (· = ' ') || (line.dropWhile (· = ' ')).head? = some '#' then
      (dropDirectives found rest).map fun (found, rest) => (found, (line, ending) :: rest)
    else some (found, (line, ending) :: rest)

/-- The root of the one document in a text. -/
def document (bound : Nat) (directives : Bool) : Reading Node := do
  let _ ← toContent false false
  let opened := ['-', '-', '-'].isPrefixOf (← get).rest && (← get).atMark
  if directives && !opened then failure
  if opened then skip 3
  let crossed ← if opened then toContent false true else pure true
  let root ← if (← get).atEnd then pure .absent else node bound (-1) crossed
  let _ ← toContent false false
  if ['.', '.', '.'].isPrefixOf (← get).rest && (← get).atMark then
    skip 3
    let _ ← toContent false true
  if (← get).rest.isEmpty then return root
  failure

/-- The root node of a text that holds one document. -/
def read? (text : String) : Option Node :=
  let chars := match text.toList with
    | '\ufeff' :: rest => rest
    | other => other
  if chars.all isAllowed then do
    let chars := normalizeBreaks chars
    let (directives, lines) ← dropDirectives false (splitLines chars)
    let content := (lines.map fun (line, ending) => line ++ ending).flatten
    let start : Cursor := ⟨0, 0, content, []⟩
    let (root, _) ← (document (8 * (content.length + 1)) directives).run start
    return root
  else none

end XPathLocator.Yaml
