import XPathLocator.Yaml.Cursor

/-!
# `XPathLocator.Yaml.BlockText`: literal and folded blocks

A block is a text that stands on lines of its own, each indented by at least a
margin, which the header gives or the first line shows. A literal block keeps
its line breaks. A folded one makes a space of a line break between two lines,
unless one of them is indented further or empty lines stand between them.

What becomes of the line breaks at the end is a choice of the header: `strip`
drops them all, `clip` keeps one, `keep` keeps all.
-/

set_option autoImplicit false

namespace XPathLocator.Yaml

/-- A line and the line break behind it, which the last line has not. -/
abbrev Line := List Char × List Char

/-- The lines of a text. -/
def splitLines : List Char → List Line
  | [] => [([], [])]
  | c :: rest =>
    if isBreak c then ([], [c]) :: splitLines rest
    else match splitLines rest with
      | [] => [([c], [])]
      | (line, ending) :: more => (c :: line, ending) :: more

/-- The number of spaces that a line starts with. -/
def indentation (line : List Char) : Nat :=
  (line.takeWhile (· = ' ')).length

/-- The indentation of a block that does not give it: that of its first line
with anything in it, or of a longer blank line before that. -/
def detectIndentation : List Line → Nat
  | [] => 0
  | (line, ending) :: more =>
    if indentation line = line.length && !ending.isEmpty then
      max line.length (detectIndentation more)
    else indentation line

/-- What is done with the line breaks at the end of a block. -/
inductive Chomping
  | strip
  | clip
  | keep
deriving DecidableEq

/-- A block as far as it has been read: its text, the line break behind the last
line, whether that line started with a space, the empty lines behind it, and how
many lines were read. -/
structure BlockText where
  text : List Char
  lastBreak : List Char
  indented : Bool
  emptyLines : List Char
  count : Nat

/-- Adds a line to a block. In a folded block a line break between two lines
becomes a space, unless empty lines follow it or a line is indented further. -/
def BlockText.add (block : BlockText) (folded : Bool) (line : Line) : BlockText :=
  let indented := line.1.head?.any fun c => c = ' ' || c = '\t'
  let joint :=
    if folded && block.lastBreak = ['\n'] && !block.indented && !indented then
      if block.emptyLines.isEmpty then [' '] else block.emptyLines
    else block.lastBreak ++ block.emptyLines
  ⟨block.text ++ joint ++ line.1, line.2, indented, [], block.count + 1⟩

/-- Reads the lines of a block, up to one with less indentation. -/
def BlockText.read (folded : Bool) (margin : Nat) (block : BlockText) :
    List Line → Option BlockText
  | [] => some block
  | (line, ending) :: more =>
    let spaces := min margin (indentation line)
    let content := line.drop spaces
    if content.isEmpty then
      if ending.isEmpty then some block
      else
        { block with emptyLines := block.emptyLines ++ ending, count := block.count + 1 }.read
          folded margin more
    else if spaces < margin then
      if content.head? = some '\t' then none else some block
    else (block.add folded (content, ending)).read folded margin more

/-- The text of a block, with the end that its chomping leaves. -/
def BlockText.chomp (block : BlockText) : Chomping → List Char
  | .strip => block.text
  | .clip => block.text ++ block.lastBreak
  | .keep => block.text ++ block.lastBreak ++ block.emptyLines

/-- The chomping and the indentation of a block header, in either order. -/
def blockHeader (s : List Char) : Option (Chomping × Nat × List Char) :=
  let chomping? : Char → Option Chomping := fun
    | '-' => some .strip
    | '+' => some .keep
    | _ => none
  let digit? (c : Char) : Option Nat :=
    if '1' ≤ c && c ≤ '9' then some (c.toNat - '0'.toNat) else none
  let (first, s) := match s with
    | c :: rest => if (chomping? c).isSome || (digit? c).isSome then (some c, rest) else (none, s)
    | [] => (none, s)
  let wanted (c : Char) : Bool :=
    match first with
    | some d => if (chomping? d).isSome then (digit? c).isSome else (chomping? c).isSome
    | none => false
  let (second, s) := match s with
    | c :: rest => if wanted c then (some c, rest) else (none, s)
    | [] => (none, s)
  let given := first.toList ++ second.toList
  let behind := s.dropWhile fun c => c = ' ' || c = '\t'
  if behind.head?.all (fun c => c = '#' || isBreak c) then
    some ((given.findSome? chomping?).getD .clip, (given.findSome? digit?).getD 0,
      (behind.dropWhile fun c => !isBreak c).drop 1)
  else none

/-- A literal or folded block under a node at the column `parent`. -/
def blockScalar (parent : Int) : Reading String := do
  let cursor ← get
  match cursor.rest with
  | [] => failure
  | mark :: header =>
    match blockHeader header with
    | none => failure
    | some (chomping, given, body) =>
      let lines := splitLines body
      let margin := if given = 0 then max (detectIndentation lines) (max (parent + 1).toNat 1)
        else parent.toNat + given
      match BlockText.read (mark = '>') margin ⟨[], [], false, [], 0⟩ lines with
      | none => failure
      | some block =>
        let read := ((lines.take block.count).map fun (line, ending) => line ++ ending).flatten
        set { cursor with line := cursor.line + 1 + block.count, column := 0,
                          rest := body.drop read.length }
        return .ofList (block.chomp chomping)

end XPathLocator.Yaml
