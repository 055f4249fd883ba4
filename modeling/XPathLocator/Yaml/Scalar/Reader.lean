import XPathLocator.Yaml.Cursor
import XPathLocator.Yaml.Scalar

/-!
# `XPathLocator.Yaml.Scalar.Reader`: plain and quoted scalars

Both kinds of scalars are read character by character, and both may go on over
several lines. The space around a line break counts as one space, and of several
line breaks all but the first count. A plain scalar ends where punctuation
starts, or where a line in a block is indented too little; a quoted one ends at
its closing quote.
-/

set_option autoImplicit false

namespace XPathLocator.Yaml

/-- What stands for white space around line breaks: a space for one line break,
and for several all but the first. -/
def fold (breaks : List Char) : List Char :=
  match breaks with
  | ['\n'] => [' ']
  | '\n' :: more => more
  | other => other

/-- The characters that end a plain scalar in a flow collection. -/
def flowIndicators : List Char := [',', '[', ']', '\x7b', '\x7d']

/-- Reads a plain scalar, whose lines after the first start at `margin` at least.
`done` holds what is read, last first; `spaces` and `breaks` what was passed
since. -/
def plainFrom (flow : Bool) (margin : Nat) (cursor : Cursor) (done spaces breaks : List Char) :
    List Char → Option (List Char × Cursor)
  | [] => some (done, { cursor with rest := [] })
  | c :: rest =>
    let next := cursor.past c rest
    let stop := some (done, { cursor with rest := c :: rest })
    if isBreak c then plainFrom flow margin next done [] (breaks ++ [c]) rest
    else if c = ' ' || c = '\t' then
      if breaks.isEmpty then plainFrom flow margin next done (spaces ++ [c]) [] rest
      else if c = '\t' && cursor.column < margin then none
      else plainFrom flow margin next done [] breaks rest
    else
      let afterSeparator := !spaces.isEmpty || !breaks.isEmpty
      let outside := !breaks.isEmpty &&
        ((!flow && cursor.column < margin) || { cursor with rest := c :: rest }.atMark)
      if outside || (afterSeparator && c = '#') || (c = ':' && atSeparator rest)
          || (flow && flowIndicators.contains c) then stop
      else if flow && c = ':' && rest.head?.any (fun d => d = '?' || flowIndicators.contains d) then
        none
      else
        let gap := if breaks.isEmpty then spaces else fold breaks
        plainFrom flow margin next (c :: gap.reverse ++ done) [] [] rest

/-- Whether a plain scalar can start here. -/
def startsPlain (flow : Bool) : List Char → Bool
  | [] => false
  | c :: rest =>
    !(isSeparator c || c = '-' || c = '?' || c = ':' || indicators.contains c)
      || (c = '-' && !rest.head?.any (fun d => d = ' ' || d = '\t') && !rest.isEmpty)
      || (!flow && (c = '?' || c = ':') && !atSeparator rest)

/-- A plain scalar. -/
def plain (flow : Bool) (margin : Nat) : Reading String := do
  let cursor ← get
  if startsPlain flow cursor.rest then
    match plainFrom flow margin cursor [] [] [] cursor.rest with
    | some (done, next) => set next; return .ofList done.reverse
    | none => failure
  else failure

/-- The characters of the escapes with a letter. -/
def letterEscapes : List (Char × Char) :=
  [('0', '\x00'), ('a', '\x07'), ('b', '\x08'), ('t', '\t'), ('\t', '\t'), ('n', '\n'),
   ('v', '\x0b'), ('f', '\x0c'), ('r', '\r'), ('e', '\x1b'), (' ', ' '), ('"', '"'),
   ('/', '/'), ('\\', '\\'), ('N', '\u0085'), ('_', '\u00a0'), ('L', '\u2028'),
   ('P', '\u2029')]

/-- The widths of the escapes with digits. -/
def digitEscapes : List (Char × Nat) := [('x', 2), ('u', 4), ('U', 8)]

/-- Reads a quoted scalar behind its opening quote. `digits` holds the number of
digits still due of an escape and their value so far; `escaped` says that a
backslash came before; `joined` that a line break was escaped. -/
def quotedFrom (quote : Char) (cursor : Cursor) (done spaces breaks : List Char)
    (escaped joined : Bool) (digits : Option (Nat × Nat)) :
    List Char → Option (List Char × Cursor)
  | [] => none
  | c :: rest =>
    let next := cursor.past c rest
    let gap := if breaks.isEmpty then (if joined then [] else spaces)
      else if joined then breaks else fold breaks
    let put (d : Char) :=
      quotedFrom quote next (d :: gap.reverse ++ done) [] [] false false none rest
    if !breaks.isEmpty && { cursor with rest := c :: rest }.atMark then none
    else match digits with
    | some (due, value) =>
      match Scalar.digit? 16 c with
      | none => none
      | some d =>
        let value := value * 16 + d
        if 1 < due then
          quotedFrom quote next done [] [] false false (some (due - 1, value)) rest
        else if value.isValidChar then put (Char.ofNat value)
        else none
    | none =>
      if escaped then
        if isBreak c then quotedFrom quote next done [] [] false true none rest
        else match letterEscapes.lookup c, digitEscapes.lookup c with
        | some d, _ => put d
        | none, some width =>
          quotedFrom quote next done [] [] false false (some (width, 0)) rest
        | none, none => none
      else if isBreak c then
        quotedFrom quote next done [] (breaks ++ [c]) false joined none rest
      else if c = ' ' || c = '\t' then
        let spaces := if breaks.isEmpty then spaces ++ [c] else []
        quotedFrom quote next done spaces breaks false joined none rest
      else if c = quote then
        match quote, rest with
        | '\'', '\'' :: rest =>
          quotedFrom quote (next.past '\'' rest) ('\'' :: gap.reverse ++ done) [] [] false false
            none rest
        | _, _ => some (gap.reverse ++ done, next)
      else if c = '\\' && quote = '"' then
        quotedFrom quote next (gap.reverse ++ done) [] [] true false none rest
      else put c

/-- A quoted scalar. -/
def quoted : Reading String := do
  let cursor ← get
  match cursor.rest with
  | [] => failure
  | quote :: rest =>
    match quotedFrom quote (cursor.past quote rest) [] [] [] false false none rest with
    | some (done, next) => set next; return .ofList done.reverse
    | none => failure

end XPathLocator.Yaml
