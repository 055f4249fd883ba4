import XPathLocator.Yaml.Scalar.Reader

/-!
# `XPathLocator.Yaml.Flow`: flow collections

Flow collections stand in brackets or braces, with commas between their parts.
Columns do not matter in them, and neither do line breaks, except that a key
without a question mark ends on the line of its colon.

A node can carry properties: a name, by which an alias refers to it later, and a
tag. The readers call each other, so they count their depth down from a bound.
-/

set_option autoImplicit false

namespace XPathLocator.Yaml

/-! ### Properties -/

/-- What a node can carry: a name, by which aliases refer to it, and a tag. -/
structure Properties where
  anchor : Option String
  tag : Option String

/-- Whether a character can stand in the name of an anchor. -/
def isAnchorChar (c : Char) : Bool :=
  c.isAlphanum || c = '_' || c = '-'

/-- The name behind an ampersand or an asterisk. -/
def anchorName : Reading String := do
  skip 1
  let name := (← get).rest.takeWhile isAnchorChar
  skip name.length
  let ends (c : Char) : Bool :=
    isSeparator c || ['?', ':', ',', ']', '\x7d', '%', '@', '\x60'].contains c
  if name.isEmpty || !(← get).rest.head?.all ends then failure
  return .ofList name

/-- A tag, up to the white space behind it. -/
def tag (flow : Bool) : Reading String := do
  let text := (← get).rest.takeWhile fun c =>
    !isSeparator c && !(flow && flowIndicators.contains c)
  skip text.length
  return .ofList text

/-- Passes over spaces and tabs. -/
def skipBlanks : Reading Unit := do
  skip ((← get).rest.takeWhile fun c => c = ' ' || c = '\t').length

/-- The properties in front of a node, each at most once. -/
def properties (flow : Bool) : Reading Properties := do
  match (← get).rest.head? with
  | some '&' =>
    let name ← anchorName
    skipBlanks
    let mark ← if (← get).rest.head? = some '!' then some <$> tag flow else pure none
    skipBlanks
    return ⟨some name, mark⟩
  | some '!' =>
    let mark ← tag flow
    skipBlanks
    let name ← if (← get).rest.head? = some '&' then some <$> anchorName else pure none
    skipBlanks
    return ⟨name, some mark⟩
  | _ => return ⟨none, none⟩

/-- Whether there are no properties. -/
def Properties.isEmpty (p : Properties) : Bool :=
  p.anchor.isNone && p.tag.isNone

/-- A node with its properties. A name is kept for the aliases that follow. -/
def Properties.attach (p : Properties) (node : Node) : Reading Node := do
  let node := match p.tag, node with
    | some mark, .scalar none plain text => .scalar (some mark) plain text
    | _, other => other
  if let some name := p.anchor then
    modify fun cursor => { cursor with anchors := (name, node) :: cursor.anchors }
  return node

/-! ### Flow collections -/

/-- Whether the cursor stands on a character. -/
def at? (c : Char) : Reading Bool :=
  return (← get).rest.head? = some c

/-- An alias, read as the node it refers to. -/
def aliasNode : Reading Node := do
  let name ← anchorName
  match (← get).anchors.lookup name with
  | some node => return node
  | none => failure

mutual

/-- A node without block structure. In a block, the lines of a plain scalar
after its first start at `margin` at least. -/
def flowNode (bound : Nat) (flow : Bool) (margin : Nat) : Reading Node := do
  match bound, (← get).rest.head? with
  | 0, _ | _, none => failure
  | bound + 1, some c =>
    if c = '[' then skip 1; return .sequence (← flowItems bound)
    else if c = '\x7b' then skip 1; return .mapping (← flowEntries bound)
    else if c = '"' || c = '\'' then return .scalar none false (← quoted)
    else if c = '*' then aliasNode
    else return .scalar none true (← plain flow margin)

/-- A node inside a flow collection, with its properties. It may be absent where
a comma, a colon or the end follows its properties. -/
def flowPart (bound : Nat) : Reading Node := do
  match bound with
  | 0 => failure
  | bound + 1 =>
    let props ← properties true
    let _ ← toContent true true
    let next := (← get).rest
    let absent := next.head?.any fun c => c = ',' || c = ']' || c = '\x7d' || c = ':'
    if !props.isEmpty && absent then props.attach .absent
    else props.attach (← flowNode bound true 0)

/-- The value behind a colon in a flow collection. -/
def flowValue (bound : Nat) : Reading Node := do
  match bound with
  | 0 => failure
  | bound + 1 =>
    skip 1
    let _ ← toContent true true
    if (← at? ',') || (← at? ']') || (← at? '\x7d') then return .absent
    else flowPart bound

/-- The key of an entry in a flow collection, and whether a colon follows it. A
key without a question mark ends on the line of its colon. -/
def flowKey (bound : Nat) : Reading (Node × Bool) := do
  match bound with
  | 0 => failure
  | bound + 1 =>
    let start ← get
    if startsAlone '?' start.rest then
      skip 1
      let _ ← toContent true true
      let absent := (← at? ':') || (← at? ',') || (← at? ']') || (← at? '\x7d')
      let key ← if absent then pure .absent else flowPart bound
      let _ ← toContent true true
      return (key, ← at? ':')
    else
      let key ← flowPart bound
      let _ ← toContent true true
      if (← at? ':') && start.line ≠ (← get).line then failure
      return (key, ← at? ':')

/-- The items of a flow sequence behind its opening bracket. A pair of a key and
a value is an item. -/
def flowItems (bound : Nat) : Reading (List Node) := do
  match bound with
  | 0 => failure
  | bound + 1 =>
    let _ ← toContent true true
    if (← get).atEnd then failure
    else if ← at? ']' then skip 1; return []
    else
      let explicit := startsAlone '?' (← get).rest
      let (key, paired) ← flowKey bound
      let item ←
        if paired then do pure (Node.mapping [(key, ← flowValue bound)])
        else if explicit then pure (Node.mapping [(key, .absent)])
        else pure key
      let _ ← toContent true true
      if ← at? ',' then skip 1; return item :: (← flowItems bound)
      else if ← at? ']' then skip 1; return [item]
      else failure

/-- The entries of a flow mapping behind its opening brace. -/
def flowEntries (bound : Nat) : Reading (List (Node × Node)) := do
  match bound with
  | 0 => failure
  | bound + 1 =>
    let _ ← toContent true true
    if (← get).atEnd then failure
    else if ← at? '\x7d' then skip 1; return []
    else
      let (key, paired) ← flowKey bound
      let value ← if paired then flowValue bound else pure .absent
      let _ ← toContent true true
      if ← at? ',' then skip 1; return (key, value) :: (← flowEntries bound)
      else if ← at? '\x7d' then skip 1; return [(key, value)]
      else failure

end

end XPathLocator.Yaml
