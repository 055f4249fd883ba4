import XPathLocator.Proofs.XPath.Tree

/-!
# `XPathLocator.Proofs.XPath.Token`: the tokens of an XPath 1.0 expression

`tokens?` reads the longest token at the front of a text, then the next one
behind it, and fails where no token starts. XPath has no reserved words. What a
name or a `*` says depends on its neighbours, by these rules in this order:

* behind an operand a `*` is the product and a name is an operator;
* a name before `(` is a kind of node or a function;
* a name before `::` is an axis;
* any other name, and any other `*`, is a name test.

"Behind an operand" means: there is a token before, and it is no operator and
none of `@`, `::`, `(`, `[` and `,`. White space may stand between any two
tokens, but never inside one.

A literal is any text between two quotes of one kind that does not hold that
quote; there are no escapes in it.
-/

set_option autoImplicit false

namespace XPathLocator.XPath

/-- A token of an expression. -/
inductive Token
  | openParen
  | closeParen
  | openBracket
  | closeBracket
  | at
  | comma
  | doubleColon
  | dot
  | doubleDot
  | slash
  | doubleSlash
  | operator (op : Operator)
  | literal (value : String)
  | number (digits : String)
  | reference (name : QName)
  | nameTest (test : NodeTest)
  | nodeType (type : NodeType)
  | function (name : QName)
  | axis (axis : Axis)
deriving DecidableEq, Repr

/-- Whether a name or a `*` behind this token is an operator. -/
def Token.endsOperand : Token → Bool
  | .openParen | .openBracket | .at | .comma | .doubleColon | .slash | .doubleSlash
  | .operator _ => false
  | _ => true

/-! ### Characters -/

/-- White space between tokens: space, tab, line feed and carriage return. -/
def isSpace (c : Char) : Bool :=
  c = ' ' || c = '\t' || c = '\n' || c = '\r'

/-- The code points that may start a name, as inclusive ranges in ascending
order. The colon is missing, since it separates two names. -/
def nameStartRanges : List (Nat × Nat) :=
  [(0x41, 0x5A), (0x5F, 0x5F), (0x61, 0x7A), (0xC0, 0xD6), (0xD8, 0xF6), (0xF8, 0x2FF),
   (0x370, 0x37D), (0x37F, 0x1FFF), (0x200C, 0x200D), (0x2070, 0x218F), (0x2C00, 0x2FEF),
   (0x3001, 0xD7FF), (0xF900, 0xFDCF), (0xFDF0, 0xFFFD), (0x10000, 0xEFFFF)]

/-- The code points that may stand in a name, but not first. -/
def nameMoreRanges : List (Nat × Nat) :=
  [(0x2D, 0x2E), (0x30, 0x39), (0xB7, 0xB7), (0x300, 0x36F), (0x203F, 0x2040)]

/-- Whether a character may start a name. -/
def isNameStart (c : Char) : Bool :=
  nameStartRanges.any fun (first, last) => first ≤ c.toNat && c.toNat ≤ last

/-- Whether a character may stand in a name. -/
def isNameChar (c : Char) : Bool :=
  isNameStart c || nameMoreRanges.any fun (first, last) => first ≤ c.toNat && c.toNat ≤ last

/-! ### Single tokens -/

/-- The token `long` if the character `d` comes next, and else `short`. -/
def orLonger (d : Char) (long short : Token) : List Char → Token × List Char
  | [] => (short, [])
  | c :: r => if c = d then (long, r) else (short, c :: r)

/-- What a name says that is no operator, by what follows it. A node type and an
axis have no namespace prefix. -/
def nameToken? (name : QName) (rest : List Char) : Option Token :=
  match rest.dropWhile isSpace with
  | '(' :: _ =>
    if name.qualifier.isSome then some (.function name)
    else match NodeType.ofName? name.name with
      | some type => some (.nodeType type)
      | none => some (.function name)
  | ':' :: ':' :: _ =>
    if name.qualifier.isSome then none else (Axis.ofName? name.name).map .axis
  | _ => some (.nameTest (.name name))

/-- A name with its namespace prefix, and what is left behind it. -/
def qname (s : List Char) : QName × List Char :=
  let first := String.ofList (s.takeWhile isNameChar)
  match s.dropWhile isNameChar with
  | ':' :: c :: r =>
    if isNameStart c then
      (⟨some first, .ofList ((c :: r).takeWhile isNameChar)⟩, (c :: r).dropWhile isNameChar)
    else (⟨none, first⟩, ':' :: c :: r)
  | rest => (⟨none, first⟩, rest)

/-- The token that starts with a name, and what is left behind it. -/
def name? (afterOperand : Bool) (s : List Char) : Option (Token × List Char) :=
  if afterOperand then
    let rest := s.dropWhile isNameChar
    (Operator.ofName? (.ofList (s.takeWhile isNameChar))).map fun op => (.operator op, rest)
  else match s.dropWhile isNameChar with
    | ':' :: '*' :: r => some (.nameTest (.anyIn (.ofList (s.takeWhile isNameChar))), r)
    | _ => (nameToken? (qname s).1 (qname s).2).map fun t => (t, (qname s).2)

/-- The number in front, and what is left behind it. Its point may come first or
last, but there are digits. -/
def number (s : List Char) : Token × List Char :=
  let whole := s.takeWhile Char.isDigit
  match s.dropWhile Char.isDigit with
  | '.' :: r =>
    (.number (.ofList (whole ++ '.' :: r.takeWhile Char.isDigit)), r.dropWhile Char.isDigit)
  | rest => (.number (.ofList whole), rest)

/-- The value of a literal and what is left behind its closing quote, read
behind the opening one. -/
def literal? (quote : Char) (s : List Char) : Option (Token × List Char) :=
  match s.dropWhile (· ≠ quote) with
  | [] => none
  | _ :: rest => some (.literal (.ofList (s.takeWhile (· ≠ quote))), rest)

/-- The token that starts with a character other than a letter, a digit or a
quote, and what is left behind it. -/
def symbol? (afterOperand : Bool) (c : Char) (r : List Char) : Option (Token × List Char) :=
  match c with
  | '(' => some (.openParen, r)
  | ')' => some (.closeParen, r)
  | '[' => some (.openBracket, r)
  | ']' => some (.closeBracket, r)
  | '@' => some (.at, r)
  | ',' => some (.comma, r)
  | '|' => some (.operator .union, r)
  | '+' => some (.operator .plus, r)
  | '-' => some (.operator .minus, r)
  | '=' => some (.operator .eq, r)
  | '*' => some (if afterOperand then .operator .times else .nameTest .any, r)
  | '/' => some (orLonger '/' .doubleSlash .slash r)
  | '<' => some (orLonger '=' (.operator .le) (.operator .lt) r)
  | '>' => some (orLonger '=' (.operator .ge) (.operator .gt) r)
  | '.' =>
    if r.head?.any Char.isDigit then some (number ('.' :: r))
    else some (orLonger '.' .doubleDot .dot r)
  | '!' => if r.head? = some '=' then some (.operator .ne, r.tail) else none
  | ':' => if r.head? = some ':' then some (.doubleColon, r.tail) else none
  | '$' => if r.head?.any isNameStart then some (.reference (qname r).1, (qname r).2) else none
  | _ => none

/-- The token in front, for a text of the character `c` and the characters `r`
that does not start with white space, and what is left behind it. -/
def front? (afterOperand : Bool) (c : Char) (r : List Char) : Option (Token × List Char) :=
  if isNameStart c then name? afterOperand (c :: r)
  else if c.isDigit then some (number (c :: r))
  else if c = '"' || c = '\'' then literal? c r
  else symbol? afterOperand c r

/-! ### A token takes its first character -/

/-- What a character can be dropped from is no longer without it. -/
theorem length_dropWhile_cons_le {p : Char → Bool} {c : Char} (h : p c) (r : List Char) :
    ((c :: r).dropWhile p).length ≤ r.length := by
  rw [List.dropWhile_cons_of_pos h]
  exact (List.dropWhile_suffix p).length_le

/-- A token of one or two characters leaves no more than is behind its first one. -/
theorem orLonger_length_le (d : Char) (long short : Token) (r : List Char) :
    (orLonger d long short r).2.length ≤ r.length := by
  cases r with
  | nil => exact Nat.le_refl _
  | cons c r =>
      rw [orLonger]
      split
      · exact Nat.le_succ _
      · exact Nat.le_refl _

/-- A name leaves no more than is behind its first part. -/
theorem qname_length_le (s : List Char) :
    (qname s).2.length ≤ (s.dropWhile isNameChar).length := by
  rw [qname]
  split
  · rename_i c r h
    rw [h]
    split
    · exact Nat.le_trans (List.dropWhile_suffix _).length_le (Nat.le_succ _)
    · exact Nat.le_refl _
  · exact Nat.le_refl _

/-- A number leaves no more than is behind its first digits. -/
theorem number_length_le (s : List Char) :
    (number s).2.length ≤ (s.dropWhile Char.isDigit).length := by
  rw [number]
  split
  · rename_i r h
    rw [h]
    exact Nat.le_trans (List.dropWhile_suffix _).length_le (Nat.le_succ _)
  · exact Nat.le_refl _

/-- What starts a name may also stand in it. -/
theorem isNameChar_of_isNameStart {c : Char} (h : isNameStart c) : isNameChar c := by
  rw [isNameChar, h]
  rfl

/-- A name takes its first character. -/
theorem name?_length_le {b : Bool} {c : Char} {r rest : List Char} {t : Token}
    (hc : isNameStart c) (h : name? b (c :: r) = some (t, rest)) :
    rest.length ≤ r.length := by
  -- Whatever the name turns out to be, all of its characters are taken.
  have behind : ((c :: r).dropWhile isNameChar).length ≤ r.length :=
    length_dropWhile_cons_le (isNameChar_of_isNameStart hc) r
  rw [name?] at h
  split at h
  · obtain ⟨op, -, hp⟩ := Option.map_eq_some_iff.mp h
    cases hp
    exact behind
  · split at h
    · rename_i s hs
      cases h
      rw [hs] at behind
      exact Nat.le_trans (Nat.le_add_right _ 2) behind
    · obtain ⟨t', -, hp⟩ := Option.map_eq_some_iff.mp h
      cases hp
      exact Nat.le_trans (qname_length_le _) behind

/-- A literal leaves no more than is behind its opening quote. -/
theorem literal?_length_le {q : Char} {s rest : List Char} {t : Token}
    (h : literal? q s = some (t, rest)) : rest.length ≤ s.length := by
  rw [literal?] at h
  split at h
  · cases h
  · rename_i c r hs
    cases h
    have behind : (s.dropWhile (· ≠ q)).length ≤ s.length :=
      (List.dropWhile_suffix _).length_le
    rw [hs] at behind
    exact Nat.le_of_succ_le behind

/-- A symbol takes its first character. -/
theorem symbol?_length_le {b : Bool} {c : Char} {r rest : List Char} {t : Token}
    (h : symbol? b c r = some (t, rest)) : rest.length ≤ r.length := by
  have whole : ∀ p : Token × List Char, p.2.length ≤ r.length →
      some p = some (t, rest) → rest.length ≤ r.length := by
    intro p hp heq
    cases heq
    exact hp
  have tail : r.tail.length ≤ r.length := by
    rw [List.length_tail]
    exact Nat.sub_le _ _
  rw [symbol?.eq_def] at h
  split at h
  -- The cases stand in the order of the definition; those that take only their
  -- own character come last.
  case h_12 | h_13 | h_14 => exact whole _ (orLonger_length_le ..) h
  case h_15 =>
    split at h
    · exact whole _ (List.dropWhile_suffix Char.isDigit).length_le h
    · exact whole _ (orLonger_length_le ..) h
  case h_16 | h_17 =>
    split at h
    · exact whole _ tail h
    · cases h
  case h_18 =>
    split at h
    · exact whole _ (Nat.le_trans (qname_length_le r) (List.dropWhile_suffix _).length_le) h
    · cases h
  case h_19 => cases h
  all_goals exact whole _ (Nat.le_refl _) h

/-- **Every token takes its first character**, so the reader of whole texts ends. -/
theorem front?_length_le {b : Bool} {c : Char} {r rest : List Char} {t : Token}
    (h : front? b c r = some (t, rest)) : rest.length ≤ r.length := by
  rw [front?] at h
  split at h
  · rename_i hc
    exact name?_length_le hc h
  split at h
  · rename_i hc
    have read : (number (c :: r)).2 = rest := congrArg Prod.snd (Option.some.inj h)
    rw [← read]
    exact Nat.le_trans (number_length_le _) (length_dropWhile_cons_le hc r)
  split at h
  · exact literal?_length_le h
  · exact symbol?_length_le h

/-! ### Whole texts -/

/-- The first token of a text and what is left behind it, over white space. -/
def next? (afterOperand : Bool) (s : List Char) : Option (Token × List Char) :=
  match s.dropWhile isSpace with
  | [] => none
  | c :: r => front? afterOperand c r

/-- Reading a token leaves less than there was. -/
theorem next?_length_lt {b : Bool} {s rest : List Char} {t : Token}
    (h : next? b s = some (t, rest)) : rest.length < s.length := by
  rw [next?] at h
  split at h
  · cases h
  · rename_i c r hs
    have behind : (s.dropWhile isSpace).length ≤ s.length :=
      (List.dropWhile_suffix _).length_le
    rw [hs] at behind
    exact Nat.lt_of_lt_of_le (Nat.lt_succ_of_le (front?_length_le h)) behind

/-- The tokens of a text; nothing if no token starts somewhere in it. -/
def tokens? (afterOperand : Bool) (s : List Char) : Option (List Token) :=
  if s.all isSpace then some []
  else match _h : next? afterOperand s with
    | none => none
    | some (t, rest) => (tokens? t.endsOperand rest).map (t :: ·)
termination_by s.length
decreasing_by exact next?_length_lt _h

end XPathLocator.XPath
