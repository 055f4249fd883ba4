import XPathLocator.Proofs.Text.Run
import XPathLocator.Proofs.XPath.Token

/-!
# `XPathLocator.Proofs.XPath.Spelling`: reading back a token that was written

One lemma for each way in which a token is written: the token reader gives the
token back and leaves what was written behind it. Where a token could go on into
the following text, the lemma asks that the text does not start with a character
that the token could take. For a name at the end of an operand this is `stops`,
which asks two things: the next character does not prolong the name, and what
follows the white space makes it neither a function nor an axis.
-/

set_option autoImplicit false

namespace XPathLocator.XPath

/-- Whether a text is a name without a namespace prefix. -/
def isName : List Char → Bool
  | [] => false
  | c :: r => isNameStart c && r.all isNameChar

/-- Whether an operand ends before this text, whatever token it ends with. -/
def stops (rest : List Char) : Bool :=
  rest.head?.all (fun c => !isNameChar c && c ≠ ':')
    && (rest.dropWhile isSpace).head?.all (fun c => c ≠ '(' && c ≠ ':')

/-! ### White space and whole texts -/

/-- White space in front of a token does not count. -/
theorem next?_space {c : Char} (h : isSpace c) (b : Bool) (s : List Char) :
    next? b (c :: s) = next? b s := by
  rw [next?, List.dropWhile_cons_of_pos h, next?]

/-- A character that is no white space starts the token. -/
theorem next?_of_front? {c : Char} (h : isSpace c = false) (b : Bool) (r : List Char) :
    next? b (c :: r) = front? b c r := by
  rw [next?, List.dropWhile_cons_of_neg (by simp [h])]

/-- A text has no tokens if it is white space, and otherwise the first one and those of what is
left. -/
theorem tokens?_eq (b : Bool) (s : List Char) :
    tokens? b s = if s.all isSpace then some [] else
      (next? b s).bind fun p => (tokens? p.1.endsOperand p.2).map (p.1 :: ·) := by
  rw [tokens?]
  split
  · rfl
  · split <;> rename_i h <;> rw [h] <;> rfl

/-- White space in front of a text makes no difference. -/
theorem tokens?_space {c : Char} (h : isSpace c) (b : Bool) (s : List Char) :
    tokens? b (c :: s) = tokens? b s := by
  rw [tokens?_eq, tokens?_eq b s, List.all_cons, h, Bool.true_and, next?_space h]

/-- A token in front of a text comes before the tokens of what is left. -/
theorem tokens?_cons {b : Bool} {s rest : List Char} {t : Token} {us : List Token}
    (h : next? b s = some (t, rest)) (hrest : tokens? t.endsOperand rest = some us) :
    tokens? b s = some (t :: us) := by
  have hs : s.all isSpace = false := by
    cases hall : s.all isSpace with
    | false => rfl
    | true =>
        rw [next?, List.dropWhile_eq_nil_iff.mpr (by simpa using hall)] at h
        cases h
  rw [tokens?_eq, hs, if_neg (by decide), h]
  show (tokens? t.endsOperand rest).map _ = _
  rw [hrest]
  rfl

/-- The empty text has no tokens. -/
@[simp]
theorem tokens?_nil (b : Bool) : tokens? b [] = some [] := by
  rw [tokens?]
  rfl

/-! ### Names -/

/-- No class of characters that leaves out the blanks has white space in it. -/
theorem isSpace_eq_false_of {p : Char → Bool} (hp : [' ', '\t', '\r', '\n'].all (!p ·)) {c : Char}
    (h : p c) : isSpace c = false := by
  cases hs : isSpace c with
  | false => rfl
  | true =>
      simp only [isSpace, Bool.or_eq_true, decide_eq_true_eq] at hs
      rw [List.all_eq_true] at hp
      have hc : c ∈ [' ', '\t', '\r', '\n'] := by
        rcases hs with ((rfl | rfl) | rfl) | rfl <;> decide
      have hnot := hp c hc
      rw [h] at hnot
      cases hnot

/-- White space starts no name. -/
theorem isSpace_eq_false_of_isNameStart {c : Char} (h : isNameStart c) : isSpace c = false :=
  isSpace_eq_false_of (by decide) h

/-- All characters of a name are name characters. -/
theorem all_isNameChar_of_isName {n : List Char} (h : isName n) : n.all isNameChar := by
  cases n with
  | nil => rfl
  | cons c r =>
      simp only [isName, Bool.and_eq_true] at h
      rw [List.all_cons, isNameChar_of_isNameStart h.1, h.2]
      rfl

/-- Where a name starts, the token reader reads a name. -/
theorem next?_eq_name? {n : List Char} (h : isName n) (b : Bool) (rest : List Char) :
    next? b (n ++ rest) = name? b (n ++ rest) := by
  cases n with
  | nil => cases h
  | cons c r =>
      simp only [isName, Bool.and_eq_true] at h
      rw [List.cons_append, next?_of_front? (isSpace_eq_false_of_isNameStart h.1), front?,
        if_pos h.1]

/-- Whether a name without a prefix ends before this text: no character prolongs
it, and no colon makes it the prefix of another name or of `*`. -/
def endsName : List Char → Bool
  | [] => true
  | [c] => !isNameChar c
  | c :: d :: _ => !isNameChar c && !(c = ':' && (isNameStart d || d = '*'))

/-- What ends a name starts with no name character. -/
theorem head_not_isNameChar {rest : List Char} (h : endsName rest) :
    rest.head?.any isNameChar = false := by
  cases rest with
  | nil => rfl
  | cons c r => cases r <;> simp_all [endsName]

/-- Away from an operand a name says what follows it. -/
theorem next?_nameToken {n rest : List Char} (hn : isName n) (hr : endsName rest) :
    next? false (n ++ rest)
      = (nameToken? (.ofName (.ofList n)) rest).map fun t => (t, rest) := by
  obtain ⟨htake, hdrop⟩ :=
    Text.run_append (List.all_eq_true.mp (all_isNameChar_of_isName hn)) (head_not_isNameChar hr)
  have hq : qname (n ++ rest) = (.ofName (.ofList n), rest) := by
    rw [qname, htake, hdrop]
    split
    · rename_i c r
      simp only [endsName, Bool.and_eq_true] at hr
      have hc : isNameStart c = false ∧ ¬ c = '*' := by simpa using hr.2
      rw [hc.1]
      rfl
    · rfl
  rw [next?_eq_name? hn, name?, if_neg (by decide), hdrop, hq]
  split
  · simp [endsName] at hr
  · rfl

/-- A name in front of a bracket is read as a function, unless it is a kind of node. -/
theorem next?_function {n : List Char} (hn : isName n)
    (ht : NodeType.ofName? (.ofList n) = none) (rest : List Char) :
    next? false (n ++ '(' :: rest) = some (.function (.ofName (.ofList n)), '(' :: rest) := by
  rw [next?_nameToken hn (by cases rest <;> rfl)]
  have htoken : nameToken? (.ofName (.ofList n)) ('(' :: rest) =
      some (.function (.ofName (.ofList n))) := by
    simp [nameToken?, QName.ofName, List.dropWhile, ht, isSpace]
  rw [htoken]
  rfl

/-- The name of an axis is a name. -/
theorem isName_axis (axis : Axis) : isName axis.name.toList := by
  cases axis <;> decide

/-- The name of an axis in front of two colons is read as the axis. -/
theorem next?_axis (axis : Axis) (rest : List Char) :
    next? false (axis.name.toList ++ ':' :: ':' :: rest)
      = some (.axis axis, ':' :: ':' :: rest) := by
  rw [next?_nameToken (isName_axis axis) rfl]
  show Option.map _ ((Axis.ofName? (.ofList axis.name.toList)).map _) = _
  rw [String.ofList_toList, Axis.ofName?_name]
  rfl

/-- What ends an operand ends a name. -/
theorem endsName_of_stops {rest : List Char} (h : stops rest) : endsName rest := by
  match rest, h with
  | [], _ => rfl
  | [c], h => simp_all [stops, endsName]
  | c :: d :: r, h => simp_all [stops, endsName]

/-- A name that ends an operand is a name test. -/
theorem next?_nameTest {n rest : List Char} (hn : isName n) (hr : stops rest) :
    next? false (n ++ rest) = some (.nameTest (.name (.ofName (.ofList n))), rest) := by
  rw [next?_nameToken hn (endsName_of_stops hr), nameToken?]
  split
  · simp_all [stops]
  · simp_all [stops]
  · rfl

/-! ### Numbers and literals -/

/-- No name starts with a digit. -/
theorem isNameStart_eq_false_of_isDigit {c : Char} (h : c.isDigit) : isNameStart c = false := by
  have hc : 48 ≤ c.toNat ∧ c.toNat ≤ 57 := Char.isDigit_iff_toNat.mp h
  simp only [isNameStart, nameStartRanges, List.any_cons, List.any_nil]
  simp
  omega

/-- A digit may stand in a name. -/
theorem isNameChar_of_isDigit {c : Char} (h : c.isDigit) : isNameChar c := by
  have hc : 48 ≤ c.toNat ∧ c.toNat ≤ 57 := Char.isDigit_iff_toNat.mp h
  simp only [isNameChar, nameMoreRanges, List.any_cons, List.any_nil, Bool.or_eq_true,
    Bool.and_eq_true, decide_eq_true_eq]
  omega

/-- Digits are a number, up to a character that is neither a digit nor a point. -/
theorem next?_number {b : Bool} {ds rest : List Char} (hd : ds.all Char.isDigit)
    (hne : ds ≠ []) (hr : rest.head?.any (fun c => c.isDigit || c = '.') = false) :
    next? b (ds ++ rest) = some (.number (.ofList ds), rest) := by
  have hdigit : rest.head?.any Char.isDigit = false := by
    cases rest <;> simp_all
  obtain ⟨htake, hdrop⟩ := Text.run_append (List.all_eq_true.mp hd) hdigit
  have hnum : number (ds ++ rest) = (.number (.ofList ds), rest) := by
    rw [number, htake, hdrop]
    split
    · simp at hr
    · rfl
  cases ds with
  | nil => exact absurd rfl hne
  | cons c r =>
      have hc : c.isDigit := by simp_all
      rw [List.cons_append, next?_of_front? (isSpace_eq_false_of (by decide) hc), front?,
        isNameStart_eq_false_of_isDigit hc, if_neg (by decide), if_pos hc, ← List.cons_append,
        hnum]

/-- A text between quotes that does not hold the quote is a literal, whatever
follows the closing quote. -/
theorem next?_literal {b : Bool} {q : Char} (hq : q = '"' ∨ q = '\'') {v : List Char}
    (hv : q ∉ v) (rest : List Char) :
    next? b (q :: (v ++ q :: rest)) = some (.literal (.ofList v), rest) := by
  have hall : ∀ c ∈ v, decide (c ≠ q) := by
    intro c hc
    exact decide_eq_true fun heq => hv (heq ▸ hc)
  -- The closing quote is the first one behind the opening one.
  have hhead : (q :: rest).head?.any (· ≠ q) = false := by simp
  obtain ⟨htake, hdrop⟩ := Text.run_append hall hhead
  have hlit : literal? q (v ++ q :: rest) = some (.literal (.ofList v), rest) := by
    rw [literal?, htake, hdrop]
  have hf : front? b q (v ++ q :: rest) = literal? q (v ++ q :: rest) := by
    rcases hq with rfl | rfl <;> rfl
  rw [next?_of_front? (by rcases hq with rfl | rfl <;> rfl), hf, hlit]

/-! ### Symbols -/

section
variable (b : Bool) (rest : List Char)

/-- An opening parenthesis is read. -/
@[simp]
theorem next?_openParen : next? b ('(' :: rest) = some (.openParen, rest) := rfl

/-- A closing parenthesis is read. -/
@[simp]
theorem next?_closeParen : next? b (')' :: rest) = some (.closeParen, rest) := rfl

/-- An opening bracket is read. -/
@[simp]
theorem next?_openBracket : next? b ('[' :: rest) = some (.openBracket, rest) := rfl

/-- A closing bracket is read. -/
@[simp]
theorem next?_closeBracket : next? b (']' :: rest) = some (.closeBracket, rest) := rfl

/-- The sign of an attribute is read. -/
@[simp]
theorem next?_at : next? b ('@' :: rest) = some (.at, rest) := rfl

/-- A comma is read. -/
@[simp]
theorem next?_comma : next? b (',' :: rest) = some (.comma, rest) := rfl

/-- Two colons are read as one token. -/
@[simp]
theorem next?_doubleColon : next? b (':' :: ':' :: rest) = some (.doubleColon, rest) := rfl

/-- Two slashes are read as one token. -/
@[simp]
theorem next?_doubleSlash : next? b ('/' :: '/' :: rest) = some (.doubleSlash, rest) := rfl

/-- The sign of a union is read as an operator. -/
@[simp]
theorem next?_bar : next? b ('|' :: rest) = some (.operator .union, rest) := rfl

/-- An asterisk that is not behind an operand is read as a node test. -/
@[simp]
theorem next?_any : next? false ('*' :: rest) = some (.nameTest .any, rest) := rfl

/-- A hyphen is read as the operator, since it stands in no name here. -/
@[simp]
theorem next?_minus : next? b ('-' :: rest) = some (.operator .minus, rest) := rfl

end

/-- A single `/` is told from the double one by what follows. -/
theorem next?_slash {b : Bool} {rest : List Char} (h : rest.head? ≠ some '/') :
    next? b ('/' :: rest) = some (.slash, rest) := by
  cases rest with
  | nil => rfl
  | cons c r =>
      have hc : ¬ c = '/' := by simpa using h
      show some (if c = '/' then _ else _) = _
      rw [if_neg hc]

/-- An operator between two blanks. -/
theorem next?_operator (op : Operator) (rest : List Char) :
    next? true (' ' :: (op.text.toList ++ ' ' :: rest)) = some (.operator op, ' ' :: rest) := by
  cases op <;> rfl

end XPathLocator.XPath
