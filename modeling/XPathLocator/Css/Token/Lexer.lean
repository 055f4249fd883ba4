import XPathLocator.Css.Error
import XPathLocator.Css.Token
import XPathLocator.Remainder
import XPathLocator.Text.Blank

/-!
# `XPathLocator.Css.Token.Lexer`: splitting a selector into tokens

`tokenize` reads the longest token at the front, then the next one behind it,
until the text is used up. Only a quoted string can fail, when its closing
quote is missing. Every other text has tokens, if need be one for a single
character.

The first character decides what is read, in this order: white space, a quoted
string, `#` before a name, a number, an identifier, and else the character
itself. Inside a name every character beyond ASCII counts as a letter, white
space beyond ASCII included; it separates only where a token may start.

An escape is a backslash and either one to six hexadecimal digits, with one
white-space character after them if there is any, or any other character. The
digits denote a code point; zero and what is no code point become `U+FFFD`.
-/

set_option autoImplicit false

namespace XPathLocator.Css

open Text (isBlank utf8Length)

/-- Whether a character may start an identifier. -/
def isNameStart (c : Char) : Bool :=
  c.isAlpha || c = '_' || 0x80 ≤ c.toNat

/-- Whether a character may stand in a name. -/
def isNameChar (c : Char) : Bool :=
  isNameStart c || c.isDigit || c = '-'

/-- Whether an escape starts here: a backslash with a character behind it other
than a line feed. -/
def startsEscape : List Char → Bool
  | '\\' :: c :: _ => c ≠ '\n'
  | _ => false

/-- Whether a name starts here. -/
def startsName : List Char → Bool
  | [] => false
  | c :: r => isNameChar c || startsEscape (c :: r)

/-- Whether an identifier starts here. A hyphen needs a second hyphen, a letter
or an escape behind it. -/
def startsIdent : List Char → Bool
  | [] => false
  | c :: r =>
    if c = '-' then r.head?.any (fun d => isNameStart d || d = '-') || startsEscape r
    else isNameStart c || startsEscape (c :: r)

/-! ### Escapes -/

/-- What stands for a character that cannot be named. -/
def replacement : Char := '\uFFFD'

/-- The value of a hexadecimal digit of either case. -/
def hexValue (c : Char) : Nat :=
  if c.isDigit then c.toNat - '0'.toNat
  else if 'a' ≤ c then c.toNat - 'a'.toNat + 10
  else c.toNat - 'A'.toNat + 10

/-- The character with the code point that the digits denote. -/
def ofHex (digits : List Char) : Char :=
  let code := digits.foldl (fun n d => n * 16 + hexValue d) 0
  if code ≠ 0 ∧ code.isValidChar then Char.ofNat code else replacement

/-- Passes over one white-space character, if there is one. -/
def dropBlank : List Char → List Char
  | [] => []
  | c :: s => if isBlank c then s else c :: s

/-- The character of an escape and what is left behind it, read behind the
backslash. -/
def escape (s : List Char) : Char × List Char :=
  match s with
  | [] => (replacement, [])
  | c :: r =>
    if c.isHexDigit then
      let more := (r.take 5).takeWhile Char.isHexDigit
      (ofHex (c :: more), dropBlank (r.drop more.length))
    else (c, r)

/-- Dropping a blank leaves no more than there was. -/
theorem dropBlank_length_le (s : List Char) : (dropBlank s).length ≤ s.length := by
  cases s with
  | nil => exact Nat.le_refl _
  | cons c r => rw [dropBlank]; split <;> simp

/-- An escape leaves no more than there was, so names and strings end. -/
theorem escape_length_le (s : List Char) : (escape s).2.length ≤ s.length := by
  cases s with
  | nil => exact Nat.le_refl _
  | cons c r =>
    rw [escape]
    split
    · exact Nat.le_trans (dropBlank_length_le _)
        (Nat.le_trans (by simp) (Nat.le_succ _))
    · exact Nat.le_succ _

/-! ### Names, strings and numbers -/

/-- The longest name in front, name characters and escapes, and what is left
behind it. -/
def name (s : List Char) : List Char × List Char :=
  match s with
  | [] => ([], [])
  | c :: r =>
    if isNameChar c then
      let (cs, rest) := name r
      (c :: cs, rest)
    else if startsEscape (c :: r) then
      let (cs, rest) := name (escape r).2
      ((escape r).1 :: cs, rest)
    else ([], c :: r)
termination_by s.length
decreasing_by
  · simp
  · exact Nat.lt_succ_of_le (escape_length_le r)

/-- A name leaves no more than there was. -/
theorem name_length_le (s : List Char) : (name s).2.length ≤ s.length := by
  fun_induction name s with
  | case1 => exact Nat.le_refl _
  | case2 c r _ cs rest h ih => rw [h] at ih; exact Nat.le_succ_of_le ih
  | case3 c r _ _ cs rest h ih =>
    rw [h] at ih
    exact Nat.le_succ_of_le (Nat.le_trans ih (escape_length_le r))
  | case4 => exact Nat.le_refl _

/-- A name takes at least one character of the text. -/
theorem name_length_lt {s : List Char} (h : startsName s) :
    (name s).2.length < s.length := by
  cases s with
  | nil => simp [startsName] at h
  | cons c r =>
    rw [name]
    split
    · exact Nat.lt_succ_of_le (name_length_le r)
    · rename_i hc
      have he : startsEscape (c :: r) = true := by simpa [startsName, hc] using h
      rw [if_pos he]
      exact Nat.lt_succ_of_le (Nat.le_trans (name_length_le _) (escape_length_le r))

/-- Where an identifier starts, a name starts. -/
theorem startsName_of_startsIdent {s : List Char} (h : startsIdent s) : startsName s := by
  cases s with
  | nil => simp [startsIdent] at h
  | cons c r =>
    by_cases hc : c = '-'
    · simp [startsName, isNameChar, hc]
    · simp only [startsIdent, hc, if_false, Bool.or_eq_true] at h
      simp only [startsName, isNameChar, Bool.or_eq_true]
      exact h.imp (fun hs => Or.inl (Or.inl hs)) id

/-- The value of a string and what is left behind its closing quote, read behind
the opening one; nothing if no closing quote follows. A line feed behind a
backslash leaves no trace. -/
def quoted? (quote : Char) (s : List Char) : Option (List Char × List Char) :=
  match s with
  | [] => none
  | c :: r =>
    if c = quote then some ([], r)
    else if c = '\\' then
      match r with
      | [] => none
      | d :: t =>
        if d = '\n' then quoted? quote t
        else
          (quoted? quote (escape (d :: t)).2).map fun (cs, rest) =>
            ((escape (d :: t)).1 :: cs, rest)
    else (quoted? quote r).map fun (cs, rest) => (c :: cs, rest)
termination_by s.length
decreasing_by
  · simp only [List.length_cons]; omega
  · exact Nat.lt_succ_of_le (escape_length_le _)
  · simp

/-- The text of a number and what is left behind it: digits, and a point with
digits behind it if both are there. -/
def number (s : List Char) : List Char × List Char :=
  let whole := s.takeWhile Char.isDigit
  match s.dropWhile Char.isDigit with
  | '.' :: r =>
    match r.takeWhile Char.isDigit with
    | [] => (whole, '.' :: r)
    | d :: ds => (whole ++ '.' :: d :: ds, r.dropWhile Char.isDigit)
  | rest => (whole, rest)

/-! ### Tokens -/

/-- What the token in front says, and what is left behind it, for a text of the
character `c` and the characters `r`. The position is that of `c`. -/
def front (position : Nat) (c : Char) (r : List Char) :
    Except Error (Token.Kind × List Char) :=
  if isBlank c then
    return (.blank, r.dropWhile isBlank)
  else if c = '"' || c = '\'' then
    match quoted? c r with
    | some (value, rest) => return (.string (.ofList value), rest)
    | none => throw (.unterminatedString position)
  else if c = '#' && startsName r then
    return (.hash (.ofList (name r).1), (name r).2)
  else if c.isDigit then
    return (.number (.ofList (number (c :: r)).1), (number (c :: r)).2)
  else if startsIdent (c :: r) then
    return (.ident (.ofList (name (c :: r)).1), (name (c :: r)).2)
  else
    return (.delim c, r)

/-- A string leaves no more than is behind its opening quote. -/
theorem quoted?_length_le {quote : Char} {s value rest : List Char}
    (h : quoted? quote s = some (value, rest)) : rest.length ≤ s.length := by
  fun_induction quoted? quote s generalizing value with
  | case1 => simp at h
  | case2 r => simp only [Option.some.injEq, Prod.mk.injEq] at h; simp [← h.2]
  | case3 => simp at h
  | case4 _ t ih => exact Nat.le_trans (ih h) (by simp only [List.length_cons]; omega)
  | case5 _ d t _ ih =>
    obtain ⟨p, hp, hq⟩ := Option.map_eq_some_iff.1 h
    simp only [Prod.mk.injEq] at hq
    exact Nat.le_succ_of_le (Nat.le_trans (ih (by rw [hp, ← hq.2])) (escape_length_le _))
  | case6 c r _ _ ih =>
    obtain ⟨p, hp, hq⟩ := Option.map_eq_some_iff.1 h
    simp only [Prod.mk.injEq] at hq
    exact Nat.le_succ_of_le (ih (by rw [hp, ← hq.2]))

/-- A run of characters leaves no more than there was. -/
theorem length_dropWhile_le (p : Char → Bool) (s : List Char) :
    (s.dropWhile p).length ≤ s.length :=
  (List.dropWhile_suffix p).length_le

/-- A number takes its first digit. -/
theorem number_length_lt {c : Char} (hc : c.isDigit) (r : List Char) :
    (number (c :: r)).2.length < (c :: r).length := by
  have behind : ((c :: r).dropWhile Char.isDigit).length ≤ r.length := by
    rw [List.dropWhile_cons_of_pos hc]; exact length_dropWhile_le _ r
  rw [number]
  split
  · rename_i t ht
    have ht' : t.length < r.length + 1 := by
      rw [ht] at behind; exact Nat.lt_succ_of_lt behind
    split
    · rw [ht] at behind; exact Nat.lt_succ_of_le behind
    · exact Nat.lt_of_le_of_lt (length_dropWhile_le _ t) ht'
  · exact Nat.lt_succ_of_le behind

/-- Every token takes its first character at least, so splitting ends. -/
theorem front_length_le {position : Nat} {c : Char} {r rest : List Char}
    {kind : Token.Kind} (h : front position c r = .ok (kind, rest)) :
    rest.length ≤ r.length := by
  rw [front] at h
  split at h
  · cases h; exact length_dropWhile_le _ r
  split at h
  · split at h
    · rename_i hq; cases h; exact quoted?_length_le hq
    · cases h
  split at h
  · cases h; exact name_length_le r
  split at h
  · rename_i hd; cases h; exact Nat.le_of_lt_succ (number_length_lt hd r)
  split at h
  · rename_i hi
    cases h; exact Nat.le_of_lt_succ (name_length_lt (startsName_of_startsIdent hi))
  · cases h; exact Nat.le_refl _

/-- The tokens of a text whose first character has the given position. -/
def tokens (position : Nat) (s : List Char) : Except Error (List Token) :=
  match s with
  | [] => return []
  | c :: r =>
    match _h : front position c r with
    | .error e => throw e
    | .ok (kind, rest) => do
      let more ← tokens (position + (utf8Length (c :: r) - utf8Length rest)) rest
      return ⟨kind, position⟩ :: more
termination_by s.length
decreasing_by exact Nat.lt_succ_of_le (front_length_le _h)

/-- Without characters there are no tokens. -/
@[simp]
theorem tokens_nil (position : Nat) : tokens position [] = .ok [] := by
  rw [tokens]
  rfl

/-- Behind a token the text is split further, -/
theorem tokens_of_front {position : Nat} {c : Char} {r rest : List Char} {kind : Token.Kind}
    (h : front position c r = .ok (kind, rest)) :
    tokens position (c :: r) =
      (tokens (position + (utf8Length (c :: r) - utf8Length rest)) rest).map
        (⟨kind, position⟩ :: ·) := by
  rw [tokens]
  split
  · next heq =>
    rw [h] at heq
    cases heq
  · next heq =>
    rw [h] at heq
    cases heq
    cases tokens (position + (utf8Length (c :: r) - utf8Length rest)) rest <;> rfl

/-- from the position at which the text of the token ends, -/
theorem tokens_of_front_append {position : Nat} {c : Char} {w rest : List Char}
    {kind : Token.Kind} (h : front position c (w ++ rest) = .ok (kind, rest)) :
    tokens position (c :: (w ++ rest)) =
      (tokens (position + utf8Length (c :: w)) rest).map (⟨kind, position⟩ :: ·) := by
  rw [tokens_of_front h, ← List.cons_append, Text.utf8Length_append, Nat.add_sub_cancel]

/-- and an error ends it. -/
theorem tokens_of_front_error {position : Nat} {c : Char} {r : List Char} {e : Error}
    (h : front position c r = .error e) : tokens position (c :: r) = .error e := by
  rw [tokens]
  split
  · next heq =>
    rw [h] at heq
    cases heq
    rfl
  · next heq =>
    rw [h] at heq
    cases heq

/-- The tokens of a selector. -/
def tokenize (css : String) : Except Error (List Token) :=
  tokens 0 css.toList

end XPathLocator.Css
