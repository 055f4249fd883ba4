/-!
# `XPathLocator.Text.Blank`: white space, as Unicode defines it

Selectors, locator values and settings are all trimmed, and all by the same
class of characters: the Unicode property `White_Space`. It is wider than the
white space of XML (which has only space, tab, line feed and carriage return)
and narrower than what an eye takes for blank: the zero-width space `U+200B`
and the byte order mark `U+FEFF` do not belong to it.

`trim` cuts blanks at both ends and nothing else, `trimEnd` at the end only.
-/

set_option autoImplicit false

namespace XPathLocator.Text

/-- The code points with the property `White_Space`, as inclusive ranges in
ascending order. -/
def blankRanges : List (Nat × Nat) :=
  [(0x0009, 0x000D), (0x0020, 0x0020), (0x0085, 0x0085), (0x00A0, 0x00A0),
   (0x1680, 0x1680), (0x2000, 0x200A), (0x2028, 0x2029), (0x202F, 0x202F),
   (0x205F, 0x205F), (0x3000, 0x3000)]

/-- Whether a character has the property `White_Space`. -/
def isBlank (c : Char) : Bool :=
  blankRanges.any fun (first, last) => first ≤ c.toNat && c.toNat ≤ last

/-- Drops the blanks that a text ends in. -/
def trimEndChars (cs : List Char) : List Char :=
  (cs.reverse.dropWhile isBlank).reverse

/-- Drops the blanks at both ends of a text. -/
def trimChars (cs : List Char) : List Char :=
  trimEndChars (cs.dropWhile isBlank)

/-- Drops the blanks that a string ends in. -/
def trimEnd (s : String) : String :=
  .ofList (trimEndChars s.toList)

/-- Drops the blanks at both ends of a string. -/
def trim (s : String) : String :=
  .ofList (trimChars s.toList)

/-- Trimmed and with the ASCII letters in lower case: the form in which the
words of a setting are compared. -/
def foldWord (s : String) : String :=
  (trim s).toLower

/-- The length of a text in UTF-8 bytes, the unit of every reported position. -/
def utf8Length (cs : List Char) : Nat :=
  cs.foldr (fun c n => c.utf8Size + n) 0

/-- No characters, no bytes. -/
@[simp]
theorem utf8Length_nil : utf8Length [] = 0 := rfl

/-- The first character takes its bytes, and the others theirs. -/
@[simp]
theorem utf8Length_cons (c : Char) (cs : List Char) :
    utf8Length (c :: cs) = c.utf8Size + utf8Length cs := rfl

/-- Lengths add up, so the position after two pieces is the sum of theirs. -/
@[simp]
theorem utf8Length_append (as bs : List Char) :
    utf8Length (as ++ bs) = utf8Length as + utf8Length bs := by
  induction as with
  | nil => simp
  | cons c cs ih => simp [ih, Nat.add_assoc]

end XPathLocator.Text
