/-!
# `XPathLocator.Yaml.Character`: the classes of characters in YAML

Which characters break a line or separate words, which can stand in a text as
they are, and which open something other than a plain scalar.
-/

set_option autoImplicit false

namespace XPathLocator.Yaml

/-- Whether a character breaks a line. -/
def isBreak (c : Char) : Bool :=
  c = '\n' || c = '\r' || c = '\u0085' || c = '\u2028' || c = '\u2029'

/-- Whether a character separates words. -/
def isSeparator (c : Char) : Bool :=
  c = ' ' || c = '\t' || c = '\x00' || isBreak c

/-- Whether a character stands for itself in a YAML text. -/
def isPrintable (c : Char) : Bool :=
  let n := c.toNat
  n = 0x0A || (0x20 ≤ n && n ≤ 0x7E) || (0xA0 ≤ n && n ≤ 0xD7FF)
    || (0xE000 ≤ n && n ≤ 0xFFFD && n ≠ 0xFEFF) || 0x10000 ≤ n

/-- The characters that open something other than a plain scalar. -/
def indicators : List Char :=
  ['#', ',', '[', ']', '\x7b', '\x7d', '&', '*', '!', '|', '>', '\'', '"', '%', '@', '\x60']

/-- Whether a text is at its end or goes on with a separator. -/
def atSeparator : List Char → Bool
  | [] => true
  | c :: _ => isSeparator c

end XPathLocator.Yaml
