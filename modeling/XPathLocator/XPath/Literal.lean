/-!
# `XPathLocator.XPath.Literal`: a string as an XPath 1.0 literal

XPath 1.0 has two quotes and no escape inside a literal, so a text that holds
both quotes has no literal of its own. `Literal.ofText` writes the shortest of
three forms that denotes the text:

* `'text'` where no apostrophe occurs;
* `"text"` where apostrophes occur and no double quote does;
* `concat('a', "'", 'b"c')` where both occur: the pieces between the
  apostrophes, each in apostrophes, with `"'"` between neighbours.

In the last form an apostrophe at an end, or two side by side, leave an empty
piece, which is written `''`.
-/

set_option autoImplicit false

namespace XPathLocator.XPath.Literal

/-- The pieces of a text between its apostrophes: one more than it has
apostrophes, and none of them holds one. -/
def pieces : List Char → List (List Char)
  | [] => [[]]
  | c :: cs => if c = '\'' then [] :: pieces cs else (pieces cs).modifyHead (c :: ·)

/-- Whether a text holds both quotes, so that no single literal can hold it. -/
def needsConcat (text : String) : Bool :=
  text.toList.contains '\'' && text.toList.contains '"'

/-- The arguments of the `concat` form: the pieces of the text, and an
apostrophe in double quotes between each two. -/
def concatArguments (text : String) : List String :=
  ((pieces text.toList).map fun piece => "'" ++ .ofList piece ++ "'").intersperse "\"'\""

/-- An XPath expression whose value is exactly `text`. -/
def ofText (text : String) : String :=
  if needsConcat text then
    "concat(" ++ ", ".intercalate (concatArguments text) ++ ")"
  else if text.toList.contains '\'' then
    "\"" ++ text ++ "\""
  else
    "'" ++ text ++ "'"

end XPathLocator.XPath.Literal
