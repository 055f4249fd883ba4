import XPathLocator.Json.Value
import XPathLocator.Locator.Error
import XPathLocator.Locator.Strategy
import XPathLocator.Text.Blank

/-!
# `XPathLocator.Locator.Basic`: locators and their JSON form

A locator is a strategy and a value, in JSON an object with one entry such as
`id` and `login`. `Locator.ofJson` reads that form. Its checks come in a fixed
order: the kind of the value, then that there is an entry, then that there are
not too many, then that the value is a string, and last that the strategy
exists.

A `MultiKeyPolicy` says whether an object with further entries is refused or
taken by its first one.
-/

set_option autoImplicit false

namespace XPathLocator

/-- What is done with a locator object of several entries. -/
inductive Locator.MultiKeyPolicy
  /-- It is refused. -/
  | reject
  /-- Its first entry counts, in document order. -/
  | firstEntry
deriving DecidableEq, Repr

namespace Locator.MultiKeyPolicy

/-- The name of a policy in a configuration. -/
def text : MultiKeyPolicy → String
  | .reject => "reject"
  | .firstEntry => "first_entry"

/-- The policy of a word, whatever the case of its letters and the white space
around it. A word that names none is given back in lower case. -/
def ofWord (word : String) : Except String MultiKeyPolicy :=
  match Text.foldWord word with
  | "reject" => .ok .reject
  | "first_entry" | "first-entry" | "first" => .ok .firstEntry
  | other => .error other

/-- The wording for a word that names no policy. -/
def unknownMessage (word : String) : String :=
  "unknown multi-key policy '" ++ word ++ "'"

end Locator.MultiKeyPolicy

/-- A strategy and the value it works on. -/
structure Locator where
  strategy : Locator.Strategy
  /-- The value as it was given. -/
  value : String
deriving DecidableEq, Repr

namespace Locator

/-- The locator of a strategy's name and a value. -/
def ofPair (strategy value : String) : Except Error Locator :=
  match Strategy.ofText? strategy with
  | some s => .ok ⟨s, value⟩
  | none => .error (.unknownStrategy strategy)

/-- The locator that a JSON value denotes under a policy. -/
def ofJson (policy : MultiKeyPolicy) : Json → Except Error Locator
  | .object [] => .error (.malformed .noEntry)
  | .object ((strategy, value) :: rest) =>
    if policy = .reject ∧ rest ≠ [] then
      .error (.malformed (.manyEntries (rest.length + 1)))
    else match value with
      | .string s => ofPair strategy s
      | other => .error (.malformed (.valueNotString strategy other.kind))
  | other => .error (.malformed (.notObject other.kind))

/-- The JSON form of a locator. -/
def toJson (l : Locator) : Json :=
  .object [(l.strategy.text, .string l.value)]

/-- The value that is translated: trimmed, except where it is an XPath. -/
def effectiveValue (l : Locator) : String :=
  match l.strategy with
  | .xpath => l.value
  | _ => Text.trim l.value

/-- A locator in one line. -/
def render (l : Locator) : String :=
  l.strategy.text ++ "=" ++ l.value

end Locator

end XPathLocator
