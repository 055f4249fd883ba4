import XPathLocator.Decimal.Shortest

/-!
# `XPathLocator.Json.Value`: JSON values that keep the order of their entries

Locators are single-entry objects, and a setting may ask for the *first* entry
of a larger one, so an object is a list of entries in document order.
`Entries.put` is what building one means: a new key goes to the end, a key that
is already there keeps its place and takes the new value.

A number is an integer where it was written as one that fits in 64 bits, and a
double otherwise.
-/

set_option autoImplicit false

namespace XPathLocator

/-- A JSON number. -/
inductive Json.Number
  | int (n : Int)
  | float (x : Float)
deriving BEq, Repr

/-- A JSON value; the entries of an object in document order. -/
inductive Json
  | null
  | bool (b : Bool)
  | number (n : Json.Number)
  | string (s : String)
  | array (items : List Json)
  | object (entries : List (String × Json))
deriving BEq, Repr

namespace Json

/-- Doubles are written positionally from `1e-5` up to sixteen whole places. -/
def Number.layout : Decimal.Layout := ⟨16, 5⟩

/-- The text of a number. -/
def Number.text : Number → String
  | .int n => toString n
  | .float x => layout.renderFloat x

/-- The entries with `key` set to `value`: at its old place if it is there, at
the end if it is not. -/
def Entries.put (key : String) (value : Json) : List (String × Json) → List (String × Json)
  | [] => [(key, value)]
  | (k, v) :: rest =>
    if k = key then (k, value) :: rest else (k, v) :: Entries.put key value rest

/-- The object that results from setting the entries in turn. -/
def ofEntries (entries : List (String × Json)) : Json :=
  .object (entries.foldl (fun done (key, value) => Entries.put key value done) [])

/-- The value of a string, nothing for any other kind. -/
def string? : Json → Option String
  | .string s => some s
  | _ => none

/-- The kind of a value in words, as error messages name it. -/
def kind : Json → String
  | .null => "null"
  | .bool _ => "a boolean"
  | .number _ => "a number"
  | .string _ => "a string"
  | .array _ => "an array"
  | .object _ => "an object"

end Json

end XPathLocator
