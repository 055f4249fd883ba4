/-!
# `XPathLocator.Log.Level`: how much is logged

Levels are ordered by how much they let through. A level is given by its name,
in letters of either case, or by its number from one to five.
-/

set_option autoImplicit false

namespace XPathLocator.Log

/-- How serious a message is, the most serious first. -/
inductive Level
  | error
  | warn
  | info
  | debug
  | trace
deriving DecidableEq, Repr

namespace Level

/-- The place of a level among all, from one. -/
def rank : Level → Nat
  | .error => 1
  | .warn => 2
  | .info => 3
  | .debug => 4
  | .trace => 5

/-- The level of a name in lower case. -/
def ofName? : String → Option Level
  | "error" => some .error
  | "warn" => some .warn
  | "info" => some .info
  | "debug" => some .debug
  | "trace" => some .trace
  | _ => none

/-- The level at a place. -/
def ofRank? : Nat → Option Level
  | 1 => some .error
  | 2 => some .warn
  | 3 => some .info
  | 4 => some .debug
  | 5 => some .trace
  | _ => none

/-- A level stands at its rank. -/
@[simp]
theorem ofRank?_rank (l : Level) : ofRank? l.rank = some l := by
  cases l <;> rfl

/-- The number that a text denotes: digits, perhaps behind a plus sign. -/
def number? (text : String) : Option Nat :=
  let digits := match text.toList with
    | '+' :: rest => rest
    | other => other
  if !digits.isEmpty && digits.all Char.isDigit then
    some (digits.foldl (fun n d => n * 10 + (d.toNat - '0'.toNat)) 0)
  else none

/-- The level that a text denotes. -/
def ofText? (text : String) : Option Level :=
  match number? text with
  | some n => ofRank? n
  | none => ofName? text.toLower

end Level

end XPathLocator.Log
