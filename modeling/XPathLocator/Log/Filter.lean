import XPathLocator.Log.Level
import XPathLocator.Text.Blank

/-!
# `XPathLocator.Log.Filter`: which messages are logged

A `Filter` is a list of directives, each a threshold for the messages whose
target starts with a given text. The directive with the longest such text
decides about a message, and the later one of two with the same. A message that
no directive is about is not logged.

A filter is written as directives with commas between them: a threshold alone,
a target alone, which lets everything through, or both with an equals sign.
-/

set_option autoImplicit false

namespace XPathLocator.Log

/-- What is logged for messages whose target starts with a text. -/
structure Directive where
  target : String
  /-- The least serious level that is logged; nothing is logged without one. -/
  threshold : Option Level
deriving DecidableEq, Repr

/-- Directives, of which the most specific decides. -/
abbrev Filter := List Directive

/-- The threshold that a text denotes: a level, or none for `off` and zero. -/
def threshold? (text : String) : Option (Option Level) :=
  if text.toLower = "off" || Level.number? text = some 0 then some none
  else (Level.ofText? text).map some

/-- Whether a character can start a directive. -/
def startsDirective (c : Char) : Bool :=
  c.isAlphanum || c = '-' || c = ':' || c = '_' || c = '[' || 0x80 ≤ c.toNat

/-- The directive that a text denotes. One without a threshold lets everything
through. -/
def Directive.ofText? (text : String) : Option Directive :=
  let chars := Text.trimChars text.toList
  let name := String.ofList (chars.takeWhile (· ≠ '='))
  match chars.head?, chars.dropWhile (· ≠ '=') with
  | none, _ => some ⟨"", some .trace⟩
  | some c, ending =>
    if !startsDirective c then none
    else match ending with
      | [] => match threshold? name with
        | some threshold => some ⟨"", threshold⟩
        | none => some ⟨name, some .trace⟩
      | [_] => some ⟨name, some .trace⟩
      | _ :: level => (threshold? (.ofList level)).map (⟨name, ·⟩)

namespace Filter

/-- The filter with one threshold for all messages. -/
def ofLevel (level : Level) : Filter :=
  [⟨"", some level⟩]

/-- The filter that a text denotes. A text without directives lets errors
through. -/
def ofText? (text : String) : Option Filter := do
  let directives ← ((text.splitOn ",").filter fun part => !part.isEmpty).mapM Directive.ofText?
  return if directives.isEmpty then ofLevel .error else directives

/-- Takes a directive over another one, unless it is about fewer targets. -/
def moreSpecific (best : Option Directive) (d : Directive) : Option Directive :=
  match best with
  | some b => if d.target.length < b.target.length then some b else some d
  | none => some d

/-- The directive that decides about a target. -/
def deciding? (filter : Filter) (target : String) : Option Directive :=
  (filter.filter fun d => d.target.toList.isPrefixOf target.toList).foldl moreSpecific none

/-- Whether a message of a target and a level is logged. -/
def shows (filter : Filter) (target : String) (level : Level) : Bool :=
  match (filter.deciding? target).bind (·.threshold) with
  | some threshold => level.rank ≤ threshold.rank
  | none => false

end Filter

end XPathLocator.Log
