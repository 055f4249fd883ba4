import XPathLocator.Config.Basic

/-!
# `XPathLocator.Config.Overrides`: settings from the environment

Two settings can be overridden by a word in the environment: the policy for
locator objects of several entries, and whether CSS selectors are meant for
HTML. A word that cannot be read leaves its setting alone and is reported as
`Ignored`; it has no influence on the other setting.
-/

set_option autoImplicit false

namespace XPathLocator

/-- The values of environment variables, nothing for one that is not set. -/
abbrev Environment := String → Option String

namespace Config

/-- The words that override settings, as they were given. -/
structure Overrides where
  multiKey : Option String
  cssHtml : Option String
deriving DecidableEq, Repr

namespace Overrides

/-- The variable that overrides the policy for several entries. -/
def multiKeyVariable : String := "QA_SELECTOR_MULTI_KEY"

/-- The variable that says whether selectors are meant for HTML. -/
def cssHtmlVariable : String := "QA_SELECTOR_CSS_HTML"

/-- The overrides in an environment. -/
def ofEnvironment (env : Environment) : Overrides :=
  ⟨env multiKeyVariable, env cssHtmlVariable⟩

/-- The truth value of a word, whatever the case of its letters and the white
space around it. -/
def truth? (word : String) : Option Bool :=
  match Text.foldWord word with
  | "1" | "true" | "yes" | "on" => some true
  | "0" | "false" | "no" | "off" => some false
  | _ => none

/-- An override that could not be read. -/
inductive Ignored
  /-- The word, trimmed and in lower case, names no policy. -/
  | multiKey (word : String)
  /-- The text, as it was given, is no truth value. -/
  | cssHtml (raw : String)
deriving DecidableEq, Repr

/-- The report of an override that could not be read. -/
def Ignored.message : Ignored → String
  | .multiKey word =>
    "Ignoring " ++ multiKeyVariable ++ ": " ++ Locator.MultiKeyPolicy.unknownMessage word
  | .cssHtml raw =>
    "Ignoring " ++ cssHtmlVariable ++ ": expected a boolean, got '" ++ raw ++ "'"

/-- The policy that the environment asks for. -/
def policy? (o : Overrides) : Option Locator.MultiKeyPolicy := do
  (Locator.MultiKeyPolicy.ofWord (← o.multiKey)).toOption

/-- Whether selectors are meant for HTML, if the environment says so. -/
def html? (o : Overrides) : Option Bool := do
  truth? (← o.cssHtml)

/-- The policy's word, where it names none. -/
def ignoredMultiKey? (o : Overrides) : Option Ignored := do
  match Locator.MultiKeyPolicy.ofWord (← o.multiKey) with
  | .ok _ => none
  | .error word => some (.multiKey word)

/-- The truth value's text, where it is none. -/
def ignoredCssHtml? (o : Overrides) : Option Ignored := do
  let raw ← o.cssHtml
  match truth? raw with
  | some _ => none
  | none => some (.cssHtml raw)

/-- The overrides that cannot be read, the policy's first. -/
def ignored (o : Overrides) : List Ignored :=
  o.ignoredMultiKey?.toList ++ o.ignoredCssHtml?.toList

/-- The settings with every override that can be read. -/
def apply (o : Overrides) (c : Config) : Config :=
  { c with multiKey := o.policy?.getD c.multiKey, css := ⟨o.html?.getD c.css.html⟩ }

end Overrides

end Config

end XPathLocator
