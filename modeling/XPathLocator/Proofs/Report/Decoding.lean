import XPathLocator.Json.Reader
import XPathLocator.Proofs.Report
import XPathLocator.Proofs.Yaml.Entries
import XPathLocator.Proofs.Yaml.Writer

/-!
# `XPathLocator.Proofs.Report.Decoding`: what is read back from a printed report

A report is printed as JSON or YAML without the white space that the text ends in. In JSON nothing
is lost, since an object and a string end in a brace and a quote (`Json.Delimits`). In YAML the last
text of a report may stand there bare, as a plain scalar or a literal block, and then white space at
the end of the text is part of the value and is cut (`Yaml.EndsBare`). Otherwise only the line break
is cut that ends the document, and a reader can do without that one.

The writers and readers of JSON and YAML are parameters here. What is relied on of them is
`Json.Delimits`, `Yaml.LawfulWriter` and `Yaml.OptionalBreak`, and that the data are read back from
the text before it is cut.
-/

set_option autoImplicit false

namespace XPathLocator

open Text (endsBlank endsBlank_append)

/-! ### JSON -/

namespace Json

/-- What is relied on of a library that writes JSON: objects stand in braces and strings in
quotes, with nothing behind them. -/
structure Delimits (write : Json → String) : Prop where
  object (entries : List (String × Json)) : ∃ inner, write (.object entries) = inner ++ "\x7d"
  string (s : String) : ∃ inner, write (.string s) = inner ++ "\""

/-- What stands between brackets ends in the closing one. -/
theorem exists_bracketed (level : Nat) (opening closing : String) (lines : List String) :
    ∃ inner, bracketed level opening closing lines = inner ++ closing := by
  rw [bracketed]
  split <;> exact ⟨_, rfl⟩

/-- The writer over several lines closes what it opens. -/
theorem delimits_pretty : Delimits pretty where
  object entries := by
    rw [pretty, prettyAt]
    exact exists_bracketed ..
  string s := ⟨_, by rw [pretty, prettyAt, quote]⟩

/-- An object of strings. -/
def ofTexts (entries : List (String × String)) : Json :=
  .object (entries.map fun (key, text) => (key, .string text))

/-- The entries of an object of strings that a text holds. -/
def textEntries? (text : String) : Option (List (String × String)) :=
  match read? text with
  | some (.object entries) => entries.mapM fun (key, value) => return (key, ← value.string?)
  | _ => none

end Json

/-! ### Reports -/

namespace Report

variable {config : Config} {registry : Registry} {report : Report} {text : String}

/-- The data of a report are a text, or they end in one. -/
theorem Answers.data_cases (h : Answers config registry report text) :
    report.data = .string text ∨ ∃ before key, before ≠ [] ∧ key ∈ Yaml.lastKeys ∧
      report.data = .object (before ++ [(key, .string text)]) := by
  cases h with
  | @translate _ _ _ t =>
      exact .inr ⟨[("strategy", .string t.strategy.text), ("value", .string t.value)], "xpath",
        by simp, by decide, rfl⟩
  | @engine _ _ _ t =>
      exact .inr ⟨[("engine", .string t.engine), ("locator", t.locator)], "xpath", by simp,
        by decide, rfl⟩
  | @css _ c =>
      exact .inr ⟨[("selector", .string c.selector)], "xpath", by simp, by decide, rfl⟩
  | escape raw => exact .inr ⟨[("raw", .string raw)], "literal", by simp, by decide, rfl⟩
  | configPath => exact .inl rfl

/-- No report ends in white space in JSON. -/
theorem Answers.endsBlank_json {write : Json → String} (h : Answers config registry report text)
    (hwrite : Json.Delimits write) : endsBlank (write report.data) = false := by
  rcases h.data_cases with hdata | ⟨before, key, -, -, hdata⟩ <;> rw [hdata]
  · obtain ⟨inner, hinner⟩ := hwrite.string text
    rw [hinner, endsBlank_append _ (by decide)]
    decide
  · obtain ⟨inner, hinner⟩ := hwrite.object (before ++ [(key, .string text)])
    rw [hinner, endsBlank_append _ (by decide)]
    decide

/-- In YAML a report ends in the scalar for its last text. If that ends in no line break, a reader
can do without the one behind it. -/
theorem Answers.exists_scalar {write : Json → String} {style : String → Yaml.Style}
    {read? : String → Option Json} (h : Answers config registry report text)
    (hwrite : Yaml.LawfulWriter write style) (hread : Yaml.OptionalBreak write read?) :
    ∃ front scalar, (style text).Writes text scalar ∧
      write report.data = front ++ Yaml.closeLine scalar ∧
      (scalar.toList.getLast?.any Yaml.isBreak = false →
        read? (front ++ scalar ++ "\n") = read? (front ++ scalar)) := by
  rcases h.data_cases with hdata | ⟨before, key, hne, hkey, hdata⟩ <;> rw [hdata]
  · obtain ⟨scalar, hscalar, htext⟩ := hwrite.text text
    refine ⟨"", scalar, hscalar, by rw [htext, String.empty_append], fun hbreak => ?_⟩
    rw [String.empty_append]
    exact hread.text hscalar hbreak
  · obtain ⟨scalar, hscalar, hentry⟩ := hwrite.entry hne hkey text
    exact ⟨_, scalar, hscalar, hentry, hread.entry hne hkey hscalar⟩

end Report

end XPathLocator
