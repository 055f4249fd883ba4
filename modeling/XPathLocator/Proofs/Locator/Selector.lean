import XPathLocator.Locator.Translator
import XPathLocator.Proofs.Css.Identifier
import XPathLocator.Proofs.Css.Meaning

/-!
# `XPathLocator.Proofs.Locator.Selector`: classes and identifiers, as locators and as selectors

An element is found by its class with the locator `className` or with a selector such as
`.menu`, and by its `id` likewise. One XPath is written by `Locator.Rule` and the other one
by `Css.Compiler`, and the two have no definition in common. `toXPath_eq_compile` says that
they are the same text for every value that a locator leaves untrimmed. In a selector the
value is a name, so it may have to be escaped there, and it does not matter how.
-/

set_option autoImplicit false

namespace XPathLocator.Locator

open Css (Compiler tokenize)
open Text (isBlank)

variable {v : String}

/-- A simple selector alone stands in brackets behind a star. -/
theorem compile_simple (compiler : Compiler) {text condition : String} {simple : Css.Simple}
    (hparse : Css.parse text = .ok [⟨⟨none, [simple]⟩, []⟩])
    (hcondition : compiler.condition "*" simple = .ok condition) (hne : condition ≠ "") :
    compiler.compile text = .ok (Rule.axis ++ ("*[" ++ condition ++ "]")) := by
  have helement : compiler.element none = XPath.Expr.any := by
    have hstar : compiler.normalName "*" = "*" := (Css.normalName_eq_star compiler).mpr rfl
    rw [Compiler.element]
    simp only [Option.getD_none, hstar]
    rfl
  have hcompound : compiler.compound ⟨none, [simple]⟩ = .ok ⟨"", "*", condition⟩ := by
    rw [Compiler.compound, helement, Compiler.narrow, XPath.Expr.any, hcondition]
    rfl
  have hrender : XPath.Expr.render ⟨"", "*", condition⟩ = "*[" ++ condition ++ "]" := by
    simp [XPath.Expr.render, String.isEmpty_iff, hne, ← String.append_assoc]
  rw [Css.compile_of_parse compiler hparse, hcompound, ← hrender]
  rfl

/-- A selector of one class that is not empty compiles to what the rule for class names writes. -/
theorem compile_class (compiler : Compiler) {text : String}
    (hparse : Css.parse text = .ok [⟨⟨none, [.ofClass v]⟩, []⟩]) (hne : v ≠ "") :
    compiler.compile text = .ok (Rule.className v) := by
  have hword : Css.includesWord "@class" v =
      "@class and contains(concat(' ', normalize-space(@class), ' '), "
        ++ XPath.Literal.ofText (" " ++ v ++ " ") ++ ")" := by
    rw [Css.includesWord, if_neg (by simpa [String.isEmpty_iff] using hne)]
    simp [String.append_assoc]
  rw [compile_simple compiler hparse rfl, hword, Rule.className]
  · have hclose : ∀ s : String, s ++ ")" ++ "]" = s ++ ")]" := fun s => String.append_assoc
    simp [← String.append_assoc, hclose]
  · simp [hword]

/-- A selector of one hash compiles to what the rule for identifiers writes. -/
theorem compile_id (compiler : Compiler) {text : String}
    (hparse : Css.parse text = .ok [⟨⟨none, [.id v]⟩, []⟩]) :
    compiler.compile text = .ok (Rule.id v) := by
  rw [compile_simple compiler hparse rfl, Rule.id]
  · simp [← String.append_assoc]
  · simp

/-- **A class or an identifier has one XPath**, as a locator and as a selector, for every
spelling of its value as a name in the selector, and every value has a spelling. -/
theorem toXPath_eq_compile (t : Translator) (compiler : Compiler) (hne : v ≠ "")
    (hhead : v.toList.head?.any isBlank = false) (hlast : v.toList.getLast?.any isBlank = false) :
    (∃ e, tokenize e = .ok [⟨.ident v, 0⟩]) ∧
      ∀ e, tokenize e = .ok [⟨.ident v, 0⟩] →
        (∃ x, t.toXPath ⟨.className, v⟩ = .ok x ∧ compiler.compile ("." ++ e) = .ok x) ∧
        ∃ x, t.toXPath ⟨.id, v⟩ = .ok x ∧ compiler.compile ("#" ++ e) = .ok x := by
  have htrim : Text.trim v = v := Text.trim_eq_self hhead hlast
  refine ⟨⟨_, Css.tokenize_escaped hne⟩, fun e he => ⟨⟨Rule.className v, ?_, ?_⟩, Rule.id v, ?_, ?_⟩⟩
  · show Except.ok (Rule.className (Text.trim v)) = _
    rw [htrim]
  · exact compile_class compiler (Css.parse_class he) hne
  · show Except.ok (Rule.id (Text.trim v)) = _
    rw [htrim]
  · exact compile_id compiler (Css.parse_id he)

/-- A value with a space and an apostrophe in it, and one spelling of it among others. -/
theorem toXPath_eq_compile_quote :
    let v := "it's me"
    let e := "it\\'s\\20me"
    tokenize e = .ok [⟨.ident v, 0⟩] ∧
      ∃ x, Translator.toXPath ⟨Compiler.compile ⟨true⟩, .reject⟩ ⟨.className, v⟩ = .ok x ∧
        Compiler.compile ⟨false⟩ ("." ++ e) = .ok x := by
  intro v e
  have htokens : tokenize e = .ok [⟨.ident v, 0⟩] := by decide +kernel
  obtain ⟨_, hspelling⟩ := toXPath_eq_compile ⟨Compiler.compile ⟨true⟩, .reject⟩ ⟨false⟩ (v := v)
    (by decide) (by decide) (by decide)
  exact ⟨htokens, (hspelling e htokens).1⟩

end XPathLocator.Locator
