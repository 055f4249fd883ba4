import XPathLocator.Command
import XPathLocator.Proofs.Css.Margin
import XPathLocator.Proofs.Locator.Json

/-!
# `XPathLocator.Proofs.Engine`: one selector, three ways to compile it

A selector is compiled by the `css` engine, by the command `css`, and as the `css` value of
a locator by the engine `se`. Under one configuration the first two are the same compiler
(`css_engine_eq_ok_iff`, `css_command_eq_ok_iff`). The third one is that compiler behind
`Text.trim` (`se_engine_eq_ok_iff`), since a locator's value is trimmed. That makes a
difference only where trimming cuts the last token (`engines_agree_on_css`).

The first section is about registries. Registering three engines is three times
`Registry.engine_register`, whatever their order.
-/

set_option autoImplicit false

namespace XPathLocator

/-! ### Registries -/

namespace Registry

/-- To look a name up in front of others is to compare it first. -/
theorem lookup_cons_eq_ite (name n : String) (engine : Engine)
    (entries : List (String × Engine)) : ((name, engine) :: entries).lookup n =
      if n = name then some engine else entries.lookup n := by
  rw [List.lookup_cons]
  by_cases h : n = name
  · rw [if_pos h, beq_iff_eq.mpr h]
  · rw [if_neg h, beq_eq_false_iff_ne.mpr h]

/-- An engine that is inserted is found under its name, and under the other names what was there.
Induction on the entries. -/
theorem lookup_insert (name n : String) (engine : Engine) (entries : List (String × Engine)) :
    (insert name engine entries).lookup n = if n = name then some engine else entries.lookup n := by
  induction entries with
  | nil => exact lookup_cons_eq_ite name n engine []
  | cons entry rest ih =>
      obtain ⟨m, e⟩ := entry
      rw [insert]
      split
      · exact lookup_cons_eq_ite name n engine _
      split
      · next hname =>
        subst hname
        rw [lookup_cons_eq_ite, lookup_cons_eq_ite]
        by_cases h : n = name <;> simp [h]
      · next hname =>
        rw [lookup_cons_eq_ite, lookup_cons_eq_ite, ih]
        by_cases h : n = name
        · rw [if_neg (h ▸ hname), if_pos h, if_pos h]
        · rw [if_neg h, if_neg h]

/-- **A registered engine** is found under its name, and what another name finds stays. -/
theorem engine_register (r : Registry) (name n : String) (engine : Engine) :
    (r.register name engine).engine n = if n = name then .ok engine else r.engine n := by
  rw [Registry.engine, Registry.engine, register, lookup_insert]
  by_cases h : n = name
  · rw [if_pos h, if_pos h]
  · rw [if_neg h, if_neg h]

/-- A registry answers by the engine of the name. -/
theorem toXPath_of_engine {r : Registry} {name : String} {engine : Engine}
    (h : r.engine name = .ok engine) (json : Json) : r.toXPath name json = engine json := by
  rw [toXPath, h]
  rfl

variable (css : Locator.CssCompiler) (multiKey : Locator.MultiKeyPolicy)

/-- Under `se` the default registry has the engine for locators. -/
theorem withDefaults_se :
    (withDefaults css multiKey).engine "se" = .ok (.ofTranslator ⟨css, multiKey⟩) := by
  simp [withDefaults, locatorEngine, engine_register]

/-- Under `css` the default registry has the engine for selectors. -/
theorem withDefaults_css : (withDefaults css multiKey).engine "css" = .ok (.css css) := by
  simp [withDefaults, engine_register]

end Registry

/-! ### Selectors -/

/-- A selector is compiled exactly if it is read and its group is compiled. -/
theorem Css.Compiler.compile_eq_ok_iff (compiler : Compiler) (s x : String) :
    compiler.compile s = .ok x ↔
      ∃ g, parse s = .ok g ∧ compiler.group defaultAxis g = .ok x := by
  rw [compile, compileFrom]
  cases parse s with
  | error e =>
      show Except.error e = .ok x ↔ _
      simp
  | ok g =>
      show compiler.group defaultAxis g = .ok x ↔ _
      simp

/-- A compiler takes a selector and its trimmed form alike where the parser does. -/
theorem Css.Compiler.compile_trim (compiler : Compiler) (s : String)
    (h : ∀ k, lastToken? s = some k → EndsBlank k → lastToken? (Text.trim s) = some k)
    (x : String) : compiler.compile (Text.trim s) = .ok x ↔ compiler.compile s = .ok x := by
  simp only [compile_eq_ok_iff, parse_trim s h]

/-- The `css` engine compiles a string as it is. -/
theorem Engine.css_string (compile : Locator.CssCompiler) (s : String) :
    Engine.css compile (.string s) = (compile s).mapError .invalidCss :=
  rfl

/-- A `css` value is trimmed and compiled. -/
theorem Locator.Translator.jsonToXPath_css (t : Translator) (s : String) :
    t.jsonToXPath (.object [("css", .string s)]) = (t.css (Text.trim s)).mapError .invalidCss := by
  rw [jsonToXPath, ofJson_entry]
  rfl

namespace Config

variable (config : Config) (s x : String)

/-- The `css` engine is the compiler. -/
theorem css_engine_eq_ok_iff :
    config.registry.toXPath "css" (.string s) = .ok x ↔ config.css.compile s = .ok x := by
  rw [registry, Registry.toXPath_of_engine (Registry.withDefaults_css _ _), Engine.css_string]
  exact mapError_eq_ok_iff _ _ _

/-- The engine for locators is the compiler of what is left of a `css` value without the white
space around it. -/
theorem se_engine_eq_ok_iff :
    config.registry.toXPath "se" (.object [("css", .string s)]) = .ok x ↔
      config.css.compile (Text.trim s) = .ok x := by
  rw [registry, Registry.toXPath_of_engine (Registry.withDefaults_se _ _), Engine.ofTranslator,
    Locator.Translator.jsonToXPath_css]
  exact mapError_eq_ok_iff _ _ _

/-- The command reports what the compiler gives. -/
theorem css_command_eq_ok_iff :
    (∃ report, Command.css config s = .ok report ∧ report.xpath = x) ↔
      config.css.compile s = .ok x := by
  rw [Command.css]
  cases config.css.compile s with
  | error e => simp [Except.mapError, bind, Except.bind]
  | ok y => simp [Except.mapError, bind, Except.bind, pure, Except.pure]

/-- **One selector, three ways to compile it**: the `css` engine and the command agree on
every selector, and the engine for locators agrees with them on the trimmed one. On the
selector itself it agrees too, unless the last token is a name that ends in white space and
that trimming takes away. -/
theorem engines_agree_on_css :
    (∀ x, config.registry.toXPath "css" (.string s) = .ok x ↔
      ∃ report, Command.css config s = .ok report ∧ report.xpath = x) ∧
    (∀ x, config.registry.toXPath "se" (.object [("css", .string s)]) = .ok x ↔
      config.registry.toXPath "css" (.string (Text.trim s)) = .ok x) ∧
    ((∀ k, Css.lastToken? s = some k → Css.EndsBlank k →
        Css.lastToken? (Text.trim s) = some k) →
      ∀ x, config.registry.toXPath "se" (.object [("css", .string s)]) = .ok x ↔
        config.registry.toXPath "css" (.string s) = .ok x) := by
  refine ⟨fun x => ?_, fun x => ?_, fun h x => ?_⟩
  · rw [css_engine_eq_ok_iff, css_command_eq_ok_iff]
  · rw [se_engine_eq_ok_iff, css_engine_eq_ok_iff]
  · rw [se_engine_eq_ok_iff, css_engine_eq_ok_iff, Css.Compiler.compile_trim _ s h]

/-- White space around a selector whose last name ends in a space: the escape of the space
stands before the white space that is trimmed, so the name is the last token either way. -/
theorem engines_agree_on_css_margin :
    let s := " a\\20 "
    let x := "descendant-or-self::*[name() = 'a ']"
    Css.lastToken? s = some (.ident "a ") ∧ Css.lastToken? (Text.trim s) = some (.ident "a ") ∧
      (∃ report, Command.css {} s = .ok report ∧ report.xpath = x) ∧
      ({} : Config).registry.toXPath "css" (.string s) = .ok x ∧
      ({} : Config).registry.toXPath "se" (.object [("css", .string s)]) = .ok x := by
  intro s x
  have hlast : Css.lastToken? s = some (.ident "a ") := by decide +kernel
  have htrim : Css.lastToken? (Text.trim s) = some (.ident "a ") := by decide +kernel
  obtain ⟨hcommand, _, hse⟩ := engines_agree_on_css {} s
  have hcss : ({} : Config).registry.toXPath "css" (.string s) = .ok x := by
    have htokens : Css.tokenize s = .ok [⟨.blank, 0⟩, ⟨.ident "a ", 1⟩] := by decide +kernel
    have hparse : Css.parse s = .ok [⟨⟨some "a ", []⟩, []⟩] := by
      rw [Css.parse_eq_group (by decide +kernel) htokens]
      with_unfolding_all rfl
    exact (css_engine_eq_ok_iff ..).mpr
      ((Css.Compiler.compile_eq_ok_iff ..).mpr ⟨_, hparse, by decide +kernel⟩)
  refine ⟨hlast, htrim, (hcommand x).mp hcss, hcss, (hse (fun k hk _ => ?_) x).mpr hcss⟩
  rw [htrim, ← hlast, hk]

/-- An escaped space at the end is trimmed, and the backslash left alone is refused. -/
theorem engines_differ_on_escaped_space :
    ({} : Config).registry.toXPath "css" (.string "a\\ ") =
      .ok "descendant-or-self::*[name() = 'a ']" ∧
    ∀ x, ({} : Config).registry.toXPath "se" (.object [("css", .string "a\\ ")]) ≠ .ok x := by
  have hsource : Css.tokenize "a\\ " = .ok [⟨.ident "a ", 0⟩] := by decide +kernel
  have hsourceParse : Css.parse "a\\ " = .ok [⟨⟨some "a ", []⟩, []⟩] := by
    rw [Css.parse_eq_group (by decide +kernel) hsource]
    with_unfolding_all rfl
  have htrim : Text.trim "a\\ " = "a\\" := by decide +kernel
  have htokens : Css.tokenize "a\\" = .ok [⟨.ident "a", 0⟩, ⟨.delim '\\', 1⟩] := by decide +kernel
  have hparse : Css.parse "a\\" = .error (.unexpectedToken "\\" 1 .commaOrEnd) := by
    rw [Css.parse_eq_group (by decide +kernel) htokens]
    with_unfolding_all rfl
  refine ⟨(css_engine_eq_ok_iff ..).mpr
    ((Css.Compiler.compile_eq_ok_iff ..).mpr ⟨_, hsourceParse, by decide +kernel⟩), fun x hx => ?_⟩
  obtain ⟨g, hg, _⟩ := (Css.Compiler.compile_eq_ok_iff ..).mp ((se_engine_eq_ok_iff ..).mp hx)
  rw [htrim, hparse] at hg
  cases hg

end Config

end XPathLocator
