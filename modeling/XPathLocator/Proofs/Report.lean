import XPathLocator.Proofs.Locator.Ending

/-!
# `XPathLocator.Proofs.Report`: the text of an answer

The commands `translate`, `engine`, `css` and `escape` answer with one text, which is all that is
printed for people, and the data of the report end in it (`Answers`). Printing cuts white space at
the end. It cuts none of what is made here, since no such text ends in white space. But an XPath may
be supplied, and so may the path of a configuration file (`Supplied`). These stand in the report as
they were given, and they are printed without the white space that they end in
(`render_human_eq_iff`).
-/

set_option autoImplicit false

namespace XPathLocator

open Text (endsBlank)

/-! ### What the commands report -/

namespace Command

/-- A report on a locator holds the XPath that the locator has. -/
theorem exists_of_translate {translator : Locator.Translator} {strategy value json : Option String}
    {t : Report.TranslatedLocator} (h : translate translator strategy value json = .ok t) :
    translator.toXPath ⟨t.strategy, t.value⟩ = .ok t.xpath := by
  obtain ⟨l, -, h⟩ := exists_of_bind_eq_ok h
  obtain ⟨x, hx, h⟩ := exists_of_bind_eq_ok h
  cases h
  exact (mapError_eq_ok_iff _ _ _).mp hx

/-- A report on an engine holds the XPath that the engine answers with. -/
theorem exists_of_engine {registry : Registry} {name text : String} {json : Bool}
    {t : Report.EngineAnswer} (h : engine registry name text json = .ok t) :
    registry.toXPath t.engine t.locator = .ok t.xpath := by
  obtain ⟨locator, -, h⟩ := exists_of_bind_eq_ok h
  obtain ⟨x, hx, h⟩ := exists_of_bind_eq_ok h
  cases h
  exact (mapError_eq_ok_iff _ _ _).mp hx

/-- A report on a selector holds the XPath that it compiles to. -/
theorem compile_of_css {config : Config} {selector : String} {c : Report.CompiledSelector}
    (h : css config selector = .ok c) : config.css.compile selector = .ok c.xpath := by
  obtain ⟨x, hx, h⟩ := exists_of_bind_eq_ok h
  cases h
  exact (mapError_eq_ok_iff _ _ _).mp hx

end Command

namespace Registry

variable (css : Locator.CssCompiler) (multiKey : Locator.MultiKeyPolicy)

/-- Under `xpath` the default registry has the engine for XPaths. -/
theorem withDefaults_xpath : (withDefaults css multiKey).engine "xpath" = .ok .xpath := by
  simp [withDefaults, engine_register]

/-- There are three engines. -/
theorem withDefaults_cases {name : String} {e : Engine}
    (h : (withDefaults css multiKey).engine name = .ok e) :
    name = "se" ∨ name = "css" ∨ name = "xpath" := by
  by_contra hnot
  obtain ⟨hse, hcss, hxpath⟩ := by simpa only [not_or] using hnot
  have hempty : empty.engine name = .error (.unknownEngine name) := rfl
  simp [withDefaults, locatorEngine, engine_register, hse, hcss, hxpath, hempty] at h

end Registry

namespace Report

/-- A report of a command, and the text that its data end in. -/
inductive Answers (config : Config) (registry : Registry) : Report → String → Prop
  | translate {strategy value json : Option String} {t : TranslatedLocator}
      (h : Command.translate config.translator strategy value json = .ok t) :
      Answers config registry (.locator t) t.xpath
  | engine {name text : String} {json : Bool} {t : EngineAnswer}
      (h : Command.engine registry name text json = .ok t) :
      Answers config registry (.engine t) t.xpath
  | css {selector : String} {c : CompiledSelector} (h : Command.css config selector = .ok c) :
      Answers config registry (.selector c) c.xpath
  | escape (raw : String) :
      Answers config registry (.escaped (Command.escape raw)) (Command.escape raw).literal
  | configPath (path : String) : Answers config registry (.configPath path) path

/-- A text that was supplied and is reported as it stands: an XPath, or a path of a file. -/
inductive Supplied : Report → String → Prop
  | locator {t : TranslatedLocator} (h : t.strategy = .xpath) : Supplied (.locator t) t.value
  | xpathEngine {t : EngineAnswer} {s : String} (hname : t.engine = "xpath")
      (hlocator : t.locator = .string s) : Supplied (.engine t) s
  | locatorEngine {t : EngineAnswer} {s : String} {rest : List (String × Json)}
      (hname : t.engine = "se") (hlocator : t.locator = .object (("xpath", .string s) :: rest)) :
      Supplied (.engine t) s
  | path (path : String) : Supplied (.configPath path) path

variable {config : Config} {registry : Registry} {report : Report} {text : String}

/-- A locator in its JSON form has an XPath: it was supplied, or it ends in no white space. -/
theorem jsonToXPath_cases {json : Json} {x : String}
    (h : config.translator.jsonToXPath json = .ok x) :
    (∃ rest, json = .object (("xpath", .string x) :: rest)) ∨
      endsBlank x = false ∧ ∀ s rest, json ≠ .object (("xpath", .string s) :: rest) := by
  obtain ⟨l, hl, hx⟩ := exists_of_bind_eq_ok h
  obtain ⟨rest, -, rfl⟩ := Locator.ofJson_eq_ok_iff.mp hl
  by_cases hstrategy : l.strategy = .xpath
  · obtain ⟨strategy, value⟩ := l
    cases hstrategy
    cases hx
    exact .inl ⟨rest, rfl⟩
  · refine .inr ⟨Locator.endsBlank_toXPath hx hstrategy, ?_⟩
    rintro s rest' heq
    injection heq with heq
    injection heq with heq
    have hname := Locator.Strategy.ofText?_eq_some_iff.mpr (Prod.mk.inj heq).1
    exact hstrategy (Option.some_inj.mp (hname.symm.trans rfl))

/-- Of the engines that are there by default, `se` and `xpath` can be supplied with an XPath, and
`css` makes one. -/
theorem engine_cases_supplied {name : String} {locator : Json} {x : String}
    (h : config.registry.toXPath name locator = .ok x) :
    Supplied (.engine ⟨name, locator, x⟩) x ∧
        (∀ s, Supplied (.engine ⟨name, locator, x⟩) s → s = x) ∨
      endsBlank x = false ∧ ∀ s, ¬ Supplied (.engine ⟨name, locator, x⟩) s := by
  obtain ⟨e, he, -⟩ := exists_of_bind_eq_ok h
  rcases Registry.withDefaults_cases _ _ he with rfl | rfl | rfl
  · rw [Config.registry, Registry.toXPath_of_engine (Registry.withDefaults_se _ _)] at h
    rcases jsonToXPath_cases h with ⟨rest, rfl⟩ | ⟨hblank, hnot⟩
    · refine .inl ⟨.locatorEngine rfl rfl, fun s hs => ?_⟩
      cases hs with
      | xpathEngine hname => simp at hname
      | locatorEngine _ hlocator =>
          cases hlocator
          rfl
    · refine .inr ⟨hblank, fun s hs => ?_⟩
      cases hs with
      | xpathEngine hname => simp at hname
      | locatorEngine _ hlocator => exact hnot _ _ hlocator
  · rw [Config.registry, Registry.toXPath_of_engine (Registry.withDefaults_css _ _)] at h
    obtain ⟨s, -, hs⟩ := exists_of_bind_eq_ok h
    refine .inr ⟨Css.endsBlank_compile ((mapError_eq_ok_iff _ _ _).mp hs), fun s hs => ?_⟩
    cases hs with
    | xpathEngine hname | locatorEngine hname => simp at hname
  · rw [Config.registry, Registry.toXPath_of_engine (Registry.withDefaults_xpath _ _)] at h
    cases locator with
    | string s =>
        cases h
        refine .inl ⟨.xpathEngine rfl rfl, fun s' hs => ?_⟩
        cases hs with
        | xpathEngine _ hlocator =>
            cases hlocator
            rfl
        | locatorEngine hname => simp at hname
    | null | bool | number | array | object => cases h

/-- **A text that was supplied is reported as it stands**, and every other text ends in no white
space. -/
theorem Answers.cases_supplied (h : Answers config config.registry report text) :
    Supplied report text ∧ (∀ s, Supplied report s → s = text) ∨
      endsBlank text = false ∧ ∀ s, ¬ Supplied report s := by
  cases h with
  | @translate _ _ _ t h =>
      have hx := Command.exists_of_translate h
      by_cases hstrategy : t.strategy = .xpath
      · rw [hstrategy] at hx
        have hsame : t.value = t.xpath := Except.ok.inj hx
        refine .inl ⟨hsame ▸ .locator hstrategy, ?_⟩
        rintro s ⟨⟩
        exact hsame
      · refine .inr ⟨Locator.endsBlank_toXPath hx hstrategy, ?_⟩
        rintro s ⟨h⟩
        exact hstrategy h
  | engine h => exact engine_cases_supplied (Command.exists_of_engine h)
  | css h => exact .inr ⟨Css.endsBlank_compile (Command.compile_of_css h), fun s hs => by cases hs⟩
  | escape raw => exact .inr ⟨XPath.Literal.endsBlank_ofText raw, fun s hs => by cases hs⟩
  | configPath => exact .inl ⟨.path text, fun s hs => by cases hs; rfl⟩

/-! ### Texts for people -/

/-- People read the answer alone. -/
theorem Answers.human (h : Answers config registry report text) (yaml : Json → String) :
    report.human yaml = text := by
  cases h <;> rfl

/-- **What is printed for people** is the answer, unless it ends in white space. Of the engines that
are there by default, and of the other commands, an answer does so only if it was supplied: it is
printed as it was supplied exactly if it ends in no white space. -/
theorem render_human_eq_iff (h : Answers config registry report text) :
    (report.render .human = text ↔ endsBlank text = false) ∧
      (registry = config.registry →
        (report.render .human = text ↔ ∀ s, Supplied report s → endsBlank s = false)) := by
  have hrender : report.render .human = text ↔ endsBlank text = false := by
    rw [render, fullText, h.human, Text.trimEnd_eq_self_iff]
  refine ⟨hrender, ?_⟩
  rintro rfl
  rw [hrender]
  rcases h.cases_supplied with ⟨hsupplied, hsame⟩ | ⟨hblank, hnot⟩
  · constructor
    · intro hblank s hs
      rwa [hsame s hs]
    · exact fun hall => hall text hsupplied
  · exact ⟨fun _ s hs => absurd hs (hnot s), fun _ => hblank⟩

/-- The value is trimmed and the XPath that is made of it is printed. An XPath that ends in a bracket
is printed as it was supplied to the engine. -/
theorem render_human_eq_iff_made :
    let config : Config := {}
    let made : TranslatedLocator := ⟨.id, " a ", "descendant-or-self::*[@id = 'a']"⟩
    let supplied : EngineAnswer := ⟨"xpath", .string " //a[1]", " //a[1]"⟩
    (Answers config config.registry (.locator made) made.xpath ∧
        (Report.locator made).render .human = made.xpath) ∧
      Answers config config.registry (.engine supplied) supplied.xpath ∧
        (Report.engine supplied).render .human = supplied.xpath := by
  intro config made supplied
  have hmade : Answers config config.registry (.locator made) made.xpath :=
    @Answers.translate config config.registry (some "id") (some " a ") none made (by decide +kernel)
  have hsupplied : Answers config config.registry (.engine supplied) supplied.xpath :=
    @Answers.engine config config.registry "xpath" " //a[1]" false supplied rfl
  refine ⟨⟨hmade, ?_⟩, hsupplied, ?_⟩
  · exact (render_human_eq_iff hmade).1.mpr (by decide)
  · exact (render_human_eq_iff hsupplied).1.mpr (by decide)

/-- White space behind an XPath that was supplied is not printed. -/
theorem render_human_cut :
    let report : TranslatedLocator := ⟨.xpath, "//a ", "//a "⟩
    Command.translate (Config.translator {}) (some "xpath") (some "//a ") none = .ok report ∧
      (Report.locator report).render .human = "//a" := by
  intro report
  exact ⟨by decide +kernel, by decide +kernel⟩

end Report

end XPathLocator
