import XPathLocator.Proofs.Engine
import XPathLocator.Proofs.Json.Entry

/-!
# `XPathLocator.Proofs.Command`: one locator, however it is given

A locator reaches the program as the text of a JSON object, for the command `translate` or
for the engine `se`, or as a strategy and a value. `locator_answers_agree` says that the
way makes no difference: the XPath is the same, and where there is none, so is the refusal.

Each command reads the locator, which may fail, and then translates it, which may fail.
`Command.translate_xpath` and `Command.engine_xpath` say so and leave the rest of the
reports out. What is left is that both read the same JSON value
(`Registry.withDefaults_se`), and that an object of one entry is the pair of its key and
its value (`Locator.ofJson_entry`).

The reader of JSON texts is a parameter, `read?`: the two commands agree because they ask one
reader, whatever it reads.
-/

set_option autoImplicit false

namespace XPathLocator

namespace Command

variable (read? : String → Option Json)

/-- The XPath of a translated locator: the locator is read, and then translated. -/
theorem translate_xpath (t : Locator.Translator) (strategy value json : Option String) :
    (translate t strategy value json read?).map (·.xpath) =
      readLocator t.multiKey strategy value json read? >>=
        fun l => (t.toXPath l).mapError .locator := by
  rw [translate]
  cases readLocator t.multiKey strategy value json read? with
  | error e => rfl
  | ok l =>
      show (((t.toXPath l).mapError .locator >>= fun xpath => _) : Except Error _).map _ =
        (t.toXPath l).mapError .locator
      cases t.toXPath l <;> rfl

/-- The XPath of an engine: its JSON value is read, and then given to the engine. -/
theorem engine_xpath (r : Registry) (name text : String) (json : Bool) :
    (engine r name text json read?).map (·.xpath) =
      engineLocator name text json read? >>= fun j => (r.toXPath name j).mapError .locator := by
  rw [engine]
  cases engineLocator name text json read? with
  | error e => rfl
  | ok j =>
      show (((r.toXPath name j).mapError .locator >>= fun xpath => _) : Except Error _).map _ =
        (r.toXPath name j).mapError .locator
      cases r.toXPath name j <;> rfl

end Command

namespace Config

variable {read? : String → Option Json} (config : Config) {text : String} {json : Json}

/-- The command `translate` answers a JSON text as the translator answers its value. A
strategy and a value beside the text do not count. -/
theorem translate_text (h : read? text = some json) (strategy value : Option String) :
    (Command.translate config.translator strategy value (some text) read?).map (·.xpath) =
      (config.translator.jsonToXPath json).mapError .locator := by
  rw [Command.translate_xpath, Command.readLocator, h, Locator.Translator.jsonToXPath,
    mapError_bind]

/-- The engine for locators reads the text as JSON, asked for or not. -/
theorem engine_text (h : read? text = some json) (asJson : Bool) :
    (Command.engine config.registry "se" text asJson read?).map (·.xpath) =
      (config.translator.jsonToXPath json).mapError .locator := by
  have hlocator : Command.engineLocator "se" text asJson read? = .ok json := by
    rw [Command.engineLocator, if_pos (by simp [Registry.locatorEngine]), h]
  rw [Command.engine_xpath, hlocator, registry]
  show ((Registry.withDefaults config.css.compile config.multiKey).toXPath "se" json).mapError
    Command.Error.locator = _
  rw [Registry.toXPath_of_engine (Registry.withDefaults_se _ _)]
  rfl

/-- A strategy and a value are answered as the object with this one entry. -/
theorem translate_pair (strategy value : String) :
    (Command.translate config.translator (some strategy) (some value) none read?).map (·.xpath) =
      (config.translator.jsonToXPath (.object [(strategy, .string value)])).mapError .locator := by
  rw [Command.translate_xpath, Command.readLocator, Locator.Translator.jsonToXPath, mapError_bind,
    Locator.ofJson_entry]

/-- **One locator, however it is given.** A text that is a JSON value has one answer, an
XPath or the refusal of a locator, and both commands that take it give this answer. If the
text is an object of one entry with a string, its key and its value give it as well, whatever
is done with objects of several entries. -/
theorem locator_answers_agree (h : read? text = some json) :
    ∃ answer : Except Locator.Error String,
      (∀ strategy value,
        (Command.translate config.translator strategy value (some text) read?).map (·.xpath) =
          answer.mapError .locator) ∧
      (∀ asJson,
        (Command.engine config.registry "se" text asJson read?).map (·.xpath) =
          answer.mapError .locator) ∧
      ∀ strategy value, json = .object [(strategy, .string value)] → ∀ multiKey,
        (Command.translate { config with multiKey }.translator (some strategy) (some value)
          none read?).map (·.xpath) = answer.mapError .locator := by
  refine ⟨config.translator.jsonToXPath json, config.translate_text h, config.engine_text h, ?_⟩
  rintro strategy value rfl multiKey
  rw [translate_pair]
  -- The policy is asked of objects with several entries only.
  have hentry : ∀ c : Config, c.translator.jsonToXPath (.object [(strategy, .string value)]) =
      Locator.ofPair strategy value >>= c.translator.toXPath := by
    intro c
    rw [Locator.Translator.jsonToXPath, Locator.ofJson_entry]
  rw [hentry, hentry]
  rfl

/-- An identifier with white space around it, given in each of the three ways. -/
theorem locator_answers_agree_id :
    let config : Config := {}
    let text : String := .ofList (Json.entryText "id".toList " a ".toList)
    let answer : Except Command.Error String := .ok "descendant-or-self::*[@id = 'a']"
    Json.read? text = some (.object [("id", .string " a ")]) ∧
      (Command.translate config.translator none none (some text)).map (·.xpath) = answer ∧
      (Command.engine config.registry "se" text true).map (·.xpath) = answer ∧
      ∀ multiKey, (Command.translate { config with multiKey }.translator (some "id") (some " a ")
        none).map (·.xpath) = answer := by
  intro config text answer
  have hread : Json.read? text = some (.object [("id", .string " a ")]) :=
    Json.read?_entryText (by decide) (by decide)
  obtain ⟨locator, htranslate, hengine, hpair⟩ := config.locator_answers_agree hread
  -- A strategy and a value are the way that can be computed.
  have hlocator : locator.mapError .locator = answer := by
    rw [← hpair "id" " a " rfl .reject]
    decide +kernel
  rw [← hlocator]
  exact ⟨hread, htranslate none none, hengine true, hpair "id" " a " rfl⟩

end Config

end XPathLocator
