import Mathlib.Data.List.Basic
import XPathLocator.Config.Document

/-!
# `XPathLocator.Proofs.Config.Document`: what a document says of the settings

A document may be silent about a setting. `Given` holds what it does say, and `Given.config`
puts the defaults where it says nothing. `Describes` tells from the fields of a document what
is given: a setting is given by its only field, and there is none where it is not given. A
document that is silent in some places and wrong in others describes nothing.

The document is read by a library, which is a parameter (`Yaml.Library`). Of how it reads truth
values this relies on what YAML says of them: a truth value is one of six words, and stands there
without quotes (`Yaml.Library.SpellsTruth`).

`ofNode?_eq_some_iff` is the reader of documents in these terms.
-/

set_option autoImplicit false

namespace XPathLocator

/-! ### The words of YAML -/

namespace Yaml

/-- The words that stand for a truth value. -/
def truthSpellings : Bool → List String
  | true => ["true", "True", "TRUE"]
  | false => ["false", "False", "FALSE"]

/-- The library reads a truth value where one of its words stands plain, and nowhere else. What
stands plain is the text that `plain?` tells of a node. -/
def Library.SpellsTruth (lib : Library) (plain? : lib.Node → Option String) : Prop :=
  ∀ node b, lib.truth? node = some b ↔ ∃ text ∈ truthSpellings b, plain? node = some text

/-- A word is read as the truth value that it stands for. -/
theorem Scalar.toBool?_eq_some_iff (text : String) (b : Bool) :
    toBool? text = some b ↔ text ∈ truthSpellings b := by
  constructor
  · intro h
    rw [toBool?] at h
    split at h
    · next htrue =>
      cases h
      exact List.contains_iff_mem.mp htrue
    split at h
    · next hfalse =>
      cases h
      exact List.contains_iff_mem.mp hfalse
    · cases h
  · have hall : ∀ b, ∀ text ∈ truthSpellings b, toBool? text = some b := by decide
    exact hall b text

/-- The library at hand reads truth values as YAML has them. -/
theorem spellsTruth_library : library.SpellsTruth Node.plain? := by
  intro node b
  constructor
  · intro h
    obtain ⟨text, htext, h⟩ := Option.bind_eq_some_iff.mp h
    exact ⟨text, (Scalar.toBool?_eq_some_iff text b).mp h, htext⟩
  · rintro ⟨text, h, htext⟩
    exact Option.bind_eq_some_iff.mpr
      ⟨text, htext, (Scalar.toBool?_eq_some_iff text b).mpr h⟩

end Yaml

namespace Config

/-- Settings, each of which may be missing. -/
structure Given where
  logLevel : Option String
  output : Option OutputFormat
  multiKey : Option Locator.MultiKeyPolicy
  html : Option Bool

/-- Nothing is given. -/
def Given.nothing : Given :=
  ⟨none, none, none, none⟩

/-- The settings that are given, and the defaults of those that are not. -/
def Given.config (g : Given) : Config :=
  ⟨g.logLevel.getD "info", g.output.getD .human, g.multiKey.getD .reject, ⟨g.html.getD true⟩⟩

/-- The word for an output format in a document. -/
def formatWord : OutputFormat → String
  | .human => "human"
  | .json => "json"
  | .yaml => "yaml"

/-- The word for a policy in a document. -/
def policyWord : Locator.MultiKeyPolicy → String
  | .reject => "reject"
  | .firstEntry => "first_entry"

/-- What fields say under a name: nothing if none has it, and what the value of the only field
that has it can be read as. -/
inductive Says {α Node : Type} (fields : List (String × Node)) (name : String)
    (Reads : Node → α → Prop) : Option α → Prop
  | silent (h : ∀ field ∈ fields, field.1 ≠ name) : Says fields name Reads none
  | once {before behind : List (String × Node)} {node : Node} {a : α}
      (h : fields = before ++ (name, node) :: behind)
      (honly : ∀ field ∈ before ++ behind, field.1 ≠ name) (hread : Reads node a) :
      Says fields name Reads (some a)

variable {lib : Yaml.Library} {plain? : lib.Node → Option String}

/-- What the node under `css` says of HTML. -/
def SaysHtml (lib : Yaml.Library) (plain? : lib.Node → Option String) (node : lib.Node)
    (html : Option Bool) : Prop :=
  ∃ fields, lib.fields? node = some fields ∧
    Says fields "html" (fun node b => ∃ text ∈ Yaml.truthSpellings b, plain? node = some text) html

/-- What the root of a document says of the settings. -/
inductive Describes (lib : Yaml.Library) (plain? : lib.Node → Option String) (root : lib.Node) :
    Given → Prop
  | mk {fields : List (String × lib.Node)} {logLevel : Option String}
      {output : Option OutputFormat} {multiKey : Option Locator.MultiKeyPolicy}
      {css : Option (Option Bool)} (hfields : lib.fields? root = some fields)
      (hlogLevel : Says fields "log_level" (fun node text => lib.text? node = some text) logLevel)
      (houtput : Says fields "output"
        (fun node format => lib.word? node = some (formatWord format)) output)
      (hmultiKey : Says fields "multi_key"
        (fun node policy => lib.word? node = some (policyWord policy)) multiKey)
      (hcss : Says fields "css" (SaysHtml lib plain?) css) :
      Describes lib plain? root ⟨logLevel, output, multiKey, css.join⟩

/-! ### One setting -/

section Setting
variable {α β Node : Type} {fields : List (String × Node)} {name : String}

/-- A list in which one item has a property: the items before it and behind it have not. -/
theorem exists_of_filter_eq_singleton {x : String × Node}
    (h : fields.filter (·.1 = name) = [x]) :
    ∃ before behind, fields = before ++ x :: behind ∧ x.1 = name ∧
      ∀ field ∈ before ++ behind, field.1 ≠ name := by
  obtain ⟨before, behind, rfl, hbefore, hx, hbehind⟩ := List.filter_eq_cons_iff.mp h
  refine ⟨before, behind, rfl, by simpa using hx, fun field hfield => ?_⟩
  rcases List.mem_append.mp hfield with hfield | hfield
  · simpa using hbefore field hfield
  · simpa using List.filter_eq_nil_iff.mp hbehind field hfield

/-- A field that is there once is all that is left of the fields of its name. -/
theorem filter_eq_singleton {before behind : List (String × Node)} {node : Node}
    (honly : ∀ field ∈ before ++ behind, field.1 ≠ name) :
    (before ++ (name, node) :: behind).filter (·.1 = name) = [(name, node)] := by
  rw [List.forall_mem_append] at honly
  have hbefore : before.filter (·.1 = name) = [] :=
    List.filter_eq_nil_iff.mpr fun field hfield => by simpa using honly.1 field hfield
  have hbehind : behind.filter (·.1 = name) = [] :=
    List.filter_eq_nil_iff.mpr fun field hfield => by simpa using honly.2 field hfield
  rw [List.filter_append, List.filter_cons_of_pos (by simp), hbefore, hbehind]
  rfl

/-- A setting is what the fields say, or its default where they are silent. -/
theorem setting?_eq_some_iff {absent : α} {read? : Node → Option α} {a : α} :
    setting? fields name absent read? = some a ↔
      ∃ said, Says fields name (fun node b => read? node = some b) said ∧ a = said.getD absent := by
  constructor
  · intro h
    rw [setting?] at h
    split at h
    · next hnone =>
      cases h
      exact ⟨none, .silent fun field hfield => by
        simpa using List.filter_eq_nil_iff.mp hnone field hfield, rfl⟩
    · next hone =>
      obtain ⟨before, behind, hsplit, rfl, honly⟩ := exists_of_filter_eq_singleton hone
      exact ⟨some a, .once hsplit honly h, rfl⟩
    · cases h
  · rintro ⟨said, hsaid, rfl⟩
    rw [setting?]
    cases hsaid with
    | silent h =>
        rw [List.filter_eq_nil_iff.mpr fun field hfield => by simpa using h field hfield]
        rfl
    | once h honly hread =>
        rw [h, filter_eq_singleton honly]
        exact hread

/-- What is read as one thing can be read as another. -/
theorem says_map_iff {Reads : Node → α → Prop} {Reads' : Node → β → Prop} {f : α → β}
    (h : ∀ node b, Reads' node b ↔ ∃ a, Reads node a ∧ b = f a) (said : Option β) :
    Says fields name Reads' said ↔ ∃ said', Says fields name Reads said' ∧ said = said'.map f := by
  constructor
  · rintro (hsilent | ⟨hsplit, honly, hread⟩)
    · exact ⟨none, .silent hsilent, rfl⟩
    · obtain ⟨a, hread', rfl⟩ := (h ..).mp hread
      exact ⟨some a, .once hsplit honly hread', rfl⟩
  · rintro ⟨_, hsilent | ⟨hsplit, honly, hread⟩, rfl⟩
    · exact .silent hsilent
    · exact .once hsplit honly ((h ..).mpr ⟨_, hread, rfl⟩)

end Setting

/-! ### Words -/

/-- A format is read from its word. -/
theorem format?_eq_some_iff (word? : Option String) (format : OutputFormat) :
    word? >>= OutputFormat.ofText? = some format ↔ word? = some (formatWord format) := by
  have hword (word : String) :
      OutputFormat.ofText? word = some format ↔ word = formatWord format := by
    rw [OutputFormat.ofText?.eq_def]
    cases format <;> split <;> simp_all [formatWord]
  cases word? with
  | none => exact ⟨nofun, nofun⟩
  | some word => exact (hword word).trans Option.some_inj.symm

/-- A policy is read from its word. -/
theorem policy?_eq_some_iff (word? : Option String) (policy : Locator.MultiKeyPolicy) :
    word? >>= policy? = some policy ↔ word? = some (policyWord policy) := by
  have hword (word : String) : policy? word = some policy ↔ word = policyWord policy := by
    constructor
    · intro h
      have htext := List.find?_some h
      rw [decide_eq_true_eq] at htext
      rw [← htext]
      cases policy <;> rfl
    · rintro rfl
      cases policy <;> decide
  cases word? with
  | none => exact ⟨nofun, nofun⟩
  | some word => exact (hword word).trans Option.some_inj.symm

/-- What is read in the same way says the same. -/
theorem says_congr {α Node : Type} {Reads Reads' : Node → α → Prop}
    (h : ∀ node a, Reads node a ↔ Reads' node a) (fields : List (String × Node)) (name : String)
    (said : Option α) : Says fields name Reads said ↔ Says fields name Reads' said := by
  have hsame : Reads = Reads' := funext fun node => funext fun a => propext (h node a)
  rw [hsame]

/-! ### A document -/

/-- The node under `css` is read as what it says of HTML. -/
theorem compiler?_eq_some_iff (hlib : lib.SpellsTruth plain?) (node : lib.Node)
    (css : Css.Compiler) :
    compiler? lib ⟨true⟩ node = some css ↔
      ∃ html, SaysHtml lib plain? node html ∧ css = ⟨html.getD true⟩ := by
  rw [compiler?]
  constructor
  · intro h
    obtain ⟨fields, hfields, h⟩ := Option.bind_eq_some_iff.mp h
    obtain ⟨html, hhtml, h⟩ := Option.bind_eq_some_iff.mp h
    obtain ⟨said, hsaid, rfl⟩ := setting?_eq_some_iff.mp hhtml
    cases h
    exact ⟨said, ⟨fields, hfields, (says_congr hlib ..).mp hsaid⟩, rfl⟩
  · rintro ⟨html, ⟨fields, hfields, hsaid⟩, rfl⟩
    refine Option.bind_eq_some_iff.mpr ⟨fields, hfields, Option.bind_eq_some_iff.mpr ⟨_, ?_, rfl⟩⟩
    exact setting?_eq_some_iff.mpr ⟨html, (says_congr hlib ..).mpr hsaid, rfl⟩

/-- **A document is read as what it gives, with defaults for the rest.** -/
theorem ofNode?_eq_some_iff (hlib : lib.SpellsTruth plain?) (root : lib.Node) (c : Config) :
    ofNode? lib root = some c ↔ ∃ g, Describes lib plain? root g ∧ c = g.config := by
  have hformats := says_congr fun node => format?_eq_some_iff (lib.word? node)
  have hpolicies := says_congr fun node => policy?_eq_some_iff (lib.word? node)
  rw [ofNode?]
  constructor
  · intro h
    obtain ⟨fields, hfields, h⟩ := Option.bind_eq_some_iff.mp h
    obtain ⟨_, h₁, h⟩ := Option.bind_eq_some_iff.mp h
    obtain ⟨_, h₂, h⟩ := Option.bind_eq_some_iff.mp h
    obtain ⟨_, h₃, h⟩ := Option.bind_eq_some_iff.mp h
    obtain ⟨_, h₄, h⟩ := Option.bind_eq_some_iff.mp h
    cases h
    obtain ⟨logLevel, hlogLevel, rfl⟩ := setting?_eq_some_iff.mp h₁
    obtain ⟨output, houtput, rfl⟩ := setting?_eq_some_iff.mp h₂
    obtain ⟨multiKey, hmultiKey, rfl⟩ := setting?_eq_some_iff.mp h₃
    obtain ⟨compiler, hcompiler, rfl⟩ := setting?_eq_some_iff.mp h₄
    obtain ⟨css, hcss, rfl⟩ := (says_map_iff (compiler?_eq_some_iff hlib) compiler).mp hcompiler
    exact ⟨_, .mk hfields hlogLevel ((hformats ..).mp houtput) ((hpolicies ..).mp hmultiKey) hcss,
      by cases css <;> rfl⟩
  · rintro ⟨_, @⟨fields, logLevel, output, multiKey, css, hfields, hlogLevel, houtput, hmultiKey,
      hcss⟩, rfl⟩
    have houtput := (hformats ..).mpr houtput
    have hmultiKey := (hpolicies ..).mpr hmultiKey
    have hcompiler := (says_map_iff (compiler?_eq_some_iff hlib) _).mpr ⟨css, hcss, rfl⟩
    refine Option.bind_eq_some_iff.mpr ⟨fields, hfields, ?_⟩
    refine Option.bind_eq_some_iff.mpr ⟨_, setting?_eq_some_iff.mpr ⟨_, hlogLevel, rfl⟩, ?_⟩
    refine Option.bind_eq_some_iff.mpr ⟨_, setting?_eq_some_iff.mpr ⟨_, houtput, rfl⟩, ?_⟩
    refine Option.bind_eq_some_iff.mpr ⟨_, setting?_eq_some_iff.mpr ⟨_, hmultiKey, rfl⟩, ?_⟩
    refine Option.bind_eq_some_iff.mpr ⟨_, setting?_eq_some_iff.mpr ⟨_, hcompiler, rfl⟩, ?_⟩
    cases css <;> rfl

end Config

end XPathLocator
