import XPathLocator.Config.Loaded
import XPathLocator.Proofs.Config.Document

/-!
# `XPathLocator.Proofs.Config.Loaded`: three layers of settings

A setting comes from the environment, else from the file, else it has its default. The two
variables of the environment are read each on its own: `Overridden` is what becomes of one
setting, and `Outcome` says that both of them happen and nothing else. A variable that cannot
be read leaves its setting alone and makes one message, whatever the other one holds.

`overrides_layered` says this of `Overrides.apply`, once and again, and of `load`, where the
settings below the overrides are those that the file gives, or all defaults if there is no
file. A file that is there and gives nothing, since it cannot be read or parsed, is an error
that no override repairs.

Words are told apart by the lists `policyWords` and `truthWords`, once they are trimmed and in
lower case (`Text.foldWord`). What a file gives is told from its document, which the library for
YAML reads (`File.Gives`).
-/

set_option autoImplicit false

namespace XPathLocator

namespace Config

/-! ### One override -/

/-- The words for a policy. -/
def policyWords : Locator.MultiKeyPolicy → List String
  | .reject => ["reject"]
  | .firstEntry => ["first_entry", "first-entry", "first"]

/-- The words for a truth value. -/
def truthWords : Bool → List String
  | true => ["1", "true", "yes", "on"]
  | false => ["0", "false", "no", "off"]

/-- The message about a word for no policy. -/
def policyComplaint (raw : String) : String :=
  "Ignoring QA_SELECTOR_MULTI_KEY: unknown multi-key policy '" ++ Text.foldWord raw ++ "'"

/-- The message about a word for no truth value. -/
def truthComplaint (raw : String) : String :=
  "Ignoring QA_SELECTOR_CSS_HTML: expected a boolean, got '" ++ raw ++ "'"

/-- What a variable makes of a setting, and the messages about it: the setting stays as it is if
the variable is not set or not one of the words, and in the second case there is a message. -/
inductive Overridden {α : Type} (words : α → List String) (complaint : String → String) :
    Option String → α → α → List String → Prop
  | unset (a : α) : Overridden words complaint none a a []
  | read {raw : String} (a : α) {b : α} (h : Text.foldWord raw ∈ words b) :
      Overridden words complaint (some raw) a b []
  | ignored {raw : String} (a : α) (h : ∀ b, Text.foldWord raw ∉ words b) :
      Overridden words complaint (some raw) a a [complaint raw]

section Overridden
variable {α : Type} {words : α → List String} {complaint : String → String} {raw : String}
  {before after : α} {messages : List String}
  (h : Overridden words complaint (some raw) before after messages)
include h

/-- A variable with one of the words decides. -/
theorem Overridden.eq_of_mem {a : α} (hmem : Text.foldWord raw ∈ words a)
    (honly : ∀ b, Text.foldWord raw ∈ words b → b = a) : after = a ∧ messages = [] := by
  cases h with
  | read _ hread => exact ⟨honly _ hread, rfl⟩
  | ignored _ hnone => exact absurd hmem (hnone a)

/-- A variable with another word decides nothing. -/
theorem Overridden.eq_of_not_mem (hnone : ∀ a, Text.foldWord raw ∉ words a) :
    after = before ∧ messages = [complaint raw] := by
  cases h with
  | read _ hread => exact absurd hread (hnone after)
  | ignored => exact ⟨rfl, rfl⟩

end Overridden

/-- What the variables make of settings, and the messages about them. -/
inductive Outcome (o : Overrides) (before after : Config) : List String → Prop
  | mk {first second : List String}
      (multiKey : Overridden policyWords policyComplaint o.multiKey before.multiKey after.multiKey
        first)
      (html : Overridden truthWords truthComplaint o.cssHtml before.css.html after.css.html second)
      (logLevel : after.logLevel = before.logLevel) (output : after.output = before.output) :
      Outcome o before after (first ++ second)

/-- A word is read as a policy if it is one of the words for it. -/
theorem ofWord_eq_ok_iff (raw : String) (policy : Locator.MultiKeyPolicy) :
    Locator.MultiKeyPolicy.ofWord raw = .ok policy ↔ Text.foldWord raw ∈ policyWords policy := by
  rw [Locator.MultiKeyPolicy.ofWord]
  cases policy <;> simp only [policyWords, List.mem_cons, List.not_mem_nil, or_false] <;>
    split <;> simp_all

/-- A word that is no policy is reported as it was compared. -/
theorem ofWord_eq_error {raw word : String} (h : Locator.MultiKeyPolicy.ofWord raw = .error word) :
    word = Text.foldWord raw := by
  rw [Locator.MultiKeyPolicy.ofWord] at h
  split at h <;> cases h
  rfl

/-- A word is read as a truth value if it is one of the words for it. -/
theorem truth?_eq_some_iff (raw : String) (b : Bool) :
    Overrides.truth? raw = some b ↔ Text.foldWord raw ∈ truthWords b := by
  rw [Overrides.truth?]
  cases b <;> simp only [truthWords, List.mem_cons, List.not_mem_nil, or_false] <;>
    split <;> simp_all

namespace Overrides

variable (o : Overrides) (c : Config)

/-- What the first variable makes of the policy. -/
theorem overridden_multiKey :
    Overridden policyWords policyComplaint o.multiKey c.multiKey (o.policy?.getD c.multiKey)
      (o.ignoredMultiKey?.toList.map Ignored.message) := by
  rw [policy?, ignoredMultiKey?]
  cases o.multiKey with
  | none => exact .unset _
  | some raw =>
      simp only [Option.bind_eq_bind, Option.bind_some]
      cases h : Locator.MultiKeyPolicy.ofWord raw with
      | ok policy => exact .read _ ((ofWord_eq_ok_iff raw policy).mp h)
      | error word =>
          cases ofWord_eq_error h
          refine .ignored _ fun policy hpolicy => ?_
          rw [(ofWord_eq_ok_iff raw policy).mpr hpolicy] at h
          cases h

/-- What the second variable makes of the switch for HTML. -/
theorem overridden_html :
    Overridden truthWords truthComplaint o.cssHtml c.css.html (o.html?.getD c.css.html)
      (o.ignoredCssHtml?.toList.map Ignored.message) := by
  rw [html?, ignoredCssHtml?]
  cases o.cssHtml with
  | none => exact .unset _
  | some raw =>
      simp only [Option.bind_eq_bind, Option.bind_some]
      cases h : truth? raw with
      | some b => exact .read _ ((truth?_eq_some_iff raw b).mp h)
      | none =>
          refine .ignored _ fun b hb => ?_
          rw [(truth?_eq_some_iff raw b).mpr hb] at h
          cases h

/-- **What the overrides do.** -/
theorem apply_outcome : Outcome o c (o.apply c) (o.ignored.map Ignored.message) := by
  rw [ignored, List.map_append]
  exact .mk (o.overridden_multiKey c) (o.overridden_html c) rfl rfl

/-- What is set stays set. -/
theorem apply_apply : o.apply (o.apply c) = o.apply c := by
  simp only [apply]
  cases o.policy? <;> cases o.html? <;> rfl

end Overrides

end Config

/-! ### The file below the overrides -/

section Files
variable {lib : Yaml.Library} {plain? : lib.Node → Option String}

/-- What a file gives: nothing where there is none, and what its document says. -/
inductive File.Gives (lib : Yaml.Library) (plain? : lib.Node → Option String) :
    File → Config.Given → Prop
  | missing : Gives lib plain? .missing .nothing
  | content {bytes : ByteArray} {text : String} {root : lib.Node} {g : Config.Given}
      (htext : String.fromUTF8? bytes = some text) (hroot : lib.read? text = some root)
      (h : Config.Describes lib plain? root g) : Gives lib plain? (.content bytes) g

namespace Config

/-- A text is read as what its document gives. -/
theorem ofText?_eq_some_iff (hlib : lib.SpellsTruth plain?) (text : String) (c : Config) :
    ofText? lib text = some c ↔
      ∃ root g, lib.read? text = some root ∧ Describes lib plain? root g ∧ c = g.config := by
  rw [ofText?]
  constructor
  · intro h
    obtain ⟨root, hroot, h⟩ := Option.bind_eq_some_iff.mp h
    obtain ⟨g, hg, rfl⟩ := (ofNode?_eq_some_iff hlib root c).mp h
    exact ⟨root, g, hroot, hg, rfl⟩
  · rintro ⟨root, g, hroot, hg, rfl⟩
    exact Option.bind_eq_some_iff.mpr
      ⟨root, hroot, (ofNode?_eq_some_iff hlib root _).mpr ⟨g, hg, rfl⟩⟩

/-- A file that gives settings is read. -/
theorem ofFile_eq_ok (hlib : lib.SpellsTruth plain?) (path : String) {file : File} {g : Given}
    (h : file.Gives lib plain? g) :
    ∃ inFile, ofFile lib path file = .ok inFile ∧ inFile.getD {} = g.config := by
  cases h with
  | missing => exact ⟨none, rfl, rfl⟩
  | @content bytes text root g htext hroot h =>
      have hread : ofText? lib text = some g.config :=
        (ofText?_eq_some_iff hlib text _).mpr ⟨root, g, hroot, h, rfl⟩
      exact ⟨some g.config, by rw [ofFile, htext]; simp only; rw [hread], rfl⟩

/-- A file that gives none is an error. -/
theorem ofFile_eq_error (hlib : lib.SpellsTruth plain?) (path : String) {file : File}
    (h : ∀ g, ¬ file.Gives lib plain? g) :
    ofFile lib path file = .error (.unreadable path) ∨
      ofFile lib path file = .error (.unparsable path) := by
  cases file with
  | missing => exact absurd .missing (h .nothing)
  | unreadable => exact .inl rfl
  | content bytes =>
      rw [ofFile]
      cases htext : String.fromUTF8? bytes with
      | none => exact .inl rfl
      | some text =>
          simp only
          cases hread : ofText? lib text with
          | none => exact .inr rfl
          | some c =>
              obtain ⟨root, g, hroot, hg, _⟩ := (ofText?_eq_some_iff hlib text c).mp hread
              exact absurd (.content htext hroot hg) (h g)

end Config

end Files

namespace Config

/-! ### A file of two settings -/

/-- A file with a policy and a truth value. -/
def sampleText : String := "multi_key: first_entry\ncss:\n  html: false\n"

/-- The library at hand reads it. -/
theorem read?_sampleText : Yaml.read? sampleText = some (.mapping
    [(.scalar none true "multi_key", .scalar none true "first_entry"),
      (.scalar none true "css",
        .mapping [(.scalar none true "html", .scalar none true "false")])]) := by
  -- The reader runs on characters.
  have htext : sampleText.toList =
      ['m', 'u', 'l', 't', 'i', '_', 'k', 'e', 'y', ':', ' ',
        'f', 'i', 'r', 's', 't', '_', 'e', 'n', 't', 'r', 'y', '\n',
        'c', 's', 's', ':', '\n', ' ', ' ', 'h', 't', 'm', 'l', ':', ' ',
        'f', 'a', 'l', 's', 'e', '\n'] := by decide
  have hname : "multi_key" = .ofList ['m', 'u', 'l', 't', 'i', '_', 'k', 'e', 'y'] := by decide
  have hword : "first_entry" =
      .ofList ['f', 'i', 'r', 's', 't', '_', 'e', 'n', 't', 'r', 'y'] := by decide
  have hcss : "css" = .ofList ['c', 's', 's'] := by decide
  have hhtml : "html" = .ofList ['h', 't', 'm', 'l'] := by decide
  have hfalse : "false" = .ofList ['f', 'a', 'l', 's', 'e'] := by decide
  rw [Yaml.read?, htext, hname, hword, hcss, hhtml, hfalse]
  with_unfolding_all rfl

/-- What the file gives. -/
theorem gives_sampleText : (File.content sampleText.toUTF8).Gives Yaml.library Yaml.Node.plain?
    ⟨none, none, some .firstEntry, some false⟩ := by
  let html : List (String × Yaml.Node) := [("html", .scalar none true "false")]
  let fields : List (String × Yaml.Node) := [("multi_key", .scalar none true "first_entry"),
    ("css", .mapping [(.scalar none true "html", .scalar none true "false")])]
  have hbytes : String.fromUTF8? sampleText.toUTF8 = some sampleText :=
    dif_pos (String.isValidUTF8 _)
  have hsilent {α : Type} {Reads : Yaml.Node → α → Prop} {name : String}
      (hmultiKey : name ≠ "multi_key") (hcss : name ≠ "css") : Says fields name Reads none :=
    .silent (by simpa [fields] using ⟨Ne.symm hmultiKey, Ne.symm hcss⟩)
  have hmultiKey : Says fields "multi_key"
      (fun node policy => Yaml.library.word? node = some (policyWord policy)) (some .firstEntry) :=
    .once (List.nil_append _).symm (by decide) rfl
  have hhtml : SaysHtml Yaml.library Yaml.Node.plain?
      (.mapping [(.scalar none true "html", .scalar none true "false")]) (some false) :=
    ⟨html, rfl, .once (List.nil_append _).symm nofun ⟨"false", by decide, rfl⟩⟩
  have hcss : Says fields "css" (SaysHtml Yaml.library Yaml.Node.plain?) (some (some false)) :=
    .once (List.singleton_append (x := fields.head (by decide))).symm (by decide) hhtml
  have hlogLevel : Says fields "log_level" (fun node text => Yaml.library.text? node = some text)
      none := hsilent (by decide) (by decide)
  have houtput : Says fields "output"
      (fun node format => Yaml.library.word? node = some (formatWord format)) none :=
    hsilent (by decide) (by decide)
  have hfields : Yaml.library.fields? (.mapping
      [(.scalar none true "multi_key", .scalar none true "first_entry"), (.scalar none true "css",
        .mapping [(.scalar none true "html", .scalar none true "false")])]) = some fields := rfl
  exact .content hbytes read?_sampleText (@Describes.mk Yaml.library Yaml.Node.plain? _ _ _ _ _ _
    hfields hlogLevel houtput hmultiKey hcss)

end Config

end XPathLocator
