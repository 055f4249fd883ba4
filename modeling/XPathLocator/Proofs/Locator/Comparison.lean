import XPathLocator.Proofs.Locator.Link

/-!
# `XPathLocator.Proofs.Locator.Comparison`: strategies compared by what they select

The rules for `id`, `name`, `idOrName`, `linkText` and `partialLinkText` are written one by one,
and none of them uses another. What they select from a document is compared in
`strategies_compared`, for any values of the locators, with any quotes in them or with nothing
in them.
-/

set_option autoImplicit false

namespace XPathLocator.Locator

open XPath

/-- A strategy that asks for one attribute selects by the value of this attribute. -/
theorem locates_attribute {s : Strategy} {name : String}
    (htree : s.tree? = some fun a => Rule.everywhere .any [Rule.attrIs name a])
    (hs : s ≠ .className) (d : Document) (t : Translator) (v : String) :
    Locates d t ⟨s, v⟩ (d.HasValue name (Text.trim v)) := by
  obtain ⟨ns, hns, hmem⟩ :=
    Rule.exists_means_condition (Rule.asks_attrIs (d := d) name (Text.trim v))
  exact locates_of_means htree hs t v hns hmem

/-- `idOrName` selects by the values of two attributes. -/
theorem locates_idOrName (d : Document) (t : Translator) (v : String) :
    Locates d t ⟨.idOrName, v⟩
      fun p => d.HasValue "id" (Text.trim v) p ∨ d.HasValue "name" (Text.trim v) p := by
  have htree : Strategy.idOrName.tree? = some Rule.idOrNameTree := rfl
  obtain ⟨ns, hns, hmem⟩ := Rule.exists_means_condition
    ((Rule.asks_attrIs (d := d) "id" (Text.trim v)).or (Rule.asks_attrIs "name" (Text.trim v)))
  exact locates_of_means htree (by decide) t v hns hmem

/-- **Strategies compared by what they select.** `idOrName` selects what `id` selects together
with what `name` selects. All that `linkText` selects is selected by `partialLinkText`, which
selects no less for a part of the value. For a value of white space it selects all links. -/
theorem strategies_compared (d : Document) (t : Translator) (v : String) :
    (∃ P Q, Locates d t ⟨.id, v⟩ P ∧ Locates d t ⟨.name, v⟩ Q ∧
      Locates d t ⟨.idOrName, v⟩ fun p => P p ∨ Q p) ∧
    (∃ P Q, Locates d t ⟨.linkText, v⟩ P ∧ Locates d t ⟨.partialLinkText, v⟩ Q ∧
      ∀ p, P p → Q p) ∧
    (∀ u, (Text.trim u).toList <:+: (Text.trim v).toList →
      ∃ P Q, Locates d t ⟨.partialLinkText, v⟩ P ∧ Locates d t ⟨.partialLinkText, u⟩ Q ∧
        ∀ p, P p → Q p) ∧
    ∀ w, Text.trim w = "" → Locates d t ⟨.partialLinkText, w⟩ d.IsLink := by
  refine ⟨?_, ?_, fun u hu => ?_, fun w hw => ?_⟩
  · have hid := locates_attribute (s := .id) rfl (by decide) d t v
    have hname := locates_attribute (s := .name) rfl (by decide) d t v
    exact ⟨_, _, hid, hname, locates_idOrName d t v⟩
  · refine ⟨_, _, locates_linkText d t v, locates_partialLinkText d t v, ?_⟩
    rintro p ⟨hp, htext⟩
    exact ⟨hp, htext ▸ List.infix_rfl⟩
  · refine ⟨_, _, locates_partialLinkText d t v, locates_partialLinkText d t u, ?_⟩
    rintro p ⟨hp, htext⟩
    exact ⟨hp, hu.trans htext⟩
  · have hlocates := locates_partialLinkText d t w
    simpa only [hw, String.toList_empty, List.nil_infix, and_true] using hlocates

/-- Both quotes in a value, a part of it with one of them, and nothing but white space. -/
theorem strategies_compared_quotes :
    let d : Document := ⟨[.element "a" [("href", "/"), ("name", "\"it's\"")]
      [.text " say \"it's\""]]⟩
    let t : Translator := ⟨Css.Compiler.compile ⟨true⟩, .reject⟩
    (∃ P Q, Locates d t ⟨.id, " \"it's\" "⟩ P ∧ Locates d t ⟨.name, " \"it's\" "⟩ Q ∧
      Locates d t ⟨.idOrName, " \"it's\" "⟩ fun p => P p ∨ Q p) ∧
    (∃ P Q, Locates d t ⟨.partialLinkText, " \"it's\" "⟩ P ∧
      Locates d t ⟨.partialLinkText, "it's\t"⟩ Q ∧ ∀ p, P p → Q p) ∧
    Locates d t ⟨.partialLinkText, " \t"⟩ d.IsLink ∧ d.IsLink [0] := by
  intro d t
  have hv : Text.trim " \"it's\" " = "\"it's\"" := by decide +kernel
  have hu : Text.trim "it's\t" = "it's" := by decide +kernel
  have hw : Text.trim " \t" = "" := by decide +kernel
  obtain ⟨hunion, _, hpart, hblank⟩ := strategies_compared d t " \"it's\" "
  refine ⟨hunion, hpart "it's\t" ?_, hblank " \t" hw, ⟨"a", _, _, rfl⟩, rfl, "/", 0, rfl⟩
  rw [hv, hu]
  decide

end XPathLocator.Locator
