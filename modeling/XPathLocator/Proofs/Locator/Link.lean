import XPathLocator.Proofs.Locator.Condition
import XPathLocator.Proofs.Text.Trim

/-!
# `XPathLocator.Proofs.Locator.Link`: links by their text

The locators `linkText` and `partialLinkText` select links by what their text is or by what it
contains (`locates_linkText`, `locates_partialLinkText`). The text of a link is
normalized in the document, and the value of a locator is trimmed. The two do not mean the same
white space. Normalizing takes away a space, a tab, a carriage return and a line feed, and
trimming takes away everything that Unicode calls white space.

So a text that starts or ends with a no-break space keeps it in the document and loses it in
a locator, and `linkText` does not select such a link by its own text. It selects every other
link by its own text. `partialLinkText` does so for all links, as what trimming leaves still
stands in the text (`locates_own_text`).
-/

set_option autoImplicit false

namespace XPathLocator

open XPath
open Text (isBlank)

/-- A link: an element `a` that has an attribute `href`. -/
structure XPath.Document.IsLink (d : Document) (p : Path) : Prop where
  isElement : d.IsElement p
  name_eq : d.nameOf (.tree p) = "a"
  exists_target : ∃ value, d.HasValue "href" value p

namespace Locator

variable {d : Document}

namespace Rule

/-- An element has the attribute that leads to the target of a link. -/
theorem asks_target (d : Document) :
    Asks d (.step .self .attributes (.name (.ofName "href")) [])
      fun p => ∃ value, d.HasValue "href" value p := by
  obtain ⟨self, hself, hmem⟩ := Means.exists_self (d := d)
  obtain ⟨ns, hns, hvalue⟩ := exists_means_attributes hself "href"
  refine asks_path hns fun p hp => ?_
  have hat : .tree p ∈ self (.tree p) := (hmem _ _).mpr ⟨hp.mem_nodes, rfl⟩
  constructor
  · rintro ⟨m, hm⟩
    obtain ⟨q, hq, hq'⟩ := (hvalue _ _).mp ⟨m, hm, rfl⟩
    cases ((hmem _ _).mp hq).2
    exact ⟨_, hq'⟩
  · rintro ⟨value, hp'⟩
    obtain ⟨m, hm, _⟩ := (hvalue _ value).mpr ⟨p, hat, hp'⟩
    exact ⟨m, hm⟩

/-- Links are narrowed by a condition on their text. -/
theorem exists_means_links {condition : Tree} {P : Path → Prop} (h : Asks d condition P) :
    ∃ ns : Node → List Node, Means d (links condition) (fun n => .nodes (ns n)) ∧
      ∀ m, m ∈ ns (.tree []) ↔ ∃ p, m = .tree p ∧ d.IsElement p ∧ d.IsLink p ∧ P p := by
  have htarget := asks_target d
  obtain ⟨ns, hns, hmem⟩ := exists_means_everywhere (some "a")
    (List.forall_mem_cons.mpr ⟨htarget.steady, List.forall_mem_singleton.mpr h.steady⟩)
  refine ⟨ns, hns, fun m => (hmem m).trans (exists_congr fun p => and_congr_right fun _ =>
    and_congr_right fun hp => ?_)⟩
  rw [List.forall_mem_cons, List.forall_mem_singleton]
  constructor
  · rintro ⟨hname, hhref, hcondition⟩
    exact ⟨⟨hp, hname "a" rfl, (htarget.holdsAt_iff p hp).mp hhref⟩,
      (h.holdsAt_iff p hp).mp hcondition⟩
  · rintro ⟨⟨_, hname, hhref⟩, hP⟩
    exact ⟨fun n hn => Option.some.inj hn ▸ hname, (htarget.holdsAt_iff p hp).mpr hhref,
      (h.holdsAt_iff p hp).mpr hP⟩

end Rule

/-- Links are selected by their whole text. -/
theorem locates_linkText (d : Document) (t : Translator) (v : String) :
    Locates d t ⟨.linkText, v⟩ fun p => d.IsLink p ∧ d.textOf p = Text.trim v := by
  have htree : Strategy.linkText.tree? = some Rule.linkTextTree := rfl
  obtain ⟨ns, hns, hmem⟩ := Rule.exists_means_links (Rule.asks_textIs (d := d) (Text.trim v))
  exact locates_of_means htree (by decide) t v hns hmem

/-- Links are selected by a part of their text. -/
theorem locates_partialLinkText (d : Document) (t : Translator) (v : String) :
    Locates d t ⟨.partialLinkText, v⟩
      fun p => d.IsLink p ∧ (Text.trim v).toList <:+: (d.textOf p).toList := by
  have htree : Strategy.partialLinkText.tree? = some Rule.partialLinkTextTree := rfl
  obtain ⟨ns, hns, hmem⟩ := Rule.exists_means_links (Rule.asks_textContains (d := d) (Text.trim v))
  exact locates_of_means htree (by decide) t v hns hmem

/-- **A link is selected by its own text.** As the value of `partialLinkText`, the text of a link
selects the link always; as the value of `linkText` it does so exactly if there is no white
space of Unicode at the ends of the text. -/
theorem locates_own_text (t : Translator) {p : Path} (hp : d.IsLink p) :
    (∃ P, Locates d t ⟨.linkText, d.textOf p⟩ P ∧ (P p ↔
      (d.textOf p).toList.head?.any isBlank = false ∧
        (d.textOf p).toList.getLast?.any isBlank = false)) ∧
    ∃ P, Locates d t ⟨.partialLinkText, d.textOf p⟩ P ∧ P p := by
  refine ⟨⟨_, locates_linkText d t (d.textOf p), ?_⟩,
    _, locates_partialLinkText d t (d.textOf p), hp, Text.trim_isInfix _⟩
  rw [and_iff_right hp, ← Text.trim_eq_self_iff, eq_comm]

/-- A text with both quotes and an end of line in it, spread over two elements. -/
theorem locates_own_text_quotes :
    let d : Document := ⟨[.element "a" [("href", "/q")]
      [.text " Say \"it's\"", .element "b" [] [.text "\n twice "]]]⟩
    let t : Translator := ⟨Css.Compiler.compile ⟨true⟩, .reject⟩
    d.IsLink [0] ∧ d.textOf [0] = "Say \"it's\" twice" ∧
      (∃ P, Locates d t ⟨.linkText, "Say \"it's\" twice"⟩ P ∧ P [0]) ∧
      ∃ P, Locates d t ⟨.partialLinkText, "Say \"it's\" twice"⟩ P ∧ P [0] := by
  intro d t
  have hlink : d.IsLink [0] := ⟨⟨"a", _, _, rfl⟩, rfl, "/q", 0, rfl⟩
  have htext : d.textOf [0] = "Say \"it's\" twice" := by decide +kernel
  obtain ⟨⟨P, hP, hiff⟩, hpart⟩ := locates_own_text t hlink
  rw [htext] at hP hiff hpart
  exact ⟨hlink, htext, ⟨P, hP, hiff.mpr (by decide)⟩, hpart⟩

/-- A no-break space in front of a text belongs to the text, and a locator trims it away. -/
theorem locates_own_text_no_break_space :
    let d : Document := ⟨[.element "a" [("href", "/")] [.text "\u00a0Home"]]⟩
    let t : Translator := ⟨Css.Compiler.compile ⟨true⟩, .reject⟩
    d.IsLink [0] ∧ d.textOf [0] = "\u00a0Home" ∧
      (∃ P, Locates d t ⟨.linkText, "\u00a0Home"⟩ P) ∧
      ∀ P, Locates d t ⟨.linkText, "\u00a0Home"⟩ P → ¬ P [0] := by
  intro d t
  have hlink : d.IsLink [0] := ⟨⟨"a", _, _, rfl⟩, rfl, "/", 0, rfl⟩
  have htext : d.textOf [0] = "\u00a0Home" := by decide +kernel
  have htrim : Text.trim "\u00a0Home" = "Home" := by decide +kernel
  have hlocates := locates_linkText d t "\u00a0Home"
  refine ⟨hlink, htext, ⟨_, hlocates⟩, fun P hP h => ?_⟩
  obtain ⟨_, hsame⟩ := (hP.iff hlocates hlink.isElement).mp h
  rw [htext, htrim] at hsame
  exact absurd hsame (by decide)

end Locator

end XPathLocator
