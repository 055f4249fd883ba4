import XPathLocator.Proofs.Locator.Condition

/-!
# `XPathLocator.Proofs.Locator.Label`: controls by their labels

A label belongs to a control in one of two ways. It names the `id` of the control in its
attribute `for`, or the control is an `input` inside the label. The rule for `label` is a union
of two expressions, one for each way, and `locates_label` says what they select together.

There may be any number of labels with the text, inside each other too, and any number of
elements with the `id`. A label can belong to controls in both ways at once.
-/

set_option autoImplicit false

namespace XPathLocator

open XPath

/-- A label with a text. -/
structure XPath.Document.IsLabel (d : Document) (text : String) (q : Path) : Prop where
  isElement : d.IsElement q
  name_eq : d.nameOf (.tree q) = "label"
  text_eq : d.textOf q = text

namespace Locator

variable {d : Document}

namespace Rule

/-- What the rule asks of the labels in both ways. -/
theorem isLabel_iff {text : String} {q : Path} :
    d.IsLabel text q ↔ d.IsElement q ∧ d.nameOf (.tree q) = "label" ∧
      ∀ c ∈ [textIs (Literal.tree text)], holdsAt d c (.tree q) := by
  have htext := asks_textIs (d := d) text
  constructor
  · rintro ⟨hq, hname, hsame⟩
    refine ⟨hq, hname, fun c hc => ?_⟩
    rw [List.mem_singleton.mp hc]
    exact (htext.holdsAt_iff q hq).mpr hsame
  · rintro ⟨hq, hname, hcondition⟩
    exact ⟨hq, hname, (htext.holdsAt_iff q hq).mp (hcondition _ List.mem_cons_self)⟩

/-- The first way: an element has the `id` that a label is for. The labels are those of the whole
document, wherever the element is. -/
theorem asks_explicit (text : String) :
    Asks d (.binary .eq (Css.attrTree "id")
      (.step (.step (.anyBelow .root) .child (.name (.ofName "label"))
        [textIs (Literal.tree text)]) .attributes (.name (.ofName "for")) []))
      fun p => ∃ q value, d.IsLabel text q ∧ d.HasValue "for" value q ∧ d.HasValue "id" value p := by
  have hsteady := List.forall_mem_singleton.mpr (asks_textIs (d := d) text).steady
  -- From the labels to what they are for, and from there to the elements with this `id`.
  obtain ⟨labels, hlabels, hmem⟩ := exists_means_below Means.root "label" hsteady
  obtain ⟨targets, htargets, htarget⟩ := exists_means_attributes hlabels "for"
  obtain ⟨ids, hids, hid⟩ := exists_means_values d "id"
  have hlabel : ∀ n q, .tree q ∈ labels n ↔ d.IsLabel text q := by
    intro n q
    rw [hmem, isLabel_iff]
    constructor
    · rintro ⟨_, heq, hq, hname, hcondition, _⟩
      cases heq
      exact ⟨hq, hname, hcondition⟩
    · rintro ⟨hq, hname, hcondition⟩
      exact ⟨q, rfl, hq, hname, hcondition, [], List.mem_cons_self, List.nil_suffix, hq.ne_nil.symm⟩
  refine asks_eqNodes hids htargets fun p _ => ?_
  constructor
  · rintro ⟨value, hvalue, hvalue'⟩
    obtain ⟨q, hq, hfor⟩ := (htarget _ value).mp hvalue'
    exact ⟨q, value, (hlabel _ q).mp hq, hfor, (hid p value).mp hvalue⟩
  · rintro ⟨q, value, hq, hfor, hvalue⟩
    exact ⟨value, (hid p value).mpr hvalue, (htarget _ value).mpr ⟨q, (hlabel _ q).mpr hq, hfor⟩⟩

/-- The second way: an `input` is inside a label, at any depth. -/
theorem exists_means_implicit (d : Document) (text : String) :
    ∃ ns : Node → List Node,
      Means d (.step (.anyBelow (everywhere (.name (.ofName "label"))
        [textIs (Literal.tree text)])) .child (.name (.ofName "input")) [])
        (fun n => .nodes (ns n)) ∧
      ∀ m, m ∈ ns (.tree []) ↔ ∃ p, m = .tree p ∧ d.IsElement p ∧
        d.nameOf (.tree p) = "input" ∧ ∃ q, d.IsLabel text q ∧ IsDescendant q p := by
  have hsteady := List.forall_mem_singleton.mpr (asks_textIs (d := d) text).steady
  obtain ⟨labels, hlabels, hmem⟩ := exists_means_everywhere (some "label") hsteady
  obtain ⟨ns, hns, hinput⟩ := exists_means_below hlabels "input" (List.forall_mem_nil _)
  have hlabel : ∀ q, .tree q ∈ labels (.tree []) ↔ d.IsLabel text q := by
    intro q
    rw [hmem, isLabel_iff]
    constructor
    · rintro ⟨_, heq, hq, hname, hcondition⟩
      cases heq
      exact ⟨hq, hname _ rfl, hcondition⟩
    · rintro ⟨hq, hname, hcondition⟩
      exact ⟨q, rfl, hq, fun n hn => Option.some.inj hn ▸ hname, hcondition⟩
  refine ⟨ns, hns, fun m => ?_⟩
  simp [hinput, hlabel]

end Rule

/-- **Controls are selected by the text of their label.** An element is selected exactly if its
`id` is what a label with this text is for, or if it is an `input` inside such a label. -/
theorem locates_label (d : Document) (t : Translator) (v : String) :
    Locates d t ⟨.label, v⟩ fun p =>
      (∃ q value, d.IsLabel (Text.trim v) q ∧ d.HasValue "for" value q ∧ d.HasValue "id" value p) ∨
      (d.nameOf (.tree p) = "input" ∧ ∃ q, d.IsLabel (Text.trim v) q ∧ IsDescendant q p) := by
  have htree : Strategy.label.tree? = some Rule.labelTree := rfl
  obtain ⟨ns, hns, hexplicit⟩ := Rule.exists_means_condition (Rule.asks_explicit (Text.trim v))
  obtain ⟨ms, hms, himplicit⟩ := Rule.exists_means_implicit d (Text.trim v)
  obtain ⟨ls, hls, hmem⟩ := hns.exists_union hms
  refine locates_of_means htree (by decide) t v hls fun m => ?_
  rw [hmem, hexplicit, himplicit, ← exists_or]
  constructor
  · rintro ⟨_, p, ⟨rfl, hp, h⟩ | ⟨rfl, hp, h⟩⟩
    · exact ⟨p, rfl, hp, .inl h⟩
    · exact ⟨p, rfl, hp, .inr h⟩
  · rintro ⟨p, rfl, hp, h⟩
    exact ⟨hp.mem_nodes, p, h.imp (⟨rfl, hp, ·⟩) (⟨rfl, hp, ·⟩)⟩

end Locator

end XPathLocator
