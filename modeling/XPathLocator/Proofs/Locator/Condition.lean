import XPathLocator.Proofs.Css.Chain
import XPathLocator.Proofs.Locator.Rule
import XPathLocator.Proofs.XPath.Attribute
import XPathLocator.Proofs.XPath.Words

/-!
# `XPathLocator.Proofs.Locator.Condition`: what the rules of locators ask of an element

A rule looks at all elements and asks each of them for the value of an attribute or for its
text. A condition of a rule has a value at every node and asks for no position, so it is told
by the elements where it holds (`Asks`). There is one lemma for each kind of condition, and
`exists_means_everywhere` says of a whole rule that it selects the elements of a name that
meet its conditions.

An attribute is asked for by `HasValue`, whether or not an element could have two attributes of
one name. A text is that of the document with the white space of XML normalized
(`Document.textOf`). It is compared with the value of a locator, which has been trimmed of the
white space of Unicode.
-/

set_option autoImplicit false

namespace XPathLocator

open XPath

/-- The text of an element as the rules compare it: its string value with normalized space. -/
def XPath.Document.textOf (d : Document) (p : Path) : String :=
  normalizeSpace (d.stringOf (.tree p))

namespace Locator

variable {d : Document}

/-- A locator has an XPath, and it selects the elements with a property. -/
def Locates (d : Document) (t : Translator) (l : Locator) (P : Path → Prop) : Prop :=
  ∃ x, t.toXPath l = .ok x ∧ SelectsElements d x P

/-- Two properties that tell what a locator selects agree on elements. -/
theorem Locates.iff {t : Translator} {l : Locator} {P Q : Path → Prop} (hP : Locates d t l P)
    (hQ : Locates d t l Q) {p : Path} (hp : d.IsElement p) : P p ↔ Q p := by
  obtain ⟨x, hx, ns, hns, hmem⟩ := hP
  obtain ⟨y, hy, ms, hms, hmem'⟩ := hQ
  cases hx.symm.trans hy
  cases Css.selects_unique hns hms
  simpa [hp] using (hmem (.tree p)).symm.trans (hmem' (.tree p))

/-- A locator selects what the tree of its strategy means at the document node. The literal is
the trimmed value, but for `className`. -/
theorem locates_of_means {s : Strategy} {tree : Tree → Tree} (h : s.tree? = some tree)
    (hs : s ≠ .className) (t : Translator) (v : String) {ns : Node → List Node}
    (hns : Means d (tree (Literal.tree (Text.trim v))) fun n => .nodes (ns n)) {P : Path → Prop}
    (hmem : ∀ m, m ∈ ns (.tree []) ↔ ∃ p, m = .tree p ∧ d.IsElement p ∧ P p) :
    Locates d t ⟨s, v⟩ P := by
  have hliteral : s.literalText v = Text.trim v := if_neg hs
  obtain ⟨x, hx, hwritten⟩ := Strategy.written h t v
  rw [hliteral] at hwritten
  exact ⟨x, hx, _, ⟨_, hwritten.parses, hns _⟩, hmem⟩

namespace Rule

/-! ### Conditions -/

/-- A condition never asks for a position, and it holds at the elements with a property. -/
structure Asks (d : Document) (condition : Tree) (P : Path → Prop) : Prop where
  steady : Steady d condition
  holdsAt_iff : ∀ p, d.IsElement p → (holdsAt d condition (.tree p) ↔ P p)

section Nodes

variable {path path' : Tree} {ns ms : Node → List Node} {P : Path → Prop}

/-- A path is a condition that it leads to a node. -/
theorem asks_path (h : Means d path fun n => .nodes (ns n))
    (hP : ∀ p, d.IsElement p → ((∃ m, m ∈ ns (.tree p)) ↔ P p)) : Asks d path P := by
  refine ⟨Css.steady_nodes h, fun p hp => ?_⟩
  rw [h.holdsAt_eq, Value.truth, ← hP p hp]
  simp [List.eq_nil_iff_forall_not_mem]

/-- Nodes are compared with a text one by one. -/
theorem asks_eqText (h : Means d path fun n => .nodes (ns n)) (v : String)
    (hP : ∀ p, d.IsElement p → ((∃ m ∈ ns (.tree p), d.stringOf m = v) ↔ P p)) :
    Asks d (.binary .eq path (Literal.tree v)) P := by
  refine ⟨Css.steady_eqText h v, fun p hp => ?_⟩
  rw [(h.eq (Means.text v) fun _ => rfl).holdsAt_eq, Value.truth, List.any_eq_true, ← hP p hp]
  simp only [decide_eq_true_iff]

/-- Nodes are compared with nodes by their texts, each with each. -/
theorem asks_eqNodes (h : Means d path fun n => .nodes (ns n))
    (h' : Means d path' fun n => .nodes (ms n))
    (hP : ∀ p, d.IsElement p → ((∃ v, (∃ m ∈ ns (.tree p), d.stringOf m = v) ∧
      ∃ m ∈ ms (.tree p), d.stringOf m = v) ↔ P p)) : Asks d (.binary .eq path path') P := by
  have heq : Means d (.binary .eq path path') fun n => .boolean
      ((ns n).any fun m => (ms n).any fun m' => d.stringOf m = d.stringOf m') :=
    h.eq h' fun _ => rfl
  refine ⟨heq.steady, fun p hp => ?_⟩
  rw [heq.holdsAt_eq, Value.truth, ← hP p hp]
  simp only [List.any_eq_true, decide_eq_true_iff]
  constructor
  · rintro ⟨m, hm, m', hm', hsame⟩
    exact ⟨_, ⟨m, hm, rfl⟩, m', hm', hsame.symm⟩
  · rintro ⟨_, ⟨m, hm, rfl⟩, m', hm', hsame⟩
    exact ⟨m, hm, m', hm', hsame.symm⟩

end Nodes

/-- The path to the attributes of a name leads from an element to its values under this name. -/
theorem exists_means_values (d : Document) (name : String) :
    ∃ ns : Node → List Node, Means d (Css.attrTree name) (fun n => .nodes (ns n)) ∧
      ∀ p value, (∃ m ∈ ns (.tree p), d.stringOf m = value) ↔ d.HasValue name value p := by
  obtain ⟨ns, hns, hvalue⟩ := exists_means_attributes (d := d) Means.context name
  refine ⟨ns, hns, fun p value => (hvalue _ _).trans ?_⟩
  simp

/-- The test of an attribute asks whether the element has it with this value. -/
theorem asks_attrIs (name v : String) :
    Asks d (attrIs name (Literal.tree v)) (d.HasValue name v) := by
  obtain ⟨ns, hns, hvalue⟩ := exists_means_values d name
  exact asks_eqText hns v fun p _ => hvalue p v

/-- A disjunction asks for one of two things. -/
theorem Asks.or {c c' : Tree} {P Q : Path → Prop} (h : Asks d c P) (h' : Asks d c' Q) :
    Asks d (.binary .or c c') fun p => P p ∨ Q p := by
  refine ⟨h.steady.or h'.steady, fun p hp => ?_⟩
  rw [(h.steady.means_or h'.steady).holdsAt_eq, Value.truth, Bool.or_eq_true, h.holdsAt_iff p hp,
    h'.holdsAt_iff p hp]

/-- The text of an element is what the rules compute for it. -/
theorem exists_means_textTree (d : Document) :
    ∃ f : Node → String, Means d textTree (fun n => .string (f n)) ∧
      ∀ p, d.IsElement p → f (.tree p) = d.textOf p := by
  obtain ⟨ns, hns, hmem⟩ := Means.exists_self (d := d)
  have htext : Means d textTree
      fun n => .string (normalizeSpace ((Value.nodes (ns n)).toText d)) :=
    Means.apply (.cons hns.string .nil) fun _ => rfl
  refine ⟨_, htext, fun p hp => ?_⟩
  -- The element itself is the only node there.
  have hself : ∀ m, m ∈ ns (.tree p) ↔ .tree p = m := fun m =>
    (hmem _ m).trans (and_iff_right_of_imp fun h => h ▸ hp.mem_nodes)
  match hl : ns (.tree p) with
  | [] => exact absurd ((hself _).mpr rfl) (hl ▸ List.not_mem_nil)
  | m :: ms =>
      obtain rfl : .tree p = m := (hself m).mp (hl ▸ List.mem_cons_self)
      rfl

/-- The test of a text asks whether the text of the element is this one. -/
theorem asks_textIs (v : String) :
    Asks d (textIs (Literal.tree v)) fun p => d.textOf p = v := by
  obtain ⟨f, hf, htext⟩ := exists_means_textTree d
  have heq : Means d (textIs (Literal.tree v)) fun n => .boolean (f n = v) :=
    hf.eq (Means.text v) fun _ => rfl
  refine ⟨heq.steady, fun p hp => ?_⟩
  rw [heq.holdsAt_eq, Value.truth, decide_eq_true_iff, htext p hp]

/-- The test of a part asks whether the text of the element has it. -/
theorem asks_textContains (v : String) :
    Asks d (.apply "contains" [textTree, Literal.tree v])
      fun p => v.toList <:+: (d.textOf p).toList := by
  obtain ⟨f, hf, htext⟩ := exists_means_textTree d
  have hcontains := hf.contains (Means.text v)
  refine ⟨hcontains.steady, fun p hp => ?_⟩
  rw [hcontains.holdsAt_eq, Value.truth, occursIn_iff, Value.toText, Value.toText, htext p hp]

/-! ### Rules -/

/-- A rule selects the elements of a name, or of any name, that meet its conditions. -/
theorem exists_means_everywhere (test : Option String) {conditions : List Tree}
    (hsteady : ∀ c ∈ conditions, Steady d c) :
    ∃ ns : Node → List Node,
      Means d (everywhere (Css.nodeTest test) conditions) (fun n => .nodes (ns n)) ∧
      ∀ m, m ∈ ns (.tree []) ↔ ∃ p, m = .tree p ∧ d.IsElement p ∧
        (∀ n ∈ test, d.nameOf (.tree p) = n) ∧ ∀ c ∈ conditions, holdsAt d c (.tree p) := by
  obtain ⟨ns, hns, hmem⟩ :=
    Means.context.exists_step (d := d) .descendantOrSelf (Css.nodeTest test) hsteady
  refine ⟨ns, hns, fun m => ?_⟩
  rw [hmem, Css.passes_nodeTest rfl]
  constructor
  · rintro ⟨_, _, ⟨p, rfl, hp, hname⟩, hconditions⟩
    exact ⟨p, rfl, hp, hname, hconditions⟩
  · rintro ⟨p, rfl, hp, hname, hconditions⟩
    exact ⟨hp.mem_nodes, ⟨_, List.mem_cons_self, holds_descendantOrSelf.mpr List.nil_suffix⟩,
      ⟨p, rfl, hp, hname⟩, hconditions⟩

/-- With one condition, and for elements of any name, the property is all that counts. -/
theorem exists_means_condition {condition : Tree} {P : Path → Prop} (h : Asks d condition P) :
    ∃ ns : Node → List Node, Means d (everywhere .any [condition]) (fun n => .nodes (ns n)) ∧
      ∀ m, m ∈ ns (.tree []) ↔ ∃ p, m = .tree p ∧ d.IsElement p ∧ P p := by
  obtain ⟨ns, hns, hmem⟩ := exists_means_everywhere none (List.forall_mem_singleton.mpr h.steady)
  refine ⟨ns, hns, fun m => (hmem m).trans (exists_congr fun p => and_congr_right fun _ =>
    and_congr_right fun hp => ?_)⟩
  simp [h.holdsAt_iff p hp]

end Rule

end Locator

end XPathLocator
