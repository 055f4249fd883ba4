import XPathLocator.Proofs.Css.Meaning
import XPathLocator.Proofs.Css.Written
import XPathLocator.Proofs.XPath.Attribute
import XPathLocator.Proofs.XPath.Words

/-!
# `XPathLocator.Proofs.Css.Attribute`: what attribute selectors demand

An attribute selector asks for an attribute of a name, and an operator compares its value with
a given one (`Compares`). `condition_attribute` says that the condition of a compiled
attribute selector is true at an element exactly where this comparison is.

The comparison with the end of a value is the one that XPath 1.0 has no function for. It is
written with the part of the value from a position on, and where the value is too short, the
position is in front of the first character (`substringFrom_eq_iff`).
-/

set_option autoImplicit false

namespace XPathLocator.Css

open XPath

/-! ### Comparisons -/

/-- What an attribute selector demands of the value of its attribute. An empty value starts,
ends and occurs in nothing. -/
def Compares (actual : String) : Option (AttributeOp × String) → Prop
  | none => True
  | some (.equals, given) => actual = given
  | some (.includes, given) => given.toList ∈ textWords actual.toList
  | some (.dashMatch, given) => actual = given ∨ (given ++ "-").toList <+: actual.toList
  | some (.startsWith, given) => given ≠ "" ∧ given.toList <+: actual.toList
  | some (.endsWith, given) => given ≠ "" ∧ given.toList <:+ actual.toList
  | some (.contains, given) => given ≠ "" ∧ given.toList <:+: actual.toList

/-- The part of a text with as many characters as a given value is this value exactly if the
text ends in it. A text that is shorter is taken whole. -/
theorem substringFrom_eq_iff {given : String} (h : given ≠ "") (actual : String) :
    substringFrom actual (actual.length - (given.length - 1 : Nat)) = given ↔
      given.toList <:+ actual.toList := by
  have hpos : 0 < given.length := Nat.pos_of_ne_zero fun hzero => h (String.length_eq_zero_iff.mp hzero)
  -- A start in front of the first character counts as the first one.
  have hstart : ((actual.length : Int) - (given.length - 1 : Nat) - 1).toNat =
      actual.toList.length - given.toList.length := by
    rw [String.length_toList, String.length_toList]
    omega
  rw [substringFrom, hstart, List.suffix_iff_eq_drop, ← String.toList_inj, String.toList_ofList,
    eq_comm]

/-! ### Conditions -/

variable {d : Document}

section Conditions

variable {path : Tree} {ns : Node → List Node} {n : Node} {value : Option String}

/-- A condition behind the path to an attribute is asked of the value of the attribute. -/
theorem holdsAt_and_path (h : Means d path fun n => .nodes (ns n)) (hn : Stands d (ns n) value)
    {c : Tree} (hc : Steady d c) {P : String → Prop}
    (hP : ∀ actual, value = some actual → (holdsAt d c n ↔ P actual)) :
    holdsAt d (.binary .and path c) n ↔ ∃ actual, value = some actual ∧ P actual := by
  have hpath : holdsAt d path n = value.isSome := (h.holdsAt_eq n).trans hn.truth_eq
  rw [((steady_nodes h).means_and hc).holdsAt_eq, Value.truth, hpath]
  cases value with
  | none => simp
  | some actual => simp [hP actual rfl]

/-- The condition for an attribute is true where the attribute is there and its value compares
as demanded. -/
theorem holdsAt_attributeTree (h : Means d path fun n => .nodes (ns n))
    (hn : Stands d (ns n) value) {test : Option (AttributeOp × String)}
    (htest : ∀ given, test ≠ some (.includes, given)) :
    holdsAt d (attributeTree path test) n ↔ ∃ actual, value = some actual ∧ Compares actual test := by
  have htext : ∀ actual, value = some actual → (Value.nodes (ns n)).toText d = actual := by
    rintro actual rfl
    exact hn.toText_eq
  have hgiven : ∀ {given : String}, ¬ given.isEmpty = true → given ≠ "" := by
    rintro _ hempty rfl
    exact hempty rfl
  match test with
  | none =>
      rw [attributeTree, h.holdsAt_eq, hn.truth_eq]
      simp [Compares, Option.isSome_iff_exists]
  | some (.equals, given) =>
      rw [attributeTree, (h.eq (Means.text given) fun _ => rfl).holdsAt_eq, Value.truth, hn.any_iff]
      simp [Compares]
  | some (.includes, given) => exact absurd rfl (htest given)
  | some (.dashMatch, given) =>
      have hequals := h.eq (Means.text given) fun _ => rfl
      have hstarts := h.startsWith (Means.text (given ++ "-"))
      refine holdsAt_and_path h hn (hequals.steady.or hstarts.steady) fun actual hactual => ?_
      rw [(hequals.steady.means_or hstarts.steady).holdsAt_eq, hequals.holdsAt_eq,
        hstarts.holdsAt_eq]
      simp only [Value.truth, Bool.or_eq_true, hn.any_iff, htext actual hactual, hactual,
        Option.some_inj, List.isPrefixOf_iff_prefix]
      rfl
  | some (.startsWith, given) =>
      rw [attributeTree]
      split
      · next hempty => simp [holdsAt_never, Compares, String.isEmpty_iff.mp hempty]
      · next hempty =>
        have hstarts := h.startsWith (Means.text given)
        refine holdsAt_and_path h hn hstarts.steady fun actual hactual => ?_
        rw [hstarts.holdsAt_eq, Value.truth, htext actual hactual, List.isPrefixOf_iff_prefix]
        exact (and_iff_right (hgiven hempty)).symm
  | some (.endsWith, given) =>
      rw [attributeTree]
      split
      · next hempty => simp [holdsAt_never, Compares, String.isEmpty_iff.mp hempty]
      · next hempty =>
        have hstart := h.stringLength.minus (.number (digitsValue?_toString (given.length - 1)))
        have hend := (h.substring hstart).eq (Means.text given) fun _ => rfl
        refine holdsAt_and_path h hn hend.steady fun actual hactual => ?_
        rw [hend.holdsAt_eq, Value.truth, htext actual hactual, decide_eq_true_iff]
        have hsuffix := substringFrom_eq_iff (hgiven hempty) actual
        exact hsuffix.trans (and_iff_right (hgiven hempty)).symm
  | some (.contains, given) =>
      rw [attributeTree]
      split
      · next hempty => simp [holdsAt_never, Compares, String.isEmpty_iff.mp hempty]
      · next hempty =>
        have hcontains := h.contains (Means.text given)
        refine holdsAt_and_path h hn hcontains.steady fun actual hactual => ?_
        rw [hcontains.holdsAt_eq, Value.truth, htext actual hactual, Value.toText, occursIn_iff]
        exact (and_iff_right (hgiven hempty)).symm

end Conditions

/-- The condition for the end of a value takes one off the length of the value, which is not
zero there. -/
theorem attributeCondition_endsWith (attr : String) {given : String} (h : given ≠ "") :
    ∃ k, given.length = k + 1 ∧ attributeCondition attr (some (.endsWith, given)) =
      attr ++ " and substring(" ++ attr ++ ", string-length(" ++ attr ++ ")-" ++ toString k ++
        ") = " ++ Literal.ofText given := by
  have hlength : given.length = (given.length - 1) + 1 := by
    have hne : given.length ≠ 0 := fun hzero => h (String.length_eq_zero_iff.mp hzero)
    omega
  refine ⟨given.length - 1, hlength, ?_⟩
  rw [attributeCondition, if_neg (by simpa [String.isEmpty_iff] using h)]

/-- **An attribute selector is true where it should be.** Its condition is an expression with a
value at every node of the tree, whatever the position of the node. The value is true, and as
that of a predicate it keeps the node, exactly if the node has an attribute of the name and
the value of this attribute compares as the operator says. -/
theorem condition_attribute (hd : d.DistinctAttributes) (compiler : Compiler)
    (element name : String) {test : Option (AttributeOp × String)}
    (htest : ∀ given, test ≠ some (.includes, given)) :
    ∃ text e, compiler.condition element (.attribute name test) = .ok text ∧ Parses text e ∧
      (∀ p position size, ∃ v, eval d e ⟨.tree p, position, size⟩ = some v ∧
        (v.truth ↔ ∃ actual, d.attributeValue? p (compiler.normalName name) = some actual ∧
          Compares actual test) ∧
        (0 < position → v.accepts position = v.truth)) ∧
      ∀ given, test = some (.endsWith, given) → given ≠ "" → ∃ k, given.length = k + 1 ∧
        text = compiler.attr name ++ " and substring(" ++ compiler.attr name ++
          ", string-length(" ++ compiler.attr name ++ ")-" ++ toString k ++ ") = " ++
          Literal.ofText given := by
  obtain ⟨ns, hns, hmem⟩ := exists_means_attrPath (d := d) compiler name
  have hwritten := attributeCondition_written (attr_written compiler name).ofSteps test
  have hsteady := steady_attributeTree hns test
  refine ⟨_, _, rfl, hwritten.parses, fun p position size => ?_, ?_⟩
  · obtain ⟨v, hv, htruth, haccepts⟩ := hsteady ⟨.tree p, position, size⟩
    have hholds := holdsAt_attributeTree hns (stands_of_mem hd (hmem p)) htest
    refine ⟨v, hv, ?_, fun hposition => (haccepts position hposition).trans htruth.symm⟩
    rw [htruth]
    exact hholds
  · rintro given rfl hgiven
    exact attributeCondition_endsWith _ hgiven

/-- The end of a value that is longer than the one asked for by one character, under a name
that cannot stand behind an `@`. -/
theorem condition_attribute_end :
    let d : Document := ⟨[.element "a" [("x:y", "né")] []]⟩
    d.DistinctAttributes ∧ ∃ text e v,
      Compiler.condition ⟨true⟩ "*" (.attribute "X:Y" (some (.endsWith, "é"))) = .ok text ∧
        Parses text e ∧ eval d e ⟨.tree [0], 1, 1⟩ = some v ∧ v.truth := by
  intro d
  have hd : d.DistinctAttributes := Document.distinctAttributes_of_allDistinct (by decide)
  have htest : ∀ given, some (AttributeOp.endsWith, "é") ≠ some (.includes, given) := by
    simp
  obtain ⟨text, e, htext, he, hvalue, _⟩ := condition_attribute hd ⟨true⟩ "*" "X:Y" htest
  obtain ⟨v, hv, htruth, _⟩ := hvalue [0] 1 1
  refine ⟨hd, text, e, v, htext, he, hv, htruth.mpr ⟨"né", ?_, ?_⟩⟩
  · decide +kernel
  · exact ⟨by decide, by decide⟩

end XPathLocator.Css
