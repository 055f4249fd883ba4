import XPathLocator.Proofs.Css.Path
import XPathLocator.Proofs.XPath.Relation

/-!
# `XPathLocator.Proofs.Css.Meaning`: conditions of selectors are steady

What a simple selector demands has a value at every node of every document, and it
never asks for a position (`demand_steady`). So a compound can be asked of a node
alone: `Step.Accepts` says that an element passes the node test of a step and meets
its condition. The step selects these elements wherever it stands in a path
(`eval_on`).

The induction is on the selector. The conditions compare attributes, names and counts
with fixed values, and each of them is built from `Means` rules.
-/

set_option autoImplicit false

namespace XPathLocator.Css

open XPath

variable {d : Document}

/-! ### Conditions -/

/-- The digits of a number are read as the number. -/
theorem digitsValue?_toString (n : Nat) : digitsValue? (toString n) = some (n : Int) := by
  have hdigits : (toString n).toList = Nat.toDigits 10 n := Nat.toList_repr
  have hall : (Nat.toDigits 10 n).all Char.isDigit := List.all_eq_true.mpr fun c hc =>
    Nat.isDigit_of_mem_toDigits (by decide) (by decide) hc
  rw [digitsValue?, hdigits, if_pos hall, Nat.ofDigitChars_ten_toDigits]

/-- The condition that never holds is the number zero. -/
theorem means_never : Means d (.number never) fun _ => .number 0 :=
  Means.number (show digitsValue? never = some 0 by decide)

/-- As a predicate, zero asks for no position, since there is none. -/
theorem steady_never : Steady d (.number never) :=
  means_never.steady_of_isCondition fun _ => rfl

/-- Zero is not true. -/
theorem holdsAt_never (n : Node) : holdsAt d (.number never) n = false :=
  means_never.holdsAt_eq n

/-- A path asks for no position. -/
theorem steady_nodes {path : Tree} {ns : Node → List Node}
    (h : Means d path fun n => .nodes (ns n)) : Steady d path :=
  h.steady_of_isCondition fun _ => rfl

/-- A comparison of nodes with a text. -/
theorem steady_eqText {path : Tree} {ns : Node → List Node}
    (h : Means d path fun n => .nodes (ns n)) (v : String) :
    Steady d (.binary .eq path (Literal.tree v)) :=
  (h.eq (Means.text v) fun _ => rfl).steady

/-- The test of a name means that the name of the node is this one. -/
theorem means_nameTree (name : String) :
    Means d (nameTree name) fun n => .boolean (d.nameOf n = name) :=
  Means.name.eq (Means.text name) fun _ => rfl

/-- The test of a name asks for no position. -/
theorem steady_nameTree (name : String) : Steady d (nameTree name) :=
  (means_nameTree name).steady

/-- The path that a compiler writes for an attribute leads from an element to its attributes of
this name. -/
theorem exists_means_attrPath (compiler : Compiler) (name : String) :
    ∃ ns : Node → List Node, Means d (compiler.attrPath name) (fun n => .nodes (ns n)) ∧
      ∀ p m, m ∈ ns (.tree p) ↔
        m ∈ d.nodes ∧ ∃ i, m = .attr p i ∧ d.nameOf m = compiler.normalName name := by
  -- The name is asked by a node test or by a condition.
  have hasks : ∀ {p m} {f : Node → Bool},
      (∀ i, f (.attr p i) ↔ d.nameOf (.attr p i) = compiler.normalName name) →
      ((Axis.attributes.holds d (.tree p) m && f m) = true ↔
        ∃ i, m = .attr p i ∧ d.nameOf m = compiler.normalName name) := by
    intro p m f hf
    rw [Bool.and_eq_true]
    constructor
    · rintro ⟨haxis, hm⟩
      cases m with
      | tree q => cases haxis
      | attr q i =>
          obtain rfl : p = q := of_decide_eq_true haxis
          exact ⟨i, rfl, (hf i).mp hm⟩
    · rintro ⟨i, rfl, hname⟩
      exact ⟨decide_eq_true rfl, (hf i).mpr hname⟩
  rw [Compiler.attrPath]
  split
  · refine ⟨_, Means.along _ _, fun p m => ?_⟩
    rw [List.mem_filter]
    refine and_congr_right fun _ => hasks fun i => ?_
    have hpasses : NodeTest.passes d .attributes (.name (.ofName (compiler.normalName name)))
        (.attr p i) = decide (d.nameOf (.attr p i) = compiler.normalName name) := rfl
    rw [hpasses, decide_eq_true_iff]
  · have hsteady : ∀ c ∈ [nameTree (compiler.normalName name)], Steady d c := fun c hc =>
      List.mem_singleton.mp hc ▸ steady_nameTree _
    refine ⟨_, Means.context.step _ _ hsteady, fun p m => ?_⟩
    rw [List.mem_filter, List.any_cons, List.any_nil, Bool.or_false, Bool.and_assoc]
    refine and_congr_right fun _ => hasks (f := fun m => NodeTest.any.passes d .attributes m &&
      [nameTree (compiler.normalName name)].all (holdsAt d · m)) fun i => ?_
    simp [NodeTest.passes, NodeTest.isPrincipal, (means_nameTree _).holdsAt_eq, Value.truth]

/-- The search for a word asks for no position. -/
theorem steady_includesTree {path : Tree} {ns : Node → List Node}
    (h : Means d path fun n => .nodes (ns n)) (word : String) :
    Steady d (includesTree path word) := by
  rw [includesTree]
  split
  · exact steady_never
  · have hcontains := h.spacedWords.contains (Means.text (" " ++ word ++ " "))
    exact (steady_nodes h).and hcontains.steady

/-- The test of an attribute asks for no position, with any operator. -/
theorem steady_attributeTree {path : Tree} {ns : Node → List Node}
    (h : Means d path fun n => .nodes (ns n)) (test : Option (AttributeOp × String)) :
    Steady d (attributeTree path test) := by
  have hpath := steady_nodes h
  match test with
  | none => exact hpath
  | some (.equals, value) => exact steady_eqText h value
  | some (.includes, value) => exact steady_includesTree h value
  | some (.dashMatch, value) =>
      have hstarts := (h.startsWith (Means.text (value ++ "-"))).steady
      have hor := (steady_eqText h value).or hstarts
      exact hpath.and hor
  | some (.startsWith, value) =>
      rw [attributeTree]
      split
      · exact steady_never
      · have hstarts := (h.startsWith (Means.text value)).steady
        exact hpath.and hstarts
  | some (.endsWith, value) =>
      rw [attributeTree]
      split
      · exact steady_never
      · have hstart := h.stringLength.minus (.number (digitsValue?_toString (value.length - 1)))
        have hend := ((h.substring hstart).eq (Means.text value) fun _ => rfl).steady
        exact hpath.and hend
  | some (.contains, value) =>
      rw [attributeTree]
      split
      · exact steady_never
      · have hcontains := (h.contains (Means.text value)).steady
        exact hpath.and hcontains

/-- A comparison of a count with a small number. -/
theorem steady_countTree {path : Tree} {ns : Node → List Node}
    (h : Means d path fun n => .nodes (ns n)) {digits : String} {k : Int}
    (hk : digitsValue? digits = some k) : Steady d (countTree path digits) :=
  (h.count.eq (.number hk) fun _ => rfl).steady

/-- A place among the siblings asks for no position: it is a comparison of counts. -/
theorem steady_typePlaceTree (test : NodeTest) (place : TypePlace) :
    Steady d (typePlaceTree test place) := by
  have hzero : digitsValue? "0" = some 0 := by decide
  have hone : digitsValue? "1" = some 1 := by decide
  cases place with
  | first => exact steady_countTree (Means.along _ _) hzero
  | last => exact steady_countTree (Means.along _ _) hzero
  | only =>
      have hnone : ∀ p ∈ ([] : List Tree), Steady d p := nofun
      exact steady_countTree ((Means.along _ _).step _ _ hnone) hone

/-- A comparison with several texts asks for no position. -/
theorem steady_oneOf {e : Tree} {f : Node → Value} (he : Means d e f)
    (heq : ∀ v n, ∃ b, Value.equal? d (f n) (.string v) = some b) (first : String)
    (more : List String) : Steady d (oneOf e first more) := by
  choose p hp using heq
  have hword : ∀ v, Steady d (.binary .eq e (.literal v)) := fun v =>
    (he.eq (Means.literal v) fun n => hp v n).steady
  rw [oneOf]
  have hstart := hword first
  generalize Tree.binary .eq e (.literal first) = t at hstart
  induction more generalizing t with
  | nil => exact hstart
  | cons v more ih => exact ih _ (hstart.or (hword v))

/-- A pseudo-class without an argument asks for no position. -/
theorem steady_pseudoTree (test : NodeTest) (p : Pseudo) : Steady d (pseudoTree test p) := by
  have hattr : ∀ n, Steady d (attrTree n) := fun n => steady_nodes (Means.along _ _)
  have hname := (Means.along (d := d) .self (.type .node)).nameOf
  have hnames : ∀ first more, Steady d (oneOf (.apply "name" [.self]) first more) :=
    steady_oneOf hname fun _ _ => ⟨_, rfl⟩
  cases p with
  | root => exact (steady_nodes (Means.along _ _)).not
  | firstChild => exact steady_typePlaceTree .any .first
  | lastChild => exact steady_typePlaceTree .any .last
  | onlyChild => exact steady_typePlaceTree .any .only
  | ofType place => exact steady_typePlaceTree test place
  | empty =>
      have hchild := (Means.along (d := d) .child .any).not.steady
      have htext := (Means.stringLengthOfNode (d := d)).not.steady
      exact hchild.and htext
  | link => exact (hattr _).and (hnames _ _)
  | checked =>
      have htype := steady_oneOf (Means.along (d := d) .attributes (.name (.ofName "type")))
        (fun _ _ => ⟨_, rfl⟩) "checkbox" ["radio"]
      have hoption := (hname.eq (Means.literal "option") fun _ => rfl).steady
      have hinput := (hattr "checked").and (hnames "input" ["command"])
      have hleft := hinput.and htype
      have hright := (hattr "selected").and hoption
      exact hleft.or hright
  | disabled => exact hattr _
  | enabled => exact (hattr _).not
  | interaction => exact steady_never

/-! ### Steps -/

/-- The condition of a step never asks for a position. -/
def Step.Steady (d : Document) (step : Step) : Prop :=
  ∀ c ∈ step.condition, XPath.Steady d c

namespace Step.Steady

variable {step : Step}

/-- A step with one more steady condition is steady. -/
theorem addCondition (h : step.Steady d) {c : Tree} (hc : XPath.Steady d c) :
    (step.addCondition c).Steady d := by
  intro c' hc'
  cases hstep : step.condition with
  | none =>
      rw [Step.addCondition, hstep] at hc'
      exact Option.some.inj hc' ▸ hc
  | some c₀ =>
      rw [Step.addCondition, hstep] at hc'
      exact Option.some.inj hc' ▸ (h c₀ hstep).and hc

/-- The name test in the place of the node test is a steady condition. -/
theorem addNameTest (h : step.Steady d) : step.addNameTest.Steady d := by
  rw [Step.addNameTest]
  split
  · exact h
  · next name _ => exact h.addCondition (steady_nameTree name)

end Step.Steady

/-- The step for an element name is steady. -/
theorem stepOf_steady (compiler : Compiler) (name : Option String) :
    (compiler.stepOf name).Steady d := by
  rw [Compiler.stepOf]
  split
  · exact nofun
  · split
    · exact nofun
    · exact fun c hc => Option.some.inj hc ▸ steady_nameTree _

mutual

/-- What a simple selector demands is steady. -/
theorem demand_steady (compiler : Compiler) (test : NodeTest) :
    (simple : Simple) → Steady d (compiler.demand test simple)
  | .id name => steady_eqText (Means.along _ _) name
  | .ofClass name => steady_includesTree (Means.along _ _) name
  | .attribute name value => by
      obtain ⟨ns, hns, _⟩ := exists_means_attrPath (d := d) compiler name
      exact steady_attributeTree hns value
  | .pseudo p => steady_pseudoTree test p
  | .contains value =>
      ((Means.along .self (.type .node)).string.contains (Means.text value)).steady
  | .not name simples => by
      have hstep := (narrowed_steady compiler (stepOf_steady compiler name) simples).addNameTest
      rw [Compiler.demand]
      split
      · exact steady_never
      · next c hc => exact (hstep c hc).not

/-- A step stays steady while it is narrowed. -/
theorem narrowed_steady (compiler : Compiler) {step : Step} (h : step.Steady d) :
    (simples : List Simple) → (compiler.narrowed step simples).Steady d
  | [] => h
  | simple :: rest =>
      narrowed_steady compiler (h.addCondition (demand_steady compiler _ simple)) rest

end

/-- The step for a compound is steady. -/
theorem step_steady (compiler : Compiler) (c : Compound) : (compiler.step c).Steady d :=
  narrowed_steady compiler (stepOf_steady compiler c.element) c.simples

/-- An element that passes the node test of a step and meets its condition. -/
def Step.Accepts (d : Document) (step : Step) (p : Path) : Prop :=
  d.IsElement p ∧ (∀ n ∈ step.test, d.nameOf (.tree p) = n) ∧
    ∀ c ∈ step.condition, holdsAt d c (.tree p)

namespace Step

variable {step : Step} {p : Path}

/-- A step with a name and a condition accepts the elements of that name that meet it. -/
theorem accepts_mk {name : String} {c : Tree} :
    Accepts d ⟨some name, some c⟩ p ↔
      d.IsElement p ∧ d.nameOf (.tree p) = name ∧ holdsAt d c (.tree p) := by
  simp [Accepts]

/-- A condition more holds where the others hold and it does. -/
theorem holdsAt_addCondition (h : step.Steady d) {c : Tree} (hc : XPath.Steady d c) {n : Node} :
    (∀ c' ∈ (step.addCondition c).condition, holdsAt d c' n)
      ↔ (∀ c' ∈ step.condition, holdsAt d c' n) ∧ holdsAt d c n := by
  rw [Step.addCondition]
  cases hstep : step.condition with
  | none => simp
  | some c₀ => simp [((h c₀ hstep).means_and hc).holdsAt_eq, Value.truth]

/-- A condition more is accepted where the others are and it holds. -/
theorem accepts_addCondition (h : step.Steady d) {c : Tree} (hc : XPath.Steady d c) :
    (step.addCondition c).Accepts d p ↔ step.Accepts d p ∧ holdsAt d c (.tree p) := by
  rw [Accepts, Accepts, holdsAt_addCondition h hc, and_assoc, and_assoc]
  rfl

/-- Once its name is moved, a step is one for any name. -/
theorem test_addNameTest (step : Step) : step.addNameTest.test = none := by
  rw [addNameTest]
  split
  · assumption
  · rfl

/-- The name of a compound may as well be asked in its predicate. -/
theorem accepts_addNameTest (h : step.Steady d) :
    step.addNameTest.Accepts d p ↔ step.Accepts d p := by
  rw [addNameTest]
  split
  · exact Iff.rfl
  · next name htest =>
    have hname : holdsAt d (nameTree name) (.tree p) ↔ d.nameOf (.tree p) = name := by
      simp [(means_nameTree name).holdsAt_eq, Value.truth]
    have hadded := holdsAt_addCondition (n := .tree p) h (steady_nameTree name)
    rw [hname] at hadded
    rw [Accepts, Accepts, htest]
    constructor
    · rintro ⟨helement, _, hconditions⟩
      obtain ⟨hold, heq⟩ := hadded.mp hconditions
      exact ⟨helement, fun m hm => Option.some.inj hm ▸ heq, hold⟩
    · rintro ⟨helement, heq, hold⟩
      exact ⟨helement, by simp, hadded.mpr ⟨hold, heq name rfl⟩⟩

end Step

/-- Written in lower case, only the star is a star. -/
theorem normalName_eq_star (compiler : Compiler) {name : String} :
    compiler.normalName name = "*" ↔ name = "*" := by
  have hstar : ∀ c : Char, c.toLower = '*' ↔ c = '*' := by
    intro c
    constructor
    · intro h
      unfold Char.toLower at h
      split at h
      · next hupper =>
        -- The lower case of a letter is a letter.
        have hrange : 65 ≤ c.toNat ∧ c.toNat ≤ 90 := by
          simpa [UInt32.le_iff_toNat_le] using hupper
        have hcode : (c.toNat + 32) % 2 ^ 32 = 42 := congrArg Char.toNat h
        omega
      · exact h
    · rintro rfl
      rfl
  rw [Compiler.normalName]
  split
  · unfold String.toLower
    rw [← String.toList_inj, ← String.toList_inj, String.toList_map]
    cases name.toList with
    | nil => simp
    | cons c cs => simp [hstar]
  · rfl

/-- Without a name, a step is for any element. -/
theorem stepOf_none (compiler : Compiler) : compiler.stepOf none = ⟨none, none⟩ :=
  if_pos ((normalName_eq_star compiler).mpr rfl)

/-- A plain name is the node test of its step. -/
theorem stepOf_of_isPlainName {compiler : Compiler} {name n : String}
    (h : compiler.normalName name = n) (hn : isPlainName n) :
    compiler.stepOf (some name) = ⟨some n, none⟩ := by
  have hstar : n ≠ "*" := by
    rintro rfl
    exact absurd hn (by decide)
  rw [Compiler.stepOf, Option.getD_some, h, if_neg hstar, if_pos hn]

/-- The attribute of a plain name is asked for by that name. -/
theorem attrPath_of_isPlainName {compiler : Compiler} {name n : String}
    (h : compiler.normalName name = n) (hn : isPlainName n) :
    compiler.attrPath name = attrTree n := by
  rw [Compiler.attrPath, h, if_pos hn]

/-- A name alone accepts the elements that have it. The star is the name of every element. -/
theorem accepts_stepOf (compiler : Compiler) (name : String) {p : Path} :
    (compiler.stepOf (some name)).Accepts d p ↔
      d.IsElement p ∧ (name = "*" ∨ d.nameOf (.tree p) = compiler.normalName name) := by
  rw [← normalName_eq_star compiler]
  simp only [Compiler.stepOf, Option.getD_some]
  split
  · next hstar => simp [Step.Accepts, hstar]
  · next hstar =>
    split
    · simp [Step.Accepts, hstar]
    · simp [Step.Accepts, hstar, (means_nameTree _).holdsAt_eq, Value.truth]

/-- A negated compound demands of an element that the compound does not accept it. -/
theorem holdsAt_not (compiler : Compiler) (test : NodeTest) (name : Option String)
    (simples : List Simple) {p : Path} (hp : d.IsElement p) :
    holdsAt d (compiler.demand test (.not name simples)) (.tree p) ↔
      ¬ (compiler.step ⟨name, simples⟩).Accepts d p := by
  have hsteady : (compiler.step ⟨name, simples⟩).Steady d := step_steady compiler _
  -- With the name in the condition, an element is accepted if it meets the condition.
  have haccepts : (compiler.step ⟨name, simples⟩).Accepts d p ↔
      ∀ c ∈ (compiler.step ⟨name, simples⟩).addNameTest.condition, holdsAt d c (.tree p) := by
    rw [← Step.accepts_addNameTest hsteady, Step.Accepts, Step.test_addNameTest]
    simp [hp]
  have hcondition := hsteady.addNameTest
  rw [haccepts]
  cases hc : (compiler.step ⟨name, simples⟩).addNameTest.condition with
  | none =>
      have hdemand : compiler.demand test (.not name simples) = .number never := by
        rw [Compiler.step] at hc
        rw [Compiler.demand, hc]
      simp [hdemand, holdsAt_never]
  | some c =>
      have hdemand : compiler.demand test (.not name simples) = .apply "not" [c] := by
        rw [Compiler.step] at hc
        rw [Compiler.demand, hc]
      simp [hdemand, (hcondition c hc).means_not.holdsAt_eq, Value.truth]

/-- Narrowed by simple selectors, a step accepts the elements that meet each of them. None of them
changes the node test, so all are asked with the one of the step. -/
theorem accepts_narrowed (compiler : Compiler) {step : Step} (h : step.Steady d)
    (simples : List Simple) {p : Path} :
    (compiler.narrowed step simples).Accepts d p ↔ step.Accepts d p ∧
      ∀ simple ∈ simples, holdsAt d (compiler.demand (nodeTest step.test) simple) (.tree p) := by
  induction simples generalizing step with
  | nil => simp [Compiler.narrowed]
  | cons simple rest ih =>
      have hdemand : Steady d (compiler.demand (nodeTest step.test) simple) :=
        demand_steady compiler _ simple
      rw [Compiler.narrowed, ih (h.addCondition hdemand), Step.accepts_addCondition h hdemand,
        and_assoc, List.forall_mem_cons]
      rfl

/-- A compound accepts the elements that its name accepts and that meet each of its simple
selectors. -/
theorem accepts_step (compiler : Compiler) (c : Compound) {p : Path} :
    (compiler.step c).Accepts d p ↔ (compiler.stepOf c.element).Accepts d p ∧
      ∀ simple ∈ c.simples, holdsAt d
        (compiler.demand (nodeTest (compiler.stepOf c.element).test) simple) (.tree p) :=
  accepts_narrowed compiler (stepOf_steady compiler c.element) c.simples

/-- One simple selector alone is asked of elements of any name. -/
theorem accepts_simple (compiler : Compiler) (simple : Simple) {p : Path} :
    (compiler.step ⟨none, [simple]⟩).Accepts d p ↔
      d.IsElement p ∧ holdsAt d (compiler.demand .any simple) (.tree p) := by
  rw [accepts_step, stepOf_none]
  simp [Step.Accepts, nodeTest]

/-- A negated compound alone accepts the elements that the compound does not. -/
theorem accepts_not (compiler : Compiler) (name : Option String) (simples : List Simple)
    {p : Path} : (compiler.step ⟨none, [.not name simples]⟩).Accepts d p ↔
      d.IsElement p ∧ ¬ (compiler.step ⟨name, simples⟩).Accepts d p := by
  rw [accepts_simple]
  exact and_congr_right fun hp => holdsAt_not compiler .any name simples hp

/-- Elements pass a node test of the compiler by their names. -/
theorem passes_nodeTest {axis : Axis} (haxis : axis.ofElements) {test : Option String}
    {n : Node} : (nodeTest test).passes d axis n ↔
      ∃ p, n = .tree p ∧ d.IsElement p ∧ ∀ m ∈ test, d.nameOf (.tree p) = m := by
  cases test with
  | none =>
      rw [nodeTest, NodeTest.passes, isPrincipal_iff haxis]
      constructor
      · rintro ⟨p, hn, hp⟩
        exact ⟨p, hn, hp, by simp⟩
      · rintro ⟨p, hn, hp, _⟩
        exact ⟨p, hn, hp⟩
  | some name =>
      rw [nodeTest, passes_name haxis]
      simp

/-- A steady step selects the elements that it accepts, from those to which its axis
leads. `R` says of two places when it does. -/
theorem eval_on {step : Step} (h : step.Steady d) {axis : Axis} (haxis : axis.ofElements)
    {R : Path → Path → Prop} (hR : ∀ {p q}, axis.holds d (.tree p) (.tree q) ↔ R p q)
    {base : Tree} {focus : Focus} {starts : List Node}
    (hbase : eval d base focus = some (.nodes starts))
    (hstarts : ∀ n ∈ starts, ∃ p, n = .tree p) :
    ∃ ns, eval d (step.on base axis) focus = some (.nodes ns) ∧
      ∀ n, n ∈ ns ↔ ∃ q, n = .tree q ∧ step.Accepts d q ∧ ∃ p, .tree p ∈ starts ∧ R p q := by
  refine ⟨_, eval_step hbase fun c hc => h c (Option.mem_toList.mp hc), fun n => ?_⟩
  simp only [List.mem_filter, Bool.and_eq_true, List.any_eq_true, List.all_eq_true,
    Option.mem_toList, passes_nodeTest haxis]
  constructor
  · rintro ⟨_, ⟨⟨m, hm, haxes⟩, q, rfl, hq, hname⟩, hcondition⟩
    obtain ⟨p, rfl⟩ := hstarts m hm
    exact ⟨q, rfl, ⟨hq, hname, hcondition⟩, p, hm, hR.mp haxes⟩
  · rintro ⟨q, rfl, ⟨hq, hname, hcondition⟩, p, hp, hpq⟩
    exact ⟨hq.mem_nodes, ⟨⟨_, hp, hR.mpr hpq⟩, q, rfl, hq, hname⟩, hcondition⟩

end XPathLocator.Css
