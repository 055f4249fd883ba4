import XPathLocator.Proofs.Css.Meaning
import XPathLocator.Proofs.Css.Written
import XPathLocator.Proofs.XPath.Reader

/-!
# `XPathLocator.Proofs.Css.Chain`: what a chain of compounds selects

A compound alone selects the elements that its step accepts
(`selectsAlone_iff_accepts`). A chain is compiled from the left: each combinator
takes the nodes that are selected so far to those that stand as it says and are
accepted by its compound (`eval_extend`). By induction on the chain, an element is
selected exactly when a chain of elements ends in it (`selects_iff_chain`).

Two combinators need an argument of their own. Between an element and a descendant
there are elements only, so the step over `descendant-or-self::*` loses none. And the
position that `nextSibling` asks for is the one among all later elements, since the
name of the compound has moved into the predicate by then.
-/

set_option autoImplicit false

namespace XPathLocator.Css

open XPath

variable {d : Document}

/-- How an element stands to the one before it in a chain. -/
def Combinator.Relates (d : Document) : Combinator → Path → Path → Prop
  | .descendant => IsDescendant
  | .child => IsChild
  | .nextSibling => IsNextSibling d
  | .laterSibling => IsLaterSibling

namespace Compiler

/-- A compound compiled alone selects an element of a document, from the document
node. -/
def SelectsAlone (compiler : Compiler) (d : Document) (c : Compound) (p : Path) : Prop :=
  ∃ e ns, compiler.complex ⟨c, []⟩ = .ok e ∧ Selects d (defaultAxis ++ e.render) ns ∧ .tree p ∈ ns

/-- A chain of elements from `p` to `q`: each one behind the first is selected by the
compound in its place, and stands to the one before it as the combinator says. -/
def Chain (compiler : Compiler) (d : Document) : Path → List (Combinator × Compound) → Path → Prop
  | p, [], q => p = q
  | p, (combinator, next) :: tail, q =>
    ∃ r, combinator.Relates d p r ∧ compiler.SelectsAlone d next r ∧ compiler.Chain d r tail q

end Compiler

/-! ### One combinator -/

/-- What a step accepts is an element. -/
theorem Step.Accepts.isElement {step : Step} {p : Path} (h : step.Accepts d p) : d.IsElement p :=
  h.1

/-- The elements that are strictly below an element are the children of those at it
and below it. -/
theorem isDescendant_iff {p q : Path} (hp : d.IsElement p) (hq : d.IsElement q) :
    IsDescendant p q ↔ ∃ r, d.IsElement r ∧ p <:+ r ∧ IsChild r q := by
  rw [isDescendant_iff_exists_child]
  constructor
  · rintro ⟨r, hr, number, rfl⟩
    refine ⟨r, ?_, hr, number, rfl⟩
    -- The parent `r` is not the document node, as an element is at it or above it.
    rcases r with _ | ⟨number', r⟩
    · obtain ⟨_, _, _, h⟩ := hp
      rw [List.suffix_nil.mp hr] at h
      cases h
    · obtain ⟨_, _, _, h⟩ := hq
      obtain ⟨name, attributes, h⟩ := Document.exists_element_of_child h
      exact ⟨name, attributes, _, h⟩
  · rintro ⟨r, _, hr, hchild⟩
    exact ⟨r, hr, hchild⟩

/-- The condition that a node comes first. -/
def comesFirst : Tree :=
  .binary .eq (.apply "position" []) (.number "1")

/-- The condition on the first position holds at the first position. -/
theorem eval_comesFirst (focus : Focus) :
    eval d comesFirst focus = some (.boolean (focus.position = 1)) := by
  have hone : decide ((focus.position : Int) = 1) = decide (focus.position = 1) :=
    decide_eq_decide.mpr (by omega)
  exact congrArg (some ∘ Value.boolean) hone

/-- With this condition a step keeps the first node, if its other condition holds there. -/
theorem exists_condition_comesFirst {step : Step} (h : step.Steady d) :
    ∃ c, (step.addCondition comesFirst).condition = some c ∧ ∀ focus, ∃ v,
      eval d c focus = some v ∧ v.accepts focus.position
        = (step.condition.toList.all (holdsAt d · focus.node) && focus.position = 1) := by
  rw [Step.addCondition]
  cases hstep : step.condition with
  | none => exact ⟨_, rfl, fun focus => ⟨_, eval_comesFirst focus, (Bool.true_and _).symm⟩⟩
  | some c₀ =>
      refine ⟨_, rfl, fun focus => ?_⟩
      obtain ⟨v, hv, htruth, _⟩ := h c₀ hstep focus
      refine ⟨.boolean (v.truth && focus.position = 1), ?_, ?_⟩
      · rw [eval, hv, eval_comesFirst]
        rfl
      · rw [Option.toList_some, List.all_cons, List.all_nil, Bool.and_true, ← htruth]
        rfl

/-- The step to the next sibling selects what is accepted of the first elements behind
those before. -/
theorem eval_nextSibling {step : Step} (h : step.Steady d) {base : Tree} {focus : Focus}
    {starts : List Node} (hbase : eval d base focus = some (.nodes starts))
    (hstarts : ∀ n ∈ starts, ∃ p, n = .tree p) :
    ∃ ns, eval d (Compiler.extend base .nextSibling step) focus = some (.nodes ns) ∧
      ∀ n, n ∈ ns ↔ ∃ q, n = .tree q ∧ step.Accepts d q ∧
        ∃ p, .tree p ∈ starts ∧ IsNextSibling d p q := by
  obtain ⟨c, hc, heval⟩ := exists_condition_comesFirst h.addNameTest
  -- The name is asked in the predicate, so the first element is taken of all names.
  have htest := step.test_addNameTest
  have hextend :
      Compiler.extend base .nextSibling step = .step base .followingSibling .any [c] := by
    show Tree.step base .followingSibling (nodeTest step.addNameTest.test)
      (step.addNameTest.addCondition comesFirst).condition.toList = _
    rw [htest, hc]
    rfl
  have hnarrow : ∀ ns, narrow d [c] ns = some (ns.head?.toList.filter
      fun n => step.addNameTest.condition.toList.all (holdsAt d · n)) := by
    intro ns
    have hkeep := keep_first (q := fun n => step.addNameTest.condition.toList.all (holdsAt d · n))
      ns.length heval ns
    rw [narrow, hkeep]
    rfl
  rw [hextend, eval_step_narrowed hbase fun n => hnarrow _]
  refine ⟨_, rfl, fun n => ?_⟩
  simp only [mem_inOrder, List.mem_flatMap, List.mem_filter, Option.mem_toList, List.all_eq_true]
  constructor
  · rintro ⟨_, m, hm, hn, hconditions⟩
    obtain ⟨p, rfl⟩ := hstarts m hm
    obtain ⟨q, rfl, helement, hnext⟩ := head_laterSiblings.mp hn
    refine ⟨q, rfl, (Step.accepts_addNameTest h).mp ⟨helement, ?_, hconditions⟩, p, hm, hnext⟩
    rw [htest]
    exact fun _ hn => absurd hn (Option.not_mem_none _)
  · rintro ⟨q, rfl, hq, p, hp, hnext⟩
    have hadded := (Step.accepts_addNameTest h).mpr hq
    exact ⟨hq.isElement.mem_nodes, _, hp,
      head_laterSiblings.mpr ⟨q, rfl, hq.isElement, hnext⟩, hadded.2.2⟩

/-- A combinator takes elements to those that stand as it says and are accepted. -/
theorem eval_extend {step : Step} (h : step.Steady d) (combinator : Combinator) {base : Tree}
    {focus : Focus} {starts : List Node} (hbase : eval d base focus = some (.nodes starts))
    (hstarts : ∀ n ∈ starts, ∃ p, n = .tree p ∧ d.IsElement p) :
    ∃ ns, eval d (Compiler.extend base combinator step) focus = some (.nodes ns) ∧
      ∀ n, n ∈ ns ↔ ∃ q, n = .tree q ∧ step.Accepts d q ∧
        ∃ p, .tree p ∈ starts ∧ combinator.Relates d p q := by
  have hplaces : ∀ n ∈ starts, ∃ p, n = .tree p := fun n hn =>
    (hstarts n hn).imp fun _ hp => hp.1
  cases combinator with
  | child => exact eval_on h rfl holds_child hbase hplaces
  | laterSibling => exact eval_on h rfl holds_laterSibling hbase hplaces
  | descendant =>
      -- The path goes over the elements `mids`, which are at those before or below them.
      have hany : Step.Steady d ⟨none, none⟩ := nofun
      obtain ⟨mids, hmids, hmid⟩ := eval_on hany rfl holds_descendantOrSelf hbase hplaces
      obtain ⟨ns, hns, hmem⟩ := eval_on h rfl holds_child hmids
        fun n hn => ((hmid n).mp hn).imp fun _ hp => hp.1
      refine ⟨ns, hns, fun n => (hmem n).trans ?_⟩
      constructor
      · rintro ⟨q, rfl, hq, r, hr, hchild⟩
        obtain ⟨_, heq, hr, p, hp, hsuffix⟩ := (hmid _).mp hr
        cases heq
        obtain ⟨_, heq, helement⟩ := hstarts _ hp
        cases heq
        exact ⟨q, rfl, hq, p, hp,
          (isDescendant_iff helement hq.isElement).mpr ⟨r, hr.isElement, hsuffix, hchild⟩⟩
      · rintro ⟨q, rfl, hq, p, hp, hbelow⟩
        obtain ⟨_, heq, helement⟩ := hstarts _ hp
        cases heq
        obtain ⟨r, hr, hsuffix, hchild⟩ := (isDescendant_iff helement hq.isElement).mp hbelow
        exact ⟨q, rfl, hq, r, (hmid _).mpr ⟨r, rfl, ⟨hr, nofun, nofun⟩, p, hp, hsuffix⟩, hchild⟩
  | nextSibling => exact eval_nextSibling h hbase hplaces

/-! ### Whole chains -/

/-- What a text selects is told by its one parse tree. -/
theorem selects_iff {text : String} {e : Tree} (h : Parses text e) {ns : List Node} :
    Selects d text ns ↔ eval d e ⟨.tree [], 1, 1⟩ = some (.nodes ns) := by
  constructor
  · rintro ⟨e', he', heval⟩
    rwa [he'.unique h] at heval
  · exact fun heval => ⟨e, h, heval⟩

/-- A text selects no more than one list of nodes. -/
theorem selects_unique {text : String} {ns ms : List Node} (hns : Selects d text ns)
    (hms : Selects d text ms) : ns = ms := by
  obtain ⟨e, he, heval⟩ := hns
  cases heval.symm.trans ((selects_iff he).mp hms)
  rfl

/-- A compound alone is a chain. -/
theorem complex_compound {compiler : Compiler} {c : Compound} {e : Expr}
    (h : compiler.compound c = .ok e) : compiler.complex ⟨c, []⟩ = .ok e := by
  rw [Compiler.complex, h]
  rfl

/-- A steady step selects what it accepts anywhere in the document. -/
theorem Step.Steady.eval_everywhere {step : Step} (h : step.Steady d) :
    ∃ ns, eval d (step.on .context .descendantOrSelf) ⟨.tree [], 1, 1⟩ = some (.nodes ns) ∧
      ∀ n, n ∈ ns ↔ ∃ p, n = .tree p ∧ step.Accepts d p := by
  have hcontext : eval d .context ⟨.tree [], 1, 1⟩ = some (.nodes [.tree []]) := rfl
  obtain ⟨ns, hns, hmem⟩ := eval_on h rfl holds_descendantOrSelf hcontext
    fun n hn => ⟨[], List.mem_singleton.mp hn⟩
  refine ⟨ns, hns, fun n => (hmem n).trans ?_⟩
  constructor
  · rintro ⟨p, rfl, hp, _⟩
    exact ⟨p, rfl, hp⟩
  · rintro ⟨p, rfl, hp⟩
    exact ⟨p, rfl, hp, [], List.mem_singleton.mpr rfl, List.nil_suffix⟩

/-- A text for a steady step on its own selects what the step accepts. -/
theorem Step.Steady.selectsElements {step : Step} (h : step.Steady d) {text : String}
    (htext : Parses text (step.on .context .descendantOrSelf)) :
    SelectsElements d text (step.Accepts d) := by
  obtain ⟨ns, hns, hmem⟩ := h.eval_everywhere
  refine ⟨ns, (selects_iff htext).mpr hns, fun n => (hmem n).trans ?_⟩
  exact exists_congr fun p => and_congr_right fun _ => (and_iff_right_of_imp (·.isElement)).symm

/-- A condition on elements of any name selects those where it holds. -/
theorem selectsElements_condition {c : Tree} (h : XPath.Steady d c) {text : String}
    (htext : Parses text (.step .context .descendantOrSelf .any [c])) {P : Path → Prop}
    (hP : ∀ p, holdsAt d c (.tree p) ↔ P p) : SelectsElements d text P := by
  have hstep : Step.Steady d ⟨none, some c⟩ := fun c' hc' => Option.some.inj hc' ▸ h
  refine (hstep.selectsElements htext).congr fun p hp => ?_
  rw [← hP, Step.Accepts]
  simp [hp]

/-- The XPath of a compound alone selects what its step accepts. -/
theorem selects_compound {compiler : Compiler} {c : Compound} {e : Expr}
    (h : compiler.compound c = .ok e) (d : Document) :
    ∃ ns, Selects d (Compiler.defaultAxis ++ e.render) ns ∧
      ∀ n, n ∈ ns ↔ ∃ p, n = .tree p ∧ (compiler.step c).Accepts d p := by
  have hparses := (complex_written_default (complex_compound h)).ofSteps.parses
  obtain ⟨ns, hns, hmem⟩ := (step_steady (d := d) compiler c).eval_everywhere
  exact ⟨ns, (selects_iff hparses).mpr hns, hmem⟩

/-- A compound alone selects what its step accepts. -/
theorem selectsAlone_iff_accepts {compiler : Compiler} {c : Compound} {e : Expr}
    (h : compiler.compound c = .ok e) {p : Path} :
    compiler.SelectsAlone d c p ↔ (compiler.step c).Accepts d p := by
  have hcomplex := complex_compound h
  obtain ⟨ns, hns, hmem⟩ := selects_compound h d
  constructor
  · rintro ⟨e', ns', he', hselects, hp⟩
    rw [hcomplex] at he'
    cases he'
    rw [selects_unique hselects hns] at hp
    obtain ⟨_, heq, haccepts⟩ := (hmem _).mp hp
    cases heq
    exact haccepts
  · intro hp
    exact ⟨e, ns, hcomplex, hns, (hmem _).mpr ⟨p, rfl, hp⟩⟩

/-- The links of a chain take elements to the ends of the chains that start there. -/
theorem eval_links {compiler : Compiler} {focus : Focus} (tail : List (Combinator × Compound))
    (htail : ∀ link ∈ tail, ∃ e, compiler.compound link.2 = .ok e) {base : Tree}
    {starts : List Node} (hbase : eval d base focus = some (.nodes starts))
    (hstarts : ∀ n ∈ starts, ∃ p, n = .tree p ∧ d.IsElement p) :
    ∃ ns, eval d (tail.foldl (fun left (combinator, next) =>
        Compiler.extend left combinator (compiler.step next)) base) focus = some (.nodes ns) ∧
      ∀ n, n ∈ ns ↔ ∃ q, n = .tree q ∧ ∃ p, .tree p ∈ starts ∧ compiler.Chain d p tail q := by
  -- The path grows at its end, so the induction is for any elements reached so far.
  induction tail generalizing base starts with
  | nil =>
      refine ⟨starts, hbase, fun n => ⟨fun hn => ?_, ?_⟩⟩
      · obtain ⟨p, rfl, _⟩ := hstarts n hn
        exact ⟨p, rfl, p, hn, rfl⟩
      · rintro ⟨q, rfl, p, hp, rfl⟩
        exact hp
  | cons link tail ih =>
      obtain ⟨combinator, next⟩ := link
      obtain ⟨e, he⟩ := htail _ List.mem_cons_self
      obtain ⟨mids, hmids, hmid⟩ :=
        eval_extend (step_steady compiler next) combinator hbase hstarts
      obtain ⟨ns, hns, hmem⟩ := ih (fun link hlink => htail link (List.mem_cons_of_mem _ hlink))
        hmids fun n hn => ((hmid n).mp hn).imp fun _ hq => ⟨hq.1, hq.2.1.isElement⟩
      refine ⟨ns, hns, fun n => (hmem n).trans ?_⟩
      constructor
      · rintro ⟨q, rfl, r, hr, hchain⟩
        obtain ⟨_, heq, haccepts, p, hp, hrelates⟩ := (hmid _).mp hr
        cases heq
        exact ⟨q, rfl, p, hp, r, hrelates, (selectsAlone_iff_accepts he).mpr haccepts, hchain⟩
      · rintro ⟨q, rfl, p, hp, r, hrelates, halone, hchain⟩
        have haccepts := (selectsAlone_iff_accepts he).mp halone
        exact ⟨q, rfl, r, (hmid _).mpr ⟨r, rfl, haccepts, p, hp, hrelates⟩, hchain⟩

/-- The last element of a chain is an element, as each of them is. -/
theorem chain_isElement {compiler : Compiler} {tail : List (Combinator × Compound)}
    (htail : ∀ link ∈ tail, ∃ e, compiler.compound link.2 = .ok e) {p q : Path}
    (hp : d.IsElement p) (h : compiler.Chain d p tail q) : d.IsElement q := by
  induction tail generalizing p with
  | nil => exact h ▸ hp
  | cons link tail ih =>
      obtain ⟨r, _, halone, h⟩ := h
      obtain ⟨e, he⟩ := htail _ List.mem_cons_self
      exact ih (fun link hlink => htail link (List.mem_cons_of_mem _ hlink))
        ((selectsAlone_iff_accepts he).mp halone).isElement h

/-- **What a chain selects.** If all compounds of a chain compile, so does the chain, and
its XPath selects exactly the elements in which a chain of elements ends: each of them
is selected by its compound alone, and each stands to the one before it as the
combinator between them says. -/
theorem selects_iff_chain {compiler : Compiler} {c : Complex}
    (hhead : ∃ e, compiler.compound c.head = .ok e)
    (htail : ∀ link ∈ c.tail, ∃ e, compiler.compound link.2 = .ok e) (d : Document) :
    ∃ e ns, compiler.complex c = .ok e ∧ Selects d (Compiler.defaultAxis ++ e.render) ns ∧
      ∀ n, n ∈ ns ↔ ∃ q, n = .tree q ∧ d.IsElement q ∧
        ∃ p, compiler.SelectsAlone d c.head p ∧ compiler.Chain d p c.tail q := by
  obtain ⟨first, hfirst⟩ := hhead
  obtain ⟨e, he⟩ : ∃ e, compiler.complex c = .ok e := by
    -- Nothing but a compound can be refused.
    rw [Compiler.complex, hfirst]
    refine exists_foldlM_eq_ok (fun (combinator, next) hlink left => ?_) first
    obtain ⟨right, hright⟩ : ∃ e, compiler.compound next = .ok e := htail _ hlink
    refine ⟨Compiler.attach left combinator right, ?_⟩
    simp only
    rw [hright]
    rfl
  have hparses := (complex_written_default he).ofSteps.parses
  obtain ⟨starts, hstarts, hstart⟩ := (step_steady (d := d) compiler c.head).eval_everywhere
  obtain ⟨ns, hns, hmem⟩ := eval_links c.tail htail hstarts
    fun n hn => ((hstart n).mp hn).imp fun _ hp => ⟨hp.1, hp.2.isElement⟩
  refine ⟨e, ns, he, (selects_iff hparses).mpr hns, fun n => (hmem n).trans ?_⟩
  constructor
  · rintro ⟨q, rfl, p, hp, hchain⟩
    obtain ⟨_, heq, haccepts⟩ := (hstart _).mp hp
    cases heq
    exact ⟨q, rfl, chain_isElement htail haccepts.isElement hchain, p,
      (selectsAlone_iff_accepts hfirst).mpr haccepts, hchain⟩
  · rintro ⟨q, rfl, _, p, halone, hchain⟩
    have haccepts := (selectsAlone_iff_accepts hfirst).mp halone
    exact ⟨q, rfl, p, (hstart _).mpr ⟨p, rfl, haccepts⟩, hchain⟩

/-- The `b` behind an `a` is its next sibling, though a text and a comment stand between. -/
theorem selects_iff_chain_next :
    ∃ e ns, Compiler.complex ⟨false⟩ ⟨⟨some "a", []⟩, [(.nextSibling, ⟨some "b", []⟩)]⟩ = .ok e ∧
      Selects ⟨[.element "r" [] [.element "a" [] [], .text " ", .comment "", .element "b" [] []]]⟩
        (Compiler.defaultAxis ++ e.render) ns ∧ .tree [3, 0] ∈ ns := by
  have ha : Compiler.compound ⟨false⟩ ⟨some "a", []⟩ = .ok ⟨"", "a", ""⟩ := rfl
  have hb : Compiler.compound ⟨false⟩ ⟨some "b", []⟩ = .ok ⟨"", "b", ""⟩ := rfl
  obtain ⟨e, ns, he, hselects, hmem⟩ :=
    @selects_iff_chain ⟨false⟩ ⟨⟨some "a", []⟩, [(.nextSibling, ⟨some "b", []⟩)]⟩ ⟨_, ha⟩
      (fun link hlink => List.mem_singleton.mp hlink ▸ ⟨_, hb⟩)
      ⟨[.element "r" [] [.element "a" [] [], .text " ", .comment "", .element "b" [] []]]⟩
  refine ⟨e, ns, he, hselects, (hmem _).mpr ⟨[3, 0], rfl, ⟨"b", [], [], rfl⟩, [0, 0], ?_,
    [3, 0], ⟨⟨[0], 0, 3, rfl, rfl, by decide⟩, ?_⟩, ?_, rfl⟩⟩
  · exact (selectsAlone_iff_accepts ha).mpr
      ⟨⟨"a", [], [], rfl⟩, fun n hn => Option.some.inj hn ▸ rfl, nofun⟩
  · rintro r ⟨_, _, _, helement⟩ ⟨_, i, j, hi, rfl, hij⟩ ⟨_, _, k, hj, hk, hjk⟩
    cases hi
    cases hj
    cases hk
    have hcases : j = 1 ∨ j = 2 := by omega
    rcases hcases with rfl | rfl <;> cases helement
  · exact (selectsAlone_iff_accepts hb).mpr
      ⟨⟨"b", [], [], rfl⟩, fun n hn => Option.some.inj hn ▸ rfl, nofun⟩

end XPathLocator.Css
