import XPathLocator.Proofs.Css.Chain

/-!
# `XPathLocator.Proofs.Css.Compound`: compounds as sets of elements

The simple selectors of a compound work apart from each other. None of them changes the node test
of the step, which is all that a later one looks at, and none asks for a position. So a
compound selects the elements that its name selects together with each simple selector alone
(`selects_parts`), and a negated compound selects the elements that are left
(`selects_negation`). In both cases nothing is refused but what is refused alone.
-/

set_option autoImplicit false

namespace XPathLocator.Css

open XPath

variable {d : Document}

namespace Compound

/-- The compounds of the element name and one simple selector each. If there are no simple
selectors, it is the element name alone. -/
def parts (c : Compound) : List Compound :=
  match c.simples with
  | [] => [⟨c.element, []⟩]
  | simples => simples.map fun simple => ⟨c.element, [simple]⟩

/-- The compound `:not(c)`. -/
def negation (c : Compound) : Compound :=
  ⟨none, [.not c.element c.simples]⟩

/-- What holds of the parts of a compound holds of each simple selector with the element name, and
of the name alone if there are none. -/
theorem forall_mem_parts {c : Compound} {P : Compound → Prop} :
    (∀ part ∈ c.parts, P part) ↔
      (c.simples = [] → P ⟨c.element, []⟩) ∧ ∀ simple ∈ c.simples, P ⟨c.element, [simple]⟩ := by
  rw [parts]
  split
  · next h => simp [h]
  · next h =>
    rw [List.forall_mem_map]
    exact (and_iff_right fun hnil => (h hnil).elim).symm

end Compound

/-! ### What is refused -/

/-- Conditions are written for one node test, so they are refused or not each on its own. -/
theorem exists_narrow_eq_ok_iff (compiler : Compiler) (e : Expr) (simples : List Simple) :
    (∃ e', compiler.narrow e simples = .ok e') ↔
      ∀ simple ∈ simples, ∃ text, compiler.condition e.element simple = .ok text := by
  induction simples generalizing e with
  | nil => exact ⟨fun _ => nofun, fun _ => ⟨e, rfl⟩⟩
  | cons simple rest ih =>
      rw [List.forall_mem_cons, Compiler.narrow]
      constructor
      · rintro ⟨e', h⟩
        obtain ⟨text, htext, h⟩ := exists_of_bind_eq_ok h
        exact ⟨⟨text, htext⟩, (ih (e.addCondition text)).mp ⟨e', h⟩⟩
      · rintro ⟨⟨text, htext⟩, hrest⟩
        rw [htext]
        exact (ih (e.addCondition text)).mpr hrest

/-- A compound is refused only if one of its parts is. -/
theorem exists_compound_eq_ok_iff (compiler : Compiler) (c : Compound) :
    (∃ e, compiler.compound c = .ok e) ↔ ∀ part ∈ c.parts, ∃ e, compiler.compound part = .ok e := by
  rw [Compound.forall_mem_parts]
  simp only [Compiler.compound, exists_narrow_eq_ok_iff, List.forall_mem_singleton]
  exact (and_iff_right fun _ => List.forall_mem_nil _).symm

/-- A negated compound is refused only if the compound is. -/
theorem exists_negation_eq_ok {compiler : Compiler} {c : Compound}
    (h : ∃ e, compiler.compound c = .ok e) : ∃ e, compiler.compound c.negation = .ok e := by
  obtain ⟨e, he⟩ := h
  refine (exists_narrow_eq_ok_iff ..).mpr ?_
  have hinner : compiler.narrow (compiler.element c.element) c.simples = .ok e := he
  rw [Compound.negation, List.forall_mem_singleton, Compiler.condition, hinner]
  exact ⟨_, rfl⟩

/-! ### What is selected -/

/-- A compound accepts what all its parts accept. -/
theorem accepts_parts (compiler : Compiler) (c : Compound) {p : Path} :
    (compiler.step c).Accepts d p ↔ ∀ part ∈ c.parts, (compiler.step part).Accepts d p := by
  rw [Compound.forall_mem_parts]
  simp only [accepts_step, List.forall_mem_singleton]
  constructor
  · rintro ⟨hname, hsimples⟩
    exact ⟨fun _ => ⟨hname, List.forall_mem_nil _⟩,
      fun simple hsimple => ⟨hname, hsimples simple hsimple⟩⟩
  · rintro ⟨hnone, hsome⟩
    refine ⟨?_, fun simple hsimple => (hsome simple hsimple).2⟩
    -- Each part asks for the name, and there is at least one part.
    cases hsimples : c.simples with
    | nil => exact (hnone hsimples).1
    | cons simple rest => exact (hsome simple (by simp [hsimples])).1

/-- The XPath of a compound selects the elements that its step accepts. -/
theorem selectsElements_compound {compiler : Compiler} {c : Compound} {e : Expr}
    (h : compiler.compound c = .ok e) :
    SelectsElements d (Compiler.defaultAxis ++ e.render) ((compiler.step c).Accepts d) :=
  (step_steady compiler c).selectsElements
    (complex_written_default (complex_compound h)).ofSteps.parses

/-- What a simple selector alone selects is told by its condition. -/
theorem selects_simple {compiler : Compiler} {simple : Simple} {e : Expr}
    (h : compiler.compound ⟨none, [simple]⟩ = .ok e) {P : Path → Prop}
    (hP : ∀ p, holdsAt d (compiler.demand .any simple) (.tree p) ↔ P p) :
    SelectsElements d (Compiler.defaultAxis ++ e.render) P := by
  refine (selectsElements_compound h).congr fun p hp => ?_
  rw [accepts_simple, and_iff_right hp]
  exact hP p

/-- **A compound selects what its parts select.** It compiles if each part does, and then it selects
exactly the elements that all parts select. So it does not matter in which order the simple
selectors stand, or how often each of them. -/
theorem selects_parts (compiler : Compiler) (c : Compound) :
    ((∃ e, compiler.compound c = .ok e) ↔
      ∀ part ∈ c.parts, ∃ e, compiler.compound part = .ok e) ∧
    ∀ e, compiler.compound c = .ok e → ∀ d,
      SelectsElements d (Compiler.defaultAxis ++ e.render)
        (fun p => ∀ part ∈ c.parts, compiler.SelectsAlone d part p) ∧
      ∀ simples : List Simple, (∀ simple, simple ∈ simples ↔ simple ∈ c.simples) →
        ∃ e', compiler.compound ⟨c.element, simples⟩ = .ok e' ∧
          SelectsElements d (Compiler.defaultAxis ++ e'.render) (compiler.SelectsAlone d c) := by
  refine ⟨exists_compound_eq_ok_iff compiler c, fun e he d => ⟨?_, fun simples hsimples => ?_⟩⟩
  -- Both sides are put in terms of the steps, where a compound asks for all that its parts ask for.
  · have hparts := (exists_compound_eq_ok_iff compiler c).mp ⟨e, he⟩
    refine (selectsElements_compound he).congr fun p _ => (accepts_parts compiler c).trans ?_
    refine forall₂_congr fun part hpart => ?_
    obtain ⟨_, hpart⟩ := hparts part hpart
    exact (selectsAlone_iff_accepts hpart).symm
  -- Neither what is refused nor what is accepted looks at more of a list than its members.
  · obtain ⟨e', he'⟩ : ∃ e', compiler.compound ⟨c.element, simples⟩ = .ok e' :=
      (exists_narrow_eq_ok_iff ..).mpr fun simple hsimple =>
        (exists_narrow_eq_ok_iff ..).mp ⟨e, he⟩ simple ((hsimples simple).mp hsimple)
    refine ⟨e', he', (selectsElements_compound he').congr fun p _ => ?_⟩
    rw [selectsAlone_iff_accepts he, accepts_step, accepts_step]
    simp only [hsimples]

/-- The first `a`, with an attribute. It does not matter which is asked first, or how often. -/
theorem selects_parts_first :
    let mark : Simple := .attribute "x" none
    let place : Simple := .pseudo (.ofType .first)
    let d : Document := ⟨[.element "r" [] [.element "b" [] [],
      .element "a" [("x", "")] [], .element "a" [("x", "")] []]]⟩
    ∃ e e' ns ms, Compiler.compound ⟨true⟩ ⟨some "A", [mark, place]⟩ = .ok e ∧
      Compiler.compound ⟨true⟩ ⟨some "A", [place, mark, mark]⟩ = .ok e' ∧
      Selects d (Compiler.defaultAxis ++ e.render) ns ∧
      Selects d (Compiler.defaultAxis ++ e'.render) ms ∧
      .tree [1, 0] ∈ ns ∧ .tree [2, 0] ∉ ns ∧ .tree [1, 0] ∈ ms := by
  intro mark place d
  let isFirst : Tree := countTree (.along .precedingSibling (.name (.ofName "a"))) "0"
  obtain ⟨_, hmark⟩ : ∃ e, Compiler.compound ⟨true⟩ ⟨some "A", [mark]⟩ = .ok e := ⟨_, rfl⟩
  obtain ⟨_, hplace⟩ : ∃ e, Compiler.compound ⟨true⟩ ⟨some "A", [place]⟩ = .ok e := by
    refine (exists_narrow_eq_ok_iff ..).mpr (List.forall_mem_singleton.mpr ?_)
    have hname : (Compiler.element ⟨true⟩ (some "A")).element = "a" := by decide +kernel
    -- Only a step for any name would be refused.
    rw [hname, Compiler.condition, pseudoCondition, if_neg (by decide)]
    exact ⟨_, rfl⟩
  have hstepOf : Compiler.stepOf ⟨true⟩ (some "A") = ⟨some "a", none⟩ :=
    stepOf_of_isPlainName (by decide +kernel) (by decide)
  have hmarkStep : Compiler.step ⟨true⟩ ⟨some "A", [mark]⟩ = ⟨some "a", some (attrTree "x")⟩ := by
    have hpath : Compiler.attrPath ⟨true⟩ "x" = attrTree "x" :=
      attrPath_of_isPlainName (by decide +kernel) (by decide)
    rw [Compiler.step, hstepOf, Compiler.narrowed, Compiler.demand, hpath]
    rfl
  have hplaceStep : Compiler.step ⟨true⟩ ⟨some "A", [place]⟩ = ⟨some "a", some isFirst⟩ := by
    rw [Compiler.step, hstepOf]
    rfl
  have helement : d.IsElement [1, 0] := ⟨"a", [("x", "")], [], rfl⟩
  have hmarked : Compiler.SelectsAlone ⟨true⟩ d ⟨some "A", [mark]⟩ [1, 0] := by
    rw [selectsAlone_iff_accepts hmark, hmarkStep, Step.accepts_mk]
    exact ⟨helement, rfl, by decide +kernel⟩
  have hfirst : Compiler.SelectsAlone ⟨true⟩ d ⟨some "A", [place]⟩ [1, 0] := by
    rw [selectsAlone_iff_accepts hplace, hplaceStep, Step.accepts_mk]
    exact ⟨helement, rfl, by decide +kernel⟩
  have hsecond : ¬ Compiler.SelectsAlone ⟨true⟩ d ⟨some "A", [place]⟩ [2, 0] := by
    have hfalse : holdsAt d isFirst (.tree [2, 0]) = false := by decide +kernel
    rw [selectsAlone_iff_accepts hplace, hplaceStep, Step.accepts_mk, hfalse]
    simp
  have hparts := selects_parts ⟨true⟩ ⟨some "A", [mark, place]⟩
  have hall : ∀ part ∈ Compound.parts ⟨some "A", [mark, place]⟩,
      part = ⟨some "A", [mark]⟩ ∨ part = ⟨some "A", [place]⟩ := by
    simp [Compound.parts]
  obtain ⟨e, he⟩ := hparts.1.mpr fun part hpart => by
    rcases hall part hpart with rfl | rfl
    · exact ⟨_, hmark⟩
    · exact ⟨_, hplace⟩
  obtain ⟨⟨ns, hns, hmem⟩, horder⟩ := hparts.2 e he d
  obtain ⟨e', he', ms, hms, hmem'⟩ := horder [place, mark, mark] (by simp [or_comm])
  have hin : .tree [1, 0] ∈ ns := by
    refine (hmem _).mpr ⟨[1, 0], rfl, helement, fun part hpart => ?_⟩
    rcases hall part hpart with rfl | rfl
    · exact hmarked
    · exact hfirst
  refine ⟨e, e', ns, ms, he, he', hns, hms, hin, fun h => ?_, ?_⟩
  · obtain ⟨p, hp, _, halone⟩ := (hmem _).mp h
    cases hp
    exact hsecond (halone _ (by simp [Compound.parts]))
  · exact (hmem' _).mpr ⟨[1, 0], rfl, helement, e, ns, complex_compound he, hns, hin⟩

/-- **A negated compound selects the elements that the compound does not**, and negated twice it
selects what the compound does. -/
theorem selects_negation {compiler : Compiler} {c : Compound}
    (h : ∃ e, compiler.compound c = .ok e) :
    ∃ e' e'', compiler.compound c.negation = .ok e' ∧
      compiler.compound c.negation.negation = .ok e'' ∧ ∀ d,
        SelectsElements d (Compiler.defaultAxis ++ e'.render)
          (fun p => ¬ compiler.SelectsAlone d c p) ∧
        SelectsElements d (Compiler.defaultAxis ++ e''.render) (compiler.SelectsAlone d c) := by
  obtain ⟨e', he'⟩ := exists_negation_eq_ok h
  obtain ⟨e'', he''⟩ := exists_negation_eq_ok ⟨e', he'⟩
  obtain ⟨e, he⟩ := h
  have halone : ∀ d p, compiler.SelectsAlone d c p ↔ (compiler.step c).Accepts d p := fun d p =>
    selectsAlone_iff_accepts he
  have hnegation : ∀ d c p, (compiler.step (Compound.negation c)).Accepts d p ↔
      d.IsElement p ∧ ¬ (compiler.step c).Accepts d p := fun d c p =>
    accepts_not compiler c.element c.simples
  refine ⟨e', e'', he', he'', fun d => ⟨?_, ?_⟩⟩
  · refine (selectsElements_compound he').congr fun p hp => ?_
    rw [hnegation, halone, and_iff_right hp]
  -- The inner negation is of elements only, so the outer one does not bring in other nodes.
  · refine (selectsElements_compound he'').congr fun p hp => ?_
    rw [hnegation, hnegation, halone, and_iff_right hp, and_iff_right hp, not_not]

/-- A negation within a negation: the elements `a` without an attribute, and all others. -/
theorem selects_negation_nested :
    let c : Compound := ⟨some "a", [.not none [.attribute "x" none]]⟩
    let d : Document := ⟨[.element "r" [] [.element "a" [("x", "")] [], .element "a" [] []]]⟩
    (∃ e, Compiler.compound ⟨true⟩ c = .ok e) ∧ ∃ e' e'' ns ms,
      Compiler.compound ⟨true⟩ c.negation = .ok e' ∧
      Compiler.compound ⟨true⟩ c.negation.negation = .ok e'' ∧
      Selects d (Compiler.defaultAxis ++ e'.render) ns ∧
      Selects d (Compiler.defaultAxis ++ e''.render) ms ∧
      .tree [0, 0] ∈ ns ∧ .tree [1, 0] ∉ ns ∧ .tree [0, 0] ∉ ms ∧ .tree [1, 0] ∈ ms := by
  intro c d
  obtain ⟨e, he⟩ : ∃ e, Compiler.compound ⟨true⟩ c = .ok e := ⟨_, rfl⟩
  obtain ⟨e', e'', he', he'', hselects⟩ := selects_negation ⟨e, he⟩
  obtain ⟨⟨ns, hns, hmem⟩, ms, hms, hmem'⟩ := hselects d
  have hstep : Compiler.step ⟨true⟩ c = ⟨some "a", some (.apply "not" [attrTree "x"])⟩ := by
    have hstepOf : Compiler.stepOf ⟨true⟩ (some "a") = ⟨some "a", none⟩ :=
      stepOf_of_isPlainName (by decide +kernel) (by decide)
    have hpath : Compiler.attrPath ⟨true⟩ "x" = attrTree "x" :=
      attrPath_of_isPlainName (by decide +kernel) (by decide)
    change Compiler.narrowed ⟨true⟩ (Compiler.stepOf ⟨true⟩ (some "a"))
      [.not none [.attribute "x" none]] = _
    simp only [hstepOf, stepOf_none, Compiler.narrowed, Compiler.demand, hpath]
    rfl
  have hwith : ¬ Compiler.SelectsAlone ⟨true⟩ d c [0, 0] := by
    have hfalse : holdsAt d (.apply "not" [attrTree "x"]) (.tree [0, 0]) = false := by decide +kernel
    rw [selectsAlone_iff_accepts he, hstep, Step.accepts_mk, hfalse]
    simp
  have hwithout : Compiler.SelectsAlone ⟨true⟩ d c [1, 0] := by
    rw [selectsAlone_iff_accepts he, hstep, Step.accepts_mk]
    exact ⟨⟨"a", [], [], rfl⟩, rfl, by decide +kernel⟩
  refine ⟨⟨e, he⟩, e', e'', ns, ms, he', he'', hns, hms, ?_, ?_, ?_, ?_⟩
  · exact (hmem _).mpr ⟨[0, 0], rfl, ⟨"a", [("x", "")], [], rfl⟩, hwith⟩
  · intro h
    obtain ⟨p, hp, _, hnot⟩ := (hmem _).mp h
    cases hp
    exact hnot hwithout
  · intro h
    obtain ⟨p, hp, _, halone⟩ := (hmem' _).mp h
    cases hp
    exact hwith halone
  · exact (hmem' _).mpr ⟨[1, 0], rfl, ⟨"a", [], [], rfl⟩, hwithout⟩

end XPathLocator.Css
