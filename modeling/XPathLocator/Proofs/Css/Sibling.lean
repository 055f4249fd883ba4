import XPathLocator.Proofs.Css.Refusal
import XPathLocator.Proofs.Css.TypeName

/-!
# `XPathLocator.Proofs.Css.Sibling`: the only element among siblings

An element is the only one of a name among its siblings if it is the first one and the last one.
The first and the last are found by counting siblings, and the only one by counting the children
of the parent element (`holdsAt_first`, `holdsAt_last`, `holdsAt_only`). Both ways agree on every
element below another one (`selects_only`). But the document node is no element, and so an element
that has nothing but the document node above it is the only one in the first way alone
(`selects_only_root`).
-/

set_option autoImplicit false

namespace XPathLocator.Css

open XPath

variable {d : Document} {test : Option String} {p : Path}

/-- An element of a name, or of any name. -/
def OfName (d : Document) (test : Option String) (p : Path) : Prop :=
  d.IsElement p ∧ ∀ n ∈ test, d.nameOf (.tree p) = n

/-- Among the children of its parent there is no other element of a name. -/
def IsOnly (d : Document) (test : Option String) (p : Path) : Prop :=
  ∀ parent q, IsChild parent p → IsChild parent q → OfName d test q → q = p

/-! ### Counts -/

/-- No element of a name on an axis. -/
theorem holdsAt_count_zero {axis : Axis} (haxis : axis.ofElements) {R : Path → Path → Prop}
    (hR : ∀ {p q}, axis.holds d (.tree p) (.tree q) ↔ R p q) :
    holdsAt d (countTree (.along axis (nodeTest test)) "0") (.tree p) ↔
      ∀ q, OfName d test q → ¬ R p q := by
  have hzero : digitsValue? "0" = some 0 := by decide
  have hcount := (Means.along (d := d) axis (nodeTest test)).count.eq (.number hzero) fun _ => rfl
  rw [countTree, hcount.holdsAt_eq, Value.truth, decide_eq_true_iff, Int.natCast_eq_zero,
    List.length_eq_zero_iff, List.filter_eq_nil_iff]
  simp only [Bool.and_eq_true, passes_nodeTest haxis]
  constructor
  · intro h q hq hpq
    exact h (.tree q) hq.1.mem_nodes ⟨hR.mpr hpq, q, rfl, hq⟩
  · rintro h n _ ⟨hpq, q, rfl, hq⟩
    exact h q hq (hR.mp hpq)

/-- The first place among siblings: no element of the name stands before. -/
theorem holdsAt_first : holdsAt d (typePlaceTree (nodeTest test) .first) (.tree p) ↔
    ∀ q, OfName d test q → ¬ IsLaterSibling q p :=
  holdsAt_count_zero rfl holds_earlierSibling

/-- The last place among siblings: no element of the name stands behind. -/
theorem holdsAt_last : holdsAt d (typePlaceTree (nodeTest test) .last) (.tree p) ↔
    ∀ q, OfName d test q → ¬ IsLaterSibling p q :=
  holdsAt_count_zero rfl holds_laterSibling

/-- In document order no node comes twice, so nodes that are all the same are one at most. -/
theorem length_le_one_of_ascending {number : Nat} {parent : Path} {ns : List Node}
    (h : ns.Pairwise Ascending) (hns : ∀ n ∈ ns, n = .tree (number :: parent)) :
    ns.length ≤ 1 := by
  match ns, h with
  | [], _ => exact Nat.zero_le 1
  | [_], _ => exact Nat.le_refl 1
  | n :: m :: ns, h =>
      have hn := hns n (by simp)
      have hm := hns m (by simp)
      have hlt := (List.pairwise_cons.mp h).1 m (by simp) parent number number hn hm
      exact absurd hlt (Nat.lt_irrefl _)

/-- What is counted for the only element are the elements of a name that have the same element for
their parent. -/
theorem exists_means_amongChildren (d : Document) (test : Option String) :
    ∃ ns : Node → List Node, Means d (amongChildren (nodeTest test)) (fun n => .nodes (ns n)) ∧
      (∀ n, (ns n).Pairwise Ascending) ∧ ∀ p m, m ∈ ns (.tree p) ↔
        ∃ q parent, m = .tree q ∧ OfName d test q ∧ d.IsElement parent ∧ IsChild parent p ∧
          IsChild parent q := by
  have hnone : ∀ c ∈ ([] : List Tree), Steady d c := nofun
  refine ⟨_, (Means.along .parent .any).step .child (nodeTest test) hnone,
    fun n => d.nodes_pairwise.sublist List.filter_sublist, fun p m => ?_⟩
  have hparent : ∀ n, NodeTest.any.passes d .parent n ↔ ∃ q, n = .tree q ∧ d.IsElement q :=
    fun n => isPrincipal_iff rfl
  have hchild : ∀ n, (nodeTest test).passes d .child n ↔ ∃ q, n = .tree q ∧ OfName d test q :=
    fun n => passes_nodeTest rfl
  -- Up to the parent and down again: an element is reached exactly if it has the same parent.
  simp only [List.mem_filter, Bool.and_eq_true, List.any_eq_true, List.all_nil, and_true, hchild,
    hparent]
  constructor
  · rintro ⟨_, ⟨_, ⟨_, hup, parent, rfl, helement⟩, hdown⟩, q, rfl, hq⟩
    exact ⟨q, parent, rfl, hq, helement, holds_parent.mp hup, holds_child.mp hdown⟩
  · rintro ⟨q, parent, rfl, hq, helement, hup, hdown⟩
    exact ⟨hq.1.mem_nodes, ⟨.tree parent, ⟨helement.mem_nodes, holds_parent.mpr hup, parent, rfl,
      helement⟩, holds_child.mpr hdown⟩, q, rfl, hq⟩

/-- The only element of a name below its parent, which is an element. -/
theorem holdsAt_only (hp : OfName d test p) :
    holdsAt d (typePlaceTree (nodeTest test) .only) (.tree p) ↔
      IsOnly d test p ∧ ¬ IsChild [] p := by
  have hone : digitsValue? "1" = some 1 := by decide
  obtain ⟨ns, hns, hascending, hmem⟩ := exists_means_amongChildren d test
  have hcount := hns.count.eq (.number hone) fun _ => rfl
  rw [typePlaceTree, countTree, hcount.holdsAt_eq, Value.truth, decide_eq_true_iff,
    Nat.cast_eq_one, ← exists_parent_iff hp.1]
  constructor
  · intro h
    -- One node is counted. So there is a parent element, and then the element itself is counted.
    obtain ⟨m, hm⟩ := List.length_eq_one_iff.mp h
    have hsame : ∀ {n}, n ∈ ns (.tree p) → n = m := fun hn => List.mem_singleton.mp (hm ▸ hn)
    obtain ⟨_, parent, _, _, helement, hparent, _⟩ :=
      (hmem p m).mp (hm ▸ List.mem_singleton.mpr rfl)
    have hself : Node.tree p = m :=
      hsame ((hmem p _).mpr ⟨p, parent, rfl, hp, helement, hparent, hparent⟩)
    refine ⟨?_, parent, helement, hparent⟩
    rintro parent' q ⟨i, rfl⟩ hq hname
    obtain ⟨_, hparent'⟩ := hparent
    cases hparent'
    have hother := hsame ((hmem _ _).mpr ⟨q, parent, rfl, hname, helement, ⟨i, rfl⟩, hq⟩)
    exact Node.tree.inj (hother.trans hself.symm)
  · rintro ⟨honly, parent, helement, number, rfl⟩
    have hself := (hmem _ _).mpr ⟨_, parent, rfl, hp, helement, ⟨number, rfl⟩, ⟨number, rfl⟩⟩
    have hsame : ∀ n ∈ ns (.tree (number :: parent)), n = .tree (number :: parent) := by
      intro n hn
      obtain ⟨q, parent', rfl, hq, _, hparent, hchild⟩ := (hmem _ _).mp hn
      rw [honly parent' q hparent hchild hq]
    have hle := length_le_one_of_ascending (hascending _) hsame
    have hpos := List.length_pos_of_mem hself
    omega

/-- The only element of a name is the first one and the last one. -/
theorem isOnly_iff : IsOnly d test p ↔
    (∀ q, OfName d test q → ¬ IsLaterSibling q p) ∧
      ∀ q, OfName d test q → ¬ IsLaterSibling p q := by
  constructor
  · refine fun honly => ⟨?_, ?_⟩
    · rintro _ hq ⟨parent, i, j, rfl, rfl, hij⟩
      cases honly parent _ ⟨j, rfl⟩ ⟨i, rfl⟩ hq
      exact absurd hij (Nat.lt_irrefl _)
    · rintro _ hq ⟨parent, i, j, rfl, rfl, hij⟩
      cases honly parent _ ⟨i, rfl⟩ ⟨j, rfl⟩ hq
      exact absurd hij (Nat.lt_irrefl _)
  · rintro ⟨hfirst, hlast⟩ parent _ ⟨i, rfl⟩ ⟨j, rfl⟩ hq
    rcases Nat.lt_trichotomy i j with hij | rfl | hij
    · exact absurd ⟨parent, i, j, rfl, rfl, hij⟩ (hlast _ hq)
    · rfl
    · exact absurd ⟨parent, j, i, rfl, rfl, hij⟩ (hfirst _ hq)

/-! ### Compounds -/

variable {compiler : Compiler} {element : Option String}

/-- A compound with the first and the last place accepts the elements that are the only one. -/
theorem accepts_first_last (hname : compiler.stepOf element = ⟨test, none⟩) {first last : Simple}
    (hfirst : compiler.demand (nodeTest test) first = typePlaceTree (nodeTest test) .first)
    (hlast : compiler.demand (nodeTest test) last = typePlaceTree (nodeTest test) .last) :
    (compiler.step ⟨element, [first, last]⟩).Accepts d p ↔ OfName d test p ∧ IsOnly d test p := by
  rw [accepts_step, hname, isOnly_iff]
  simp [Step.Accepts, OfName, hfirst, hlast, holdsAt_first, holdsAt_last]

/-- A compound with the only place accepts the elements that are the only one, below another
element. -/
theorem accepts_only (hname : compiler.stepOf element = ⟨test, none⟩) {only : Simple}
    (honly : compiler.demand (nodeTest test) only = typePlaceTree (nodeTest test) .only) :
    (compiler.step ⟨element, [only]⟩).Accepts d p ↔
      OfName d test p ∧ IsOnly d test p ∧ ¬ IsChild [] p := by
  rw [accepts_step, hname]
  simp only [List.forall_mem_singleton, honly]
  have hofName : (⟨test, none⟩ : Step).Accepts d p ↔ OfName d test p := by
    simp [Step.Accepts, OfName]
  rw [hofName]
  exact and_congr_right holdsAt_only

/-! ### Selectors -/

/-- The second text selects the only elements of a name, and the first one selects those of them
that do not stand directly below the document node. -/
def SelectsOnly (d : Document) (test : Option String) (x y : String) : Prop :=
  ∃ ns ms, Selects d x ns ∧ Selects d y ms ∧
    (∀ n, n ∈ ms ↔ ∃ p, n = .tree p ∧ OfName d test p ∧ IsOnly d test p) ∧
    ∀ n, n ∈ ns ↔ n ∈ ms ∧ ∀ i, n ≠ .tree [i]

/-- Two compounds, one with the only place and one with the first and the last, compile to XPaths
that select the same elements below another one. -/
theorem exists_selectsOnly (hname : compiler.stepOf element = ⟨test, none⟩)
    {only first last : Simple} {s t : String} (hs : parse s = .ok [⟨⟨element, [only]⟩, []⟩])
    (ht : parse t = .ok [⟨⟨element, [first, last]⟩, []⟩])
    (hsok : ∃ step, compiler.compound ⟨element, [only]⟩ = .ok step)
    (htok : ∃ step, compiler.compound ⟨element, [first, last]⟩ = .ok step)
    (honly : compiler.demand (nodeTest test) only = typePlaceTree (nodeTest test) .only)
    (hfirst : compiler.demand (nodeTest test) first = typePlaceTree (nodeTest test) .first)
    (hlast : compiler.demand (nodeTest test) last = typePlaceTree (nodeTest test) .last) :
    ∃ x y, compiler.compile s = .ok x ∧ compiler.compile t = .ok y ∧
      ∀ d, SelectsOnly d test x y := by
  obtain ⟨_, hsok⟩ := hsok
  obtain ⟨_, htok⟩ := htok
  obtain ⟨x, hx, hselects⟩ := exists_selects_of_parse compiler hs hsok
  obtain ⟨y, hy, hselects'⟩ := exists_selects_of_parse compiler ht htok
  refine ⟨x, y, hx, hy, fun d => ?_⟩
  obtain ⟨ns, hns, hmem⟩ := hselects d
  obtain ⟨ms, hms, hmem'⟩ := hselects' d
  simp only [accepts_only hname honly] at hmem
  simp only [accepts_first_last hname hfirst hlast] at hmem'
  -- Both keep the only ones of their parent, and one of them asks for an element there. The
  -- parent of a root is none.
  refine ⟨ns, ms, hns, hms, hmem', fun n => ?_⟩
  rw [hmem, hmem']
  constructor
  · rintro ⟨p, rfl, hp, hsole, hroot⟩
    refine ⟨⟨p, rfl, hp, hsole⟩, ?_⟩
    rintro i ⟨⟩
    exact hroot ⟨i, rfl⟩
  · rintro ⟨⟨p, rfl, hp, hsole⟩, hroot⟩
    refine ⟨p, rfl, hp, hsole, ?_⟩
    rintro ⟨i, rfl⟩
    exact hroot i rfl

/-- The two compounds for a place among all siblings. -/
theorem exists_selectsOnly_child (compiler : Compiler) :
    ∃ x y, compiler.compile ":only-child" = .ok x ∧
      compiler.compile ":first-child:last-child" = .ok y ∧ ∀ d, SelectsOnly d none x y := by
  have honly : kinds? ":only-child".toList = some [.delim ':', .ident "only-child"] := by
    decide +kernel
  have hboth : kinds? ":first-child:last-child".toList
      = some [.delim ':', .ident "first-child", .delim ':', .ident "last-child"] := by
    decide +kernel
  have hfirstName : PseudoName "first-child".toLower .firstChild :=
    Pseudo.ofName?_eq_some_iff.mp (by decide +kernel)
  have hlastName : PseudoName "last-child".toLower .lastChild :=
    Pseudo.ofName?_eq_some_iff.mp (by decide +kernel)
  have honlyName : PseudoName "only-child".toLower .onlyChild :=
    Pseudo.ofName?_eq_some_iff.mp (by decide +kernel)
  have hs : parse ":only-child" = .ok [⟨⟨none, [.pseudo .onlyChild]⟩, []⟩] :=
    parse_of_compoundKinds honly (.mk .none (.pseudo honlyName .nil) (by simp))
  have ht : parse ":first-child:last-child"
      = .ok [⟨⟨none, [.pseudo .firstChild, .pseudo .lastChild]⟩, []⟩] :=
    parse_of_compoundKinds hboth
      (.mk .none (.pseudo hfirstName (.pseudo hlastName .nil)) (by simp))
  exact exists_selectsOnly (stepOf_none compiler) hs ht ⟨_, rfl⟩ ⟨_, rfl⟩ rfl rfl rfl

/-- The two compounds for a place among the siblings of one name, for each spelling of the name. -/
theorem exists_selectsOnly_ofType (compiler : Compiler) {e n : String}
    (h : tokenize e = .ok [⟨.ident n, 0⟩]) (hn : isPlainName (compiler.normalName n)) :
    ∃ x y, compiler.compile (e ++ ":only-of-type") = .ok x ∧
      compiler.compile (e ++ ":first-of-type:last-of-type") = .ok y ∧
      ∀ d, SelectsOnly d (some (compiler.normalName n)) x y := by
  have hname := stepOf_of_isPlainName rfl hn
  have honly : kinds? "only-of-type".toList = some [.ident "only-of-type"] := by decide +kernel
  have hboth : kinds? "first-of-type:last-of-type".toList
      = some [.ident "first-of-type", .delim ':', .ident "last-of-type"] := by decide +kernel
  have hfirstName : PseudoName "first-of-type".toLower (.ofType .first) :=
    Pseudo.ofName?_eq_some_iff.mp (by decide +kernel)
  have hlastName : PseudoName "last-of-type".toLower (.ofType .last) :=
    Pseudo.ofName?_eq_some_iff.mp (by decide +kernel)
  have honlyName : PseudoName "only-of-type".toLower (.ofType .only) :=
    Pseudo.ofName?_eq_some_iff.mp (by decide +kernel)
  have hs : parse (e ++ ":only-of-type") = .ok [⟨⟨some n, [.pseudo (.ofType .only)]⟩, []⟩] :=
    parse_ident_append h (by decide) (by decide) rfl honly (.pseudo honlyName .nil)
  have ht : parse (e ++ ":first-of-type:last-of-type")
      = .ok [⟨⟨some n, [.pseudo (.ofType .first), .pseudo (.ofType .last)]⟩, []⟩] :=
    parse_ident_append h (by decide) (by decide) rfl hboth
      (.pseudo hfirstName (.pseudo hlastName .nil))
  -- The places have a node test, so none of them is refused.
  refine exists_selectsOnly hname hs ht ((compound_answers compiler _).exists_eq_ok ?_)
    ((compound_answers compiler _).exists_eq_ok ?_) rfl rfl rfl
  · simp [Compound.places, placesIn, Simple.places, PlaceOf.lacksNodeTest, hn]
  · simp [Compound.places, placesIn, Simple.places, PlaceOf.lacksNodeTest, hn]

/-- **The only element of a name is the first one and the last one.** Below any element,
`:only-child` selects exactly what `:first-child:last-child` does, and so it is for the elements of
a name, if the name is written as a node test. Directly below the document node, the first and last
element is not selected as the only one. -/
theorem selects_only (compiler : Compiler) :
    (∃ x y, compiler.compile ":only-child" = .ok x ∧
      compiler.compile ":first-child:last-child" = .ok y ∧ ∀ d, SelectsOnly d none x y) ∧
    ∀ e n, tokenize e = .ok [⟨.ident n, 0⟩] → isPlainName (compiler.normalName n) →
      ∃ x y, compiler.compile (e ++ ":only-of-type") = .ok x ∧
        compiler.compile (e ++ ":first-of-type:last-of-type") = .ok y ∧
        ∀ d, SelectsOnly d (some (compiler.normalName n)) x y :=
  ⟨exists_selectsOnly_child compiler, fun _ _ h hn => exists_selectsOnly_ofType compiler h hn⟩

/-- The only `a` below an element, though an element of another name stands beside it. -/
theorem selects_only_a :
    let d : Document := ⟨[.element "r" [] [.element "a" [] [], .element "b" [] []]]⟩
    tokenize "\\41" = .ok [⟨.ident "A", 0⟩] ∧ isPlainName (Compiler.normalName ⟨true⟩ "A") ∧
      ∃ x y ns ms, Compiler.compile ⟨true⟩ "\\41:only-of-type" = .ok x ∧
        Compiler.compile ⟨true⟩ "\\41:first-of-type:last-of-type" = .ok y ∧
        Selects d x ns ∧ Selects d y ms ∧ .tree [0, 0] ∈ ns ∧ .tree [0, 0] ∈ ms := by
  intro d
  have htokens : tokenize "\\41" = .ok [⟨.ident "A", 0⟩] := by decide +kernel
  have hlower : Compiler.normalName ⟨true⟩ "A" = "a" := by decide +kernel
  have hplain : isPlainName (Compiler.normalName ⟨true⟩ "A") := by
    rw [hlower]
    decide
  obtain ⟨x, y, hx, hy, hselects⟩ := (selects_only ⟨true⟩).2 _ _ htokens hplain
  obtain ⟨ns, ms, hns, hms, hmem', hmem⟩ := hselects d
  rw [hlower] at hmem'
  have helement : OfName d (some "a") [0, 0] := ⟨⟨"a", [], [], rfl⟩, by simp; rfl⟩
  have honly : IsOnly d (some "a") [0, 0] := by
    rintro parent _ ⟨_, hparent⟩ ⟨j, rfl⟩ ⟨⟨_, _, _, hcontent⟩, hname⟩
    cases hparent
    rcases j with _ | _ | j
    · rfl
    · exact absurd (hname "a" rfl) (show "b" ≠ "a" by decide)
    · cases hcontent
  have hin : .tree [0, 0] ∈ ms := (hmem' _).mpr ⟨[0, 0], rfl, helement, honly⟩
  exact ⟨htokens, hplain, x, y, ns, ms, hx, hy, hns, hms, (hmem _).mpr ⟨hin, by simp⟩, hin⟩

/-- The root element is the first child and the last one, and yet it is not the only one. -/
theorem selects_only_root :
    let d : Document := ⟨[.element "a" [] []]⟩
    (∃ x y ns ms, Compiler.compile ⟨true⟩ ":only-child" = .ok x ∧
      Compiler.compile ⟨true⟩ ":first-child:last-child" = .ok y ∧
      Selects d x ns ∧ Selects d y ms ∧ .tree [0] ∉ ns ∧ .tree [0] ∈ ms) ∧
    ∃ x y ns ms, Compiler.compile ⟨true⟩ "a:only-of-type" = .ok x ∧
      Compiler.compile ⟨true⟩ "a:first-of-type:last-of-type" = .ok y ∧
      Selects d x ns ∧ Selects d y ms ∧ .tree [0] ∉ ns ∧ .tree [0] ∈ ms := by
  intro d
  -- The document has no other child.
  have honly : ∀ test, IsOnly d test [0] := by
    rintro test parent _ ⟨_, hparent⟩ ⟨j, rfl⟩ ⟨⟨_, _, _, hcontent⟩, _⟩
    cases hparent
    rcases j with _ | j
    · rfl
    · cases hcontent
  have hroot : ∀ {test x y}, OfName d test [0] → SelectsOnly d test x y →
      ∃ ns ms, Selects d x ns ∧ Selects d y ms ∧ .tree [0] ∉ ns ∧ .tree [0] ∈ ms := by
    rintro test x y hname ⟨ns, ms, hns, hms, hmem', hmem⟩
    refine ⟨ns, ms, hns, hms, fun h => ((hmem _).mp h).2 0 rfl, ?_⟩
    exact (hmem' _).mpr ⟨[0], rfl, hname, honly test⟩
  have helement : d.IsElement [0] := ⟨"a", [], [], rfl⟩
  have htokens : tokenize "a" = .ok [⟨.ident "a", 0⟩] := by decide +kernel
  have hlower : Compiler.normalName ⟨true⟩ "a" = "a" := by decide +kernel
  constructor
  · obtain ⟨x, y, hx, hy, hselects⟩ := exists_selectsOnly_child ⟨true⟩
    obtain ⟨ns, ms, h⟩ := hroot ⟨helement, by simp⟩ (hselects d)
    exact ⟨x, y, ns, ms, hx, hy, h⟩
  · obtain ⟨x, y, hx, hy, hselects⟩ :=
      exists_selectsOnly_ofType ⟨true⟩ htokens (by rw [hlower]; decide)
    rw [hlower] at hselects
    obtain ⟨ns, ms, h⟩ := hroot ⟨helement, fun n hn => Option.some.inj hn ▸ rfl⟩ (hselects d)
    exact ⟨x, y, ns, ms, hx, hy, h⟩

end XPathLocator.Css
