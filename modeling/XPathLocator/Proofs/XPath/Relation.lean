import XPathLocator.Proofs.XPath.Meaning

/-!
# `XPathLocator.Proofs.XPath.Relation`: axes as relations of places

Where a place stands to another one can be said of the paths alone, since the path
of a node ends in the paths of its ancestors. This module says so for the axes that
lead from an element to other elements. The next sibling is no axis. It is what
comes first on the axis of the later ones (`head_laterSiblings`), because siblings
come in document order as their numbers ascend.
-/

set_option autoImplicit false

namespace XPathLocator.XPath

/-- Strictly below a place. -/
def IsDescendant (p q : Path) : Prop :=
  p <:+ q ∧ p ≠ q

/-- Directly below a place. -/
def IsChild (p q : Path) : Prop :=
  ∃ number, q = number :: p

/-- Behind a place, below the same parent. -/
def IsLaterSibling (p q : Path) : Prop :=
  ∃ parent i j, p = i :: parent ∧ q = j :: parent ∧ i < j

/-- Behind a place, below the same parent, and no element stands between. -/
def IsNextSibling (d : Document) (p q : Path) : Prop :=
  IsLaterSibling p q ∧ ∀ r, d.IsElement r → IsLaterSibling p r → ¬ IsLaterSibling r q

variable {d : Document}

/-! ### Elements -/

/-- The axes that have names for elements. -/
def Axis.ofElements : Axis → Bool
  | .attributes | .namespaces => false
  | _ => true

/-- An element is a node of its document. -/
theorem Document.IsElement.mem_nodes {p : Path} (h : d.IsElement p) : .tree p ∈ d.nodes := by
  obtain ⟨_, _, _, h⟩ := h
  exact mem_nodes_of_content? h

/-- The document node is no element. -/
theorem Document.IsElement.ne_nil {p : Path} (h : d.IsElement p) : p ≠ [] := by
  obtain ⟨_, _, _, h⟩ := h
  rintro rfl
  cases h

/-- An element stands below another one, unless the document node is its parent. -/
theorem exists_parent_iff {p : Path} (h : d.IsElement p) :
    (∃ parent, d.IsElement parent ∧ IsChild parent p) ↔ ¬ IsChild [] p := by
  obtain ⟨_, _, _, hp⟩ := h
  constructor
  · rintro ⟨parent, ⟨_, _, _, hparent⟩, _, rfl⟩ ⟨_, hroot⟩
    cases hroot
    cases hparent
  · intro hroot
    match p, hp with
    | [number], _ => exact absurd ⟨number, rfl⟩ hroot
    | number :: number' :: parent, hp =>
        obtain ⟨name, attributes, hparent⟩ := Document.exists_element_of_child hp
        exact ⟨number' :: parent, ⟨name, attributes, _, hparent⟩, number, rfl⟩

/-- On these axes the principal nodes are the elements. -/
theorem isPrincipal_iff {axis : Axis} (haxis : axis.ofElements) {n : Node} :
    NodeTest.isPrincipal d axis n ↔ ∃ p, n = .tree p ∧ d.IsElement p := by
  cases n with
  | attr owner number =>
      have hnot : NodeTest.isPrincipal d axis (.attr owner number) = false := by
        cases axis <;> first | rfl | cases haxis
      simp [hnot]
  | tree p =>
      -- All axes but the one of attributes lead to the same kinds of nodes.
      have heq : NodeTest.isPrincipal d axis (.tree p)
          = NodeTest.isPrincipal d .child (.tree p) := by
        cases axis <;> first | rfl | cases haxis
      rw [heq, NodeTest.isPrincipal.eq_def]
      simp only
      constructor
      · intro h
        split at h
        · next name attributes children hp => exact ⟨p, rfl, name, attributes, children, hp⟩
        · cases h
      · rintro ⟨_, hp, name, attributes, children, h⟩
        cases hp
        rw [h]

/-- Elements pass the test for a name by their names. -/
theorem passes_name {axis : Axis} (haxis : axis.ofElements) {name : String} {n : Node} :
    (NodeTest.name (.ofName name)).passes d axis n ↔
      ∃ p, n = .tree p ∧ d.IsElement p ∧ d.nameOf (.tree p) = name := by
  have hsplit : (NodeTest.name (.ofName name)).passes d axis n
      ↔ NodeTest.isPrincipal d axis n ∧ d.nameOf n = name := by
    show (NodeTest.isPrincipal d axis n && true && decide (d.nameOf n = name)) = true ↔ _
    rw [Bool.and_true, Bool.and_eq_true, decide_eq_true_iff]
  rw [hsplit, isPrincipal_iff haxis]
  constructor
  · rintro ⟨⟨p, rfl, hp⟩, hname⟩
    exact ⟨p, rfl, hp, hname⟩
  · rintro ⟨p, rfl, hp, hname⟩
    exact ⟨⟨p, rfl, hp⟩, hname⟩

/-- A text is an XPath that selects the elements with a property from the document node, and
nothing else. -/
def SelectsElements (d : Document) (text : String) (P : Path → Prop) : Prop :=
  ∃ ns, Selects d text ns ∧ ∀ n, n ∈ ns ↔ ∃ p, n = .tree p ∧ d.IsElement p ∧ P p

/-- Only what the property says of elements counts. -/
theorem SelectsElements.congr {text : String} {P Q : Path → Prop} (h : SelectsElements d text P)
    (hPQ : ∀ p, d.IsElement p → (P p ↔ Q p)) : SelectsElements d text Q := by
  obtain ⟨ns, hns, hmem⟩ := h
  refine ⟨ns, hns, fun n => (hmem n).trans ?_⟩
  exact exists_congr fun p => and_congr_right fun _ => and_congr_right (hPQ p)

/-! ### Axes -/

/-- The axis `child` leads to the elements right below. -/
theorem holds_child {p q : Path} : Axis.child.holds d (.tree p) (.tree q) ↔ IsChild p q := by
  show (decide (q.tail = p) && decide (q ≠ [])) = true ↔ _
  cases q with
  | nil => simp [IsChild]
  | cons number parent => simp [IsChild, eq_comm]

/-- The axis `parent` leads to the element right above. -/
theorem holds_parent {p q : Path} : Axis.parent.holds d (.tree p) (.tree q) ↔ IsChild q p := by
  show (decide (p.tail = q) && decide (p ≠ [])) = true ↔ _
  cases p with
  | nil => simp [IsChild]
  | cons number parent => simp [IsChild, eq_comm]

/-- The axis `following-sibling` leads to the later siblings. -/
theorem holds_laterSibling {p q : Path} :
    Axis.followingSibling.holds d (.tree p) (.tree q) ↔ IsLaterSibling p q := by
  constructor
  · intro h
    match p, q, h with
    | i :: p, j :: q, h =>
        obtain ⟨hparent, hij⟩ : decide (p = q) = true ∧ decide (i < j) = true :=
          Bool.and_eq_true_iff.mp h
        obtain rfl := of_decide_eq_true hparent
        exact ⟨p, i, j, rfl, rfl, of_decide_eq_true hij⟩
  · rintro ⟨parent, i, j, rfl, rfl, hij⟩
    show (decide (parent = parent) && decide (i < j)) = true
    simp [hij]

/-- The axis `preceding-sibling` leads to the siblings that this one comes after. -/
theorem holds_earlierSibling {p q : Path} :
    Axis.precedingSibling.holds d (.tree p) (.tree q) ↔ IsLaterSibling q p := by
  rw [← holds_laterSibling (d := d)]
  match p, q with
  | [], [] | [], _ :: _ | _ :: _, [] => rfl
  | i :: p, j :: q =>
      show (decide (p = q) && decide (j < i)) = true ↔ (decide (q = p) && decide (j < i)) = true
      rw [decide_eq_decide.mpr eq_comm]

/-- The axis `descendant-or-self` leads to the elements whose path ends as that of the node. -/
theorem holds_descendantOrSelf {p q : Path} :
    Axis.descendantOrSelf.holds d (.tree p) (.tree q) ↔ p <:+ q := by
  show (decide (Node.tree p = Node.tree q) || p.isSuffixOf q) = true ↔ _
  rw [Bool.or_eq_true, decide_eq_true_iff, List.isSuffixOf_iff_suffix]
  constructor
  · rintro (h | h)
    · cases h
      exact List.suffix_refl _
    · exact h
  · exact .inr

/-- What is strictly below a place is directly below it, or directly below what is. -/
theorem isDescendant_iff_exists_child {p q : Path} :
    IsDescendant p q ↔ ∃ r, p <:+ r ∧ IsChild r q := by
  constructor
  · rintro ⟨hsuffix, hne⟩
    rcases q with _ | ⟨number, r⟩
    · exact absurd (List.suffix_nil.mp hsuffix) hne
    · exact ⟨r, (List.suffix_cons_iff.mp hsuffix).resolve_left hne, number, rfl⟩
  · rintro ⟨r, hr, number, rfl⟩
    refine ⟨hr.trans (List.suffix_cons number r), ?_⟩
    rintro rfl
    exact absurd hr.length_le (Nat.not_succ_le_self _)

/-- An element stands below the document node or below another element. -/
theorem parent_mem_nodes {number : Nat} {parent : Path} (h : d.IsElement (number :: parent)) :
    .tree parent ∈ d.nodes := by
  obtain ⟨_, _, _, hchild⟩ := h
  match parent with
  | [] => exact List.mem_cons_self
  | number' :: parent' =>
      obtain ⟨_, _, hparent⟩ := Document.exists_element_of_child hchild
      exact Document.mem_nodes_of_content? hparent

/-- The steps that `//` stands for lead to the elements strictly below. -/
theorem exists_means_below {base : Tree} {starts : Node → List Node}
    (h : Means d base fun n => .nodes (starts n)) (name : String) {predicates : List Tree}
    (hpredicates : ∀ p ∈ predicates, Steady d p) :
    ∃ ns : Node → List Node,
      Means d (.step (.anyBelow base) .child (.name (.ofName name)) predicates)
        (fun n => .nodes (ns n)) ∧
      ∀ n m, m ∈ ns n ↔ ∃ q, m = .tree q ∧ d.IsElement q ∧ d.nameOf (.tree q) = name ∧
        (∀ c ∈ predicates, holdsAt d c (.tree q)) ∧ ∃ p, .tree p ∈ starts n ∧ IsDescendant p q := by
  obtain ⟨mids, hmids, hmid⟩ := h.exists_step .descendantOrSelf (.type .node) (List.forall_mem_nil _)
  obtain ⟨ns, hns, hmem⟩ := hmids.exists_step .child (.name (.ofName name)) hpredicates
  refine ⟨ns, hns, fun n m => ?_⟩
  rw [hmem, passes_name rfl]
  constructor
  · rintro ⟨_, ⟨r, hr, hchild⟩, ⟨q, rfl, hq, hname⟩, hconditions⟩
    obtain ⟨_, ⟨s, hs, hbelow⟩, _⟩ := (hmid n r).mp hr
    refine ⟨q, rfl, hq, hname, hconditions, ?_⟩
    -- An attribute has no children, and nothing but itself at it or below it.
    match s, r with
    | .tree p, .tree r =>
      exact ⟨p, hs, isDescendant_iff_exists_child.mpr
        ⟨r, holds_descendantOrSelf.mp hbelow, holds_child.mp hchild⟩⟩
    | .attr _ _, .tree _ => simp [Axis.holds] at hbelow
    | _, .attr _ _ => simp [Axis.holds] at hchild
  · rintro ⟨q, rfl, hq, hname, hconditions, p, hp, hbelow⟩
    obtain ⟨r, hsuffix, number, rfl⟩ := isDescendant_iff_exists_child.mp hbelow
    have hr : .tree r ∈ mids n := (hmid n _).mpr
      ⟨parent_mem_nodes hq, ⟨_, hp, holds_descendantOrSelf.mpr hsuffix⟩, rfl, List.forall_mem_nil _⟩
    exact ⟨hq.mem_nodes, ⟨_, hr, holds_child.mpr ⟨number, rfl⟩⟩, ⟨_, rfl, hq, hname⟩, hconditions⟩

/-- The elements behind a place, in document order. -/
def laterSiblings (d : Document) (p : Path) : List Node :=
  (Axis.followingSibling.nodes d (.tree p)).filter (NodeTest.any.passes d .followingSibling)

/-- The later siblings of an element are elements. -/
theorem mem_laterSiblings {p : Path} {n : Node} :
    n ∈ laterSiblings d p ↔ ∃ q, n = .tree q ∧ d.IsElement q ∧ IsLaterSibling p q := by
  rw [laterSiblings, List.mem_filter, mem_axis_nodes, NodeTest.passes, isPrincipal_iff rfl]
  constructor
  · rintro ⟨⟨_, haxis⟩, q, rfl, helement⟩
    exact ⟨q, rfl, helement, holds_laterSibling.mp haxis⟩
  · rintro ⟨q, rfl, helement, hlater⟩
    exact ⟨⟨helement.mem_nodes, holds_laterSibling.mpr hlater⟩, q, rfl, helement⟩

/-- The later siblings stand in the order of the document. -/
theorem laterSiblings_pairwise (d : Document) (p : Path) :
    (laterSiblings d p).Pairwise Ascending := by
  have haxis : (Axis.followingSibling.nodes d (.tree p)).Sublist d.nodes := List.filter_sublist
  exact d.nodes_pairwise.sublist (List.filter_sublist.trans haxis)

/-- The first of the later siblings is the next one. -/
theorem head_laterSiblings {p : Path} {n : Node} :
    (laterSiblings d p).head? = some n ↔
      ∃ q, n = .tree q ∧ d.IsElement q ∧ IsNextSibling d p q := by
  have hpairwise := laterSiblings_pairwise d p
  constructor
  · intro h
    obtain ⟨q, rfl, helement, hlater⟩ := mem_laterSiblings.mp (List.mem_of_head? h)
    refine ⟨q, rfl, helement, hlater, ?_⟩
    -- An element between would come before `q` in document order.
    rintro r hr hpr ⟨parent, i, j, rfl, rfl, hij⟩
    have hmem : .tree (i :: parent) ∈ laterSiblings d p := mem_laterSiblings.mpr ⟨_, rfl, hr, hpr⟩
    match hl : laterSiblings d p, h with
    | x :: rest, h =>
        cases h
        rw [hl] at hmem hpairwise
        rcases List.mem_cons.mp hmem with heq | hmem
        · cases heq
          exact absurd hij (Nat.lt_irrefl _)
        · have := (List.pairwise_cons.mp hpairwise).1 _ hmem parent j i rfl rfl
          omega
  · rintro ⟨q, rfl, helement, hlater, hbetween⟩
    have hmem : .tree q ∈ laterSiblings d p := mem_laterSiblings.mpr ⟨q, rfl, helement, hlater⟩
    match hl : laterSiblings d p with
    | [] => rw [hl] at hmem; cases hmem
    | x :: rest =>
        have hx : x ∈ laterSiblings d p := hl ▸ List.mem_cons_self
        obtain ⟨r, rfl, hr, hpr⟩ := mem_laterSiblings.mp hx
        rw [hl] at hmem hpairwise
        rcases List.mem_cons.mp hmem with heq | hrest
        · rw [heq]
          rfl
        · -- Otherwise the first one would be an element between.
          refine absurd ?_ (hbetween r hr hpr)
          obtain ⟨parent, k, i, rfl, rfl, _⟩ := hpr
          obtain ⟨_, _, j, hp, rfl, _⟩ := hlater
          cases hp
          exact ⟨parent, i, j, rfl, rfl,
            (List.pairwise_cons.mp hpairwise).1 _ hrest parent i j rfl rfl⟩

/-- A predicate that is steady but for asking for the first position keeps at most the
first node. -/
theorem keep_first {predicate : Focus → Option Value} {q : Node → Bool} (size : Nat)
    (h : ∀ focus, ∃ v, predicate focus = some v ∧
      v.accepts focus.position = (q focus.node && focus.position = 1)) (ns : List Node) :
    keep predicate size 1 ns = some (ns.head?.toList.filter q) := by
  -- Behind the first node the predicate keeps nothing.
  have hlater : ∀ (ns : List Node) (position : Nat), 1 < position →
      keep predicate size position ns = some [] := by
    intro ns
    induction ns with
    | nil => exact fun _ _ => rfl
    | cons n ns ih =>
        intro position hposition
        obtain ⟨v, hv, haccepts⟩ := h ⟨n, position, size⟩
        rw [keep, hv, ih _ (Nat.lt_succ_of_lt hposition)]
        have hne : decide (position = 1) = false := decide_eq_false (by omega)
        have haccepts' : v.accepts position = (q n && decide (position = 1)) := haccepts
        show some (if v.accepts position = true then _ else _) = _
        rw [haccepts', hne, Bool.and_false]
        rfl
  cases ns with
  | nil => rfl
  | cons n ns =>
      obtain ⟨v, hv, haccepts⟩ := h ⟨n, 1, size⟩
      have haccepts' : v.accepts 1 = (q n && true) := haccepts
      rw [keep, hv, hlater ns 2 (by omega)]
      show some (if v.accepts 1 = true then _ else _) = _
      rw [haccepts', Bool.and_true, List.head?_cons, Option.toList_some, List.filter_singleton]
      cases q n <;> rfl

end XPathLocator.XPath
