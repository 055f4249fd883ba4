import XPathLocator.Proofs.XPath.Meaning

/-!
# `XPathLocator.Proofs.XPath.Attribute`: the attributes of an element

An attribute is a node of its own, with a name and a string value. In a document no element
has two attributes of one name (`Document.DistinctAttributes`), so an element has at most one
value under a name (`Document.attributeValue?`). A path to the attributes of one name selects
nodes that have this value (`Stands`), and none if there is none, which is all that XPath
can tell of them: whether there are any, what they equal, and what their string is.
-/

set_option autoImplicit false

namespace XPathLocator.XPath

variable {d : Document}

namespace Document

/-- No element has two attributes of one name. This holds in every well-formed document. -/
def DistinctAttributes (d : Document) : Prop :=
  ∀ p c, d.content? p = some c → (c.attributes.map Prod.fst).Nodup

/-- The element at a place has an attribute of this name with this value. -/
def HasValue (d : Document) (name value : String) (p : Path) : Prop :=
  ∃ i, d.attribute? p i = some (name, value)

/-- The value of an attribute of the element at a place; nothing if it has none of this name. -/
def attributeValue? (d : Document) (p : Path) (name : String) : Option String :=
  (d.content? p).bind (·.attributes.lookup name)

end Document

/-! ### Distinct attributes -/

namespace Content

mutual

/-- No element of a subtree has two attributes of one name. -/
def distinct : Content → Bool
  | .element _ attributes children =>
    decide (attributes.map Prod.fst).Nodup && allDistinct children
  | _ => true

/-- No element at or below some nodes has two attributes of one name. -/
def allDistinct : List Content → Bool
  | [] => true
  | c :: cs => c.distinct && allDistinct cs

end

/-- In a list of contents with distinct attributes, each of them has distinct attributes. -/
theorem distinct_of_mem {cs : List Content} (h : allDistinct cs) {c : Content} (hc : c ∈ cs) :
    c.distinct := by
  induction cs with
  | nil => cases hc
  | cons c' cs ih =>
      obtain ⟨hfirst, hmore⟩ := Bool.and_eq_true_iff.mp h
      rcases List.mem_cons.mp hc with rfl | hc
      · exact hfirst
      · exact ih hmore hc

/-- The children of an element with distinct attributes have distinct attributes. -/
theorem allDistinct_children {c : Content} (h : c.distinct) : allDistinct c.children := by
  cases c with
  | element name attributes children => exact (Bool.and_eq_true_iff.mp h).2
  | text | comment | instruction => rfl

/-- The names of the attributes of one element are distinct. -/
theorem nodup_attributes {c : Content} (h : c.distinct) : (c.attributes.map Prod.fst).Nodup := by
  cases c with
  | element name attributes children => exact of_decide_eq_true (Bool.and_eq_true_iff.mp h).1
  | text | comment | instruction => exact .nil

end Content

/-- It is enough to look at each element of the tree once. -/
theorem Document.distinctAttributes_of_allDistinct (h : Content.allDistinct d.content) :
    d.DistinctAttributes := by
  have hchildren : ∀ p, Content.allDistinct (d.childrenAt p) := by
    intro p
    induction p with
    | nil => exact h
    | cons number parent ih =>
        show Content.allDistinct (((d.childrenAt parent)[number]?.map Content.children).getD [])
        cases hc : (d.childrenAt parent)[number]? with
        | none => rfl
        | some c =>
            exact Content.allDistinct_children
              (Content.distinct_of_mem ih (List.mem_of_getElem? hc))
  intro p c hc
  cases p with
  | nil => cases hc
  | cons number parent =>
      exact Content.nodup_attributes
        (Content.distinct_of_mem (hchildren parent) (List.mem_of_getElem? hc))

/-! ### Attributes as nodes -/

mutual

/-- The attribute nodes of a subtree are attributes of its elements. -/
theorem isSome_of_mem_nodes {path q : Path} {i : Nat} : (c : Content) →
    d.content? path = some c → .attr q i ∈ c.nodes path → (d.attribute? q i).isSome
  | .element name attributes children, hc, h => by
      rcases List.mem_append.mp ((List.mem_cons.mp h).resolve_left nofun) with h | h
      · obtain ⟨j, hj, heq⟩ := List.mem_map.mp h
        cases heq
        rw [Document.attribute?, hc]
        simpa [Content.attributes] using hj
      · refine isSome_of_mem_allNodes children (fun k c hk => ?_) h
        -- Only the place of an element has a content, so it is not that of the document node.
        cases path with
        | nil => cases hc
        | cons number parent =>
            have hchildren : d.childrenAt (number :: parent) = children := by
              show ((d.content? (number :: parent)).map Content.children).getD [] = _
              rw [hc]
              rfl
            rw [Nat.zero_add, Document.content?, hchildren, hk]
  | .text _, _, h | .comment _, _, h | .instruction _ _, _, h => by
      cases List.mem_singleton.mp h

/-- The attribute nodes in a list of contents are attributes of their elements. Induction on the
list, together with that on one content. -/
theorem isSome_of_mem_allNodes {parent q : Path} {number i : Nat} : (cs : List Content) →
    (∀ k c, cs[k]? = some c → d.content? ((number + k) :: parent) = some c) →
      .attr q i ∈ Content.allNodes parent number cs → (d.attribute? q i).isSome
  | c :: cs, hcs, h => by
      rcases List.mem_append.mp h with h | h
      · exact isSome_of_mem_nodes c (hcs 0 c rfl) h
      · refine isSome_of_mem_allNodes cs (fun k c' hk => ?_) h
        rw [Nat.add_right_comm]
        exact hcs (k + 1) c' hk

end

/-- The attribute nodes of a document are the attributes of its elements. -/
theorem attr_mem_nodes {q : Path} {i : Nat} : .attr q i ∈ d.nodes ↔ (d.attribute? q i).isSome := by
  constructor
  · intro h
    -- The root is no attribute.
    have hbelow := (List.mem_cons.mp h).resolve_left nofun
    refine isSome_of_mem_allNodes d.content (fun k c hk => ?_) hbelow
    rw [Nat.zero_add]
    exact hk
  · intro h
    rw [Document.attribute?] at h
    cases hc : d.content? q with
    | none => rw [hc] at h; cases h
    | some c =>
        rw [hc] at h
        have hi : i < c.attributes.length := by simpa using h
        refine (Document.isInfix_nodes hc).subset ?_
        cases c with
        | element name attributes children =>
            refine List.mem_cons_of_mem _ (List.mem_append_left _ ?_)
            exact List.mem_map.mpr ⟨i, List.mem_range.mpr hi, rfl⟩
        | text | comment | instruction => cases hi

/-- An element has an attribute of a name and a value where this value is the one that it has
under the name. -/
theorem exists_attribute?_iff (hd : d.DistinctAttributes) (p : Path) (name value : String) :
    (∃ i, d.attribute? p i = some (name, value)) ↔ d.attributeValue? p name = some value := by
  rw [Document.attributeValue?]
  cases hc : d.content? p with
  | none => simp [Document.attribute?, hc]
  | some c =>
      have hnodup := hd p c hc
      simp only [Document.attribute?, hc, Option.bind_some]
      rw [← List.mem_iff_getElem?]
      generalize c.attributes = as at hnodup
      constructor
      · intro hmem
        obtain ⟨before, after, rfl⟩ := List.append_of_mem hmem
        refine List.lookup_eq_some_iff.mpr ⟨before, after, rfl, fun a ha => ?_⟩
        -- An earlier attribute of this name would be a second one.
        rw [bne_iff_ne]
        rintro rfl
        rw [List.map_append, List.map_cons] at hnodup
        exact (List.nodup_append.mp hnodup).2.2 _ (List.mem_map_of_mem ha) _ List.mem_cons_self rfl
      · intro hlookup
        obtain ⟨before, after, rfl, _⟩ := List.lookup_eq_some_iff.mp hlookup
        simp

/-- What an attribute is told by its node. -/
theorem attribute?_eq_some_iff {q : Path} {i : Nat} {name value : String} :
    d.attribute? q i = some (name, value) ↔ .attr q i ∈ d.nodes ∧
      d.nameOf (.attr q i) = name ∧ d.stringOf (.attr q i) = value := by
  rw [attr_mem_nodes, Document.nameOf, Document.stringOf]
  cases d.attribute? q i with
  | none => simp
  | some a => simp [Prod.ext_iff]

/-- A step to the attributes of a name leads to the values that are there under this name. -/
theorem exists_means_attributes {base : Tree} {starts : Node → List Node}
    (h : Means d base fun n => .nodes (starts n)) (name : String) :
    ∃ ns : Node → List Node,
      Means d (.step base .attributes (.name (.ofName name)) []) (fun n => .nodes (ns n)) ∧
      ∀ n value, (∃ m ∈ ns n, d.stringOf m = value) ↔
        ∃ p, .tree p ∈ starts n ∧ d.HasValue name value p := by
  obtain ⟨ns, hns, hmem⟩ := h.exists_step .attributes (.name (.ofName name)) (List.forall_mem_nil _)
  refine ⟨ns, hns, fun n value => ?_⟩
  have hpasses : ∀ p i, (NodeTest.name (.ofName name)).passes d .attributes (.attr p i)
      ↔ d.nameOf (.attr p i) = name := fun p i => decide_eq_true_iff
  constructor
  · rintro ⟨m, hm, hvalue⟩
    obtain ⟨hnode, ⟨s, hs, haxis⟩, hname, _⟩ := (hmem n m).mp hm
    match s, m with
    | .tree p, .attr q i =>
      obtain rfl : p = q := of_decide_eq_true haxis
      exact ⟨p, hs, i, attribute?_eq_some_iff.mpr ⟨hnode, (hpasses p i).mp hname, hvalue⟩⟩
    | _, .tree _ | .attr _ _, .attr _ _ => simp [Axis.holds] at haxis
  · rintro ⟨p, hp, i, hi⟩
    obtain ⟨hnode, hname, hvalue⟩ := attribute?_eq_some_iff.mp hi
    exact ⟨_, (hmem n _).mpr ⟨hnode, ⟨_, hp, decide_eq_true rfl⟩, (hpasses p i).mpr hname,
      List.forall_mem_nil _⟩,
      hvalue⟩

/-! ### Nodes of an attribute -/

/-- Nodes stand for an attribute: they all have its value, and there are none only without it. -/
structure Stands (d : Document) (ns : List Node) (value : Option String) : Prop where
  eq_nil_iff : ns = [] ↔ value = none
  eq_some : ∀ n ∈ ns, value = some (d.stringOf n)

namespace Stands

variable {ns : List Node} {value : Option String}

/-- The nodes of an attribute are there exactly if it has a value. -/
theorem truth_eq (h : Stands d ns value) : (Value.nodes ns).truth = value.isSome := by
  cases ns with
  | nil =>
      rw [h.eq_nil_iff.mp rfl]
      rfl
  | cons n ns =>
      rw [h.eq_some n List.mem_cons_self]
      rfl

/-- One of the nodes has a text exactly if that is the value. -/
theorem any_iff (h : Stands d ns value) (s : String) :
    ns.any (fun n => d.stringOf n = s) ↔ value = some s := by
  simp only [List.any_eq_true, decide_eq_true_iff]
  constructor
  · rintro ⟨n, hn, rfl⟩
    exact h.eq_some n hn
  · rintro rfl
    cases ns with
    | nil => cases h.eq_nil_iff.mp rfl
    | cons n ns =>
        exact ⟨n, List.mem_cons_self, (Option.some.inj (h.eq_some n List.mem_cons_self)).symm⟩

/-- The text of the nodes is the value. -/
theorem toText_eq {s : String} (h : Stands d ns (some s)) : (Value.nodes ns).toText d = s := by
  cases ns with
  | nil => cases h.eq_nil_iff.mp rfl
  | cons n ns => exact (Option.some.inj (h.eq_some n List.mem_cons_self)).symm

end Stands

/-- The attributes of one name stand for the attribute of this name. -/
theorem stands_of_mem (hd : d.DistinctAttributes) {p : Path} {name : String} {ns : List Node}
    (h : ∀ m, m ∈ ns ↔ m ∈ d.nodes ∧ ∃ i, m = .attr p i ∧ d.nameOf m = name) :
    Stands d ns (d.attributeValue? p name) := by
  have hvalue : ∀ n ∈ ns, d.attributeValue? p name = some (d.stringOf n) := by
    intro n hn
    obtain ⟨hnode, i, rfl, hname⟩ := (h n).mp hn
    rw [← exists_attribute?_iff hd]
    exact ⟨i, attribute?_eq_some_iff.mpr ⟨hnode, hname, rfl⟩⟩
  refine ⟨⟨fun hnil => ?_, fun hnone => ?_⟩, hvalue⟩
  · cases hsome : d.attributeValue? p name with
    | none => rfl
    | some s =>
        -- An attribute of the name would be one of the nodes.
        obtain ⟨i, hi⟩ := (exists_attribute?_iff hd p name s).mpr hsome
        obtain ⟨hnode, hname, _⟩ := attribute?_eq_some_iff.mp hi
        have hmem : .attr p i ∈ ns := (h _).mpr ⟨hnode, i, rfl, hname⟩
        rw [hnil] at hmem
        cases hmem
  · cases ns with
    | nil => rfl
    | cons n ns =>
        have hsome := hvalue n List.mem_cons_self
        rw [hnone] at hsome
        cases hsome

end XPathLocator.XPath
