import Mathlib.Data.List.Infix

/-!
# `XPathLocator.Proofs.XPath.Document`: the documents that an XPath is evaluated on

A document is a tree of elements, texts, comments and processing instructions. Its
elements and attributes have names without namespaces, so a name is a string. No
more is asked of a document: the theorems hold for any tree, also for one that has
no root element or several of them.

A node is known by its place. `Path` holds the numbers of a node among the children
of its parent, of its parent among those of the next one, and so on up to the
document node, whose path is empty. So the parent of a node is the tail of its
path, and its descendants are the paths that end in its own.

`Document.nodes` lists the nodes in document order. `isInfix_nodes` finds the nodes
of each subtree in one piece there, and `nodes_pairwise` says that siblings come in
the order of their numbers.
-/

set_option autoImplicit false

namespace XPathLocator.XPath

/-- A node of a document with all that stands below it. -/
inductive Content
  | element (name : String) (attributes : List (String × String)) (children : List Content)
  | text (value : String)
  | comment (value : String)
  | instruction (target : String) (value : String)
deriving Repr

/-- A document: the children of its document node. -/
structure Document where
  content : List Content
deriving Repr

/-- The place of a node: its number among its siblings, and the place of its parent. -/
abbrev Path := List Nat

/-- A node of a document. -/
inductive Node
  /-- The document node, or what stands at some place below it. -/
  | tree (path : Path)
  /-- An attribute of the element at some place, by its number. -/
  | attr (owner : Path) (number : Nat)
deriving DecidableEq, Repr

/-- The place of a node, which for an attribute is that of its element. -/
def Node.path : Node → Path
  | .tree path => path
  | .attr owner _ => owner

namespace Content

/-- The children of an element. -/
def children : Content → List Content
  | .element _ _ children => children
  | _ => []

/-- The attributes of an element. -/
def attributes : Content → List (String × String)
  | .element _ attributes _ => attributes
  | _ => []

/-- The name of an element, or the target of a processing instruction. -/
def name : Content → String
  | .element name _ _ => name
  | .instruction target _ => target
  | _ => ""

mutual

/-- The text that a node adds to the string value of an element around it. -/
def innerText : Content → String
  | .element _ _ children => allText children
  | .text value => value
  | _ => ""

/-- The texts of nodes, one after the other. -/
def allText : List Content → String
  | [] => ""
  | c :: cs => c.innerText ++ allText cs

end

mutual

/-- The nodes of a subtree in document order: an element, its attributes, and the
nodes below it. -/
def nodes (path : Path) : Content → List Node
  | .element _ attributes children =>
    .tree path :: ((List.range attributes.length).map (.attr path)
      ++ allNodes path 0 children)
  | _ => [.tree path]

/-- The nodes of the children of `parent` from the child `number` on. -/
def allNodes (parent : Path) (number : Nat) : List Content → List Node
  | [] => []
  | c :: cs => c.nodes (number :: parent) ++ allNodes parent (number + 1) cs

end

end Content

namespace Document

/-- The children of the node at a place. -/
def childrenAt (d : Document) : Path → List Content
  | [] => d.content
  | number :: parent => ((d.childrenAt parent)[number]?.map Content.children).getD []

/-- What stands at a place. At the place of the document node stands nothing but
the document. -/
def content? (d : Document) : Path → Option Content
  | [] => none
  | number :: parent => (d.childrenAt parent)[number]?

/-- All nodes in document order. -/
def nodes (d : Document) : List Node :=
  .tree [] :: Content.allNodes [] 0 d.content

/-- An attribute with its name and value. -/
def attribute? (d : Document) (owner : Path) (number : Nat) : Option (String × String) :=
  (d.content? owner).bind (·.attributes[number]?)

/-- The name of a node; the empty string for one that has none. -/
def nameOf (d : Document) : Node → String
  | .tree path => ((d.content? path).map Content.name).getD ""
  | .attr owner number => ((d.attribute? owner number).map Prod.fst).getD ""

/-- The string value of a node: its own text, or for an element or the document the
texts below it. -/
def stringOf (d : Document) : Node → String
  | .tree path =>
    match d.content? path with
    | some (.comment value) | some (.instruction _ value) => value
    | some content => content.innerText
    | none => Content.allText (d.childrenAt path)
  | .attr owner number => ((d.attribute? owner number).map Prod.snd).getD ""

/-- The given nodes of the document, each once and in document order. -/
def inOrder (d : Document) (ns : List Node) : List Node :=
  d.nodes.filter (· ∈ ns)

/-- Whether an element stands at a place. -/
def IsElement (d : Document) (path : Path) : Prop :=
  ∃ name attributes children, d.content? path = some (.element name attributes children)

end Document

/-! ### Places and the document order -/

namespace Content

mutual

/-- The nodes of a subtree have its place at the end of their own. -/
theorem suffix_of_mem_nodes {path : Path} :
    (c : Content) → {n : Node} → n ∈ c.nodes path → path <:+ n.path
  | .element _ attributes children, n, h => by
      rcases List.mem_cons.mp h with rfl | h
      · exact List.suffix_refl path
      · rcases List.mem_append.mp h with h | h
        · obtain ⟨number, _, rfl⟩ := List.mem_map.mp h
          exact List.suffix_refl path
        · obtain ⟨number, _, h⟩ := suffix_of_mem_allNodes children h
          exact (List.suffix_cons number path).trans h
  | .text _, _, h | .comment _, _, h | .instruction _ _, _, h => by
      rw [List.mem_singleton.mp h]
      exact List.suffix_refl path

/-- The nodes below a parent belong to a child each. -/
theorem suffix_of_mem_allNodes {parent : Path} {number : Nat} :
    (cs : List Content) → {n : Node} → n ∈ allNodes parent number cs →
      ∃ k, number ≤ k ∧ (k :: parent) <:+ n.path
  | c :: cs, n, h => by
      rcases List.mem_append.mp h with h | h
      · exact ⟨number, Nat.le_refl _, suffix_of_mem_nodes c h⟩
      · obtain ⟨k, hk, h⟩ := suffix_of_mem_allNodes cs h
        exact ⟨k, Nat.le_of_succ_le hk, h⟩

end

/-- The nodes of a child stand in one piece among the nodes below its parent. -/
theorem isInfix_allNodes {parent : Path} {cs : List Content} {c : Content} (number : Nat)
    {k : Nat} (h : cs[k]? = some c) :
    c.nodes ((number + k) :: parent) <:+: allNodes parent number cs := by
  induction cs generalizing number k with
  | nil => cases h
  | cons c' cs ih =>
      cases k with
      | zero =>
          cases h
          exact (List.prefix_append _ _).isInfix
      | succ k =>
          have hlater := ih (number + 1) h
          rw [Nat.add_assoc, Nat.add_comm 1 k] at hlater
          exact hlater.trans (List.suffix_append _ _).isInfix

end Content

namespace Document

variable {d : Document}

/-- What has children below the document node is an element. -/
theorem exists_element_of_child {number k : Nat} {parent : Path} {c : Content}
    (h : (d.childrenAt (number :: parent))[k]? = some c) :
    ∃ name attributes, d.content? (number :: parent)
      = some (.element name attributes (d.childrenAt (number :: parent))) := by
  have hchildren : d.childrenAt (number :: parent)
      = ((d.content? (number :: parent)).map Content.children).getD [] := rfl
  rw [hchildren] at h ⊢
  cases hparent : d.content? (number :: parent) with
  | none => rw [hparent] at h; cases h
  | some c' =>
      rw [hparent] at h
      cases c' with
      | element name attributes children => exact ⟨name, attributes, rfl⟩
      | text | comment | instruction => cases h

/-- The nodes of a subtree stand in one piece in document order. -/
theorem isInfix_nodes {path : Path} {c : Content} (h : d.content? path = some c) :
    c.nodes path <:+: d.nodes := by
  induction path generalizing c with
  | nil => cases h
  | cons number parent ih =>
      have hchild : c.nodes (number :: parent)
          <:+: Content.allNodes parent 0 (d.childrenAt parent) := by
        have hinfix : c.nodes ((0 + number) :: parent)
            <:+: Content.allNodes parent 0 (d.childrenAt parent) :=
          Content.isInfix_allNodes 0 h
        rwa [Nat.zero_add] at hinfix
      refine hchild.trans ?_
      -- The parent is the document node, or an element whose nodes are in one piece too.
      cases parent with
      | nil => exact (List.suffix_cons _ _).isInfix
      | cons number' parent' =>
          obtain ⟨name, attributes, helement⟩ := exists_element_of_child h
          refine List.IsInfix.trans ?_ (ih helement)
          exact ((List.suffix_append _ _).trans (List.suffix_cons _ _)).isInfix

/-- Whatever stands somewhere is a node. -/
theorem mem_nodes_of_content? {path : Path} {c : Content} (h : d.content? path = some c) :
    .tree path ∈ d.nodes := by
  refine (isInfix_nodes h).subset ?_
  cases c <;> exact List.mem_cons_self

end Document

/-! ### The order of siblings -/

/-- Two nodes in document order: if they are siblings, their numbers ascend. -/
def Ascending (n m : Node) : Prop :=
  ∀ parent i j, n = .tree (i :: parent) → m = .tree (j :: parent) → i < j

namespace Content

/-- A node is no sibling of another one that stands below a sibling of it, and
nodes below two siblings ascend as these do. -/
theorem ascending_of_suffix {parent : Path} {n m : Node} {i j : Nat} (hij : i < j)
    (hn : (i :: parent) <:+ n.path) (hm : (j :: parent) <:+ m.path) : Ascending n m := by
  rintro parent' k l rfl rfl
  -- Each node is a sibling itself or lies deeper, and siblings are equally deep.
  rcases List.suffix_cons_iff.mp hn with hn | hn
  · cases hn
    rcases List.suffix_cons_iff.mp hm with hm | hm
    · cases hm
      exact hij
    · exact absurd hm.length_le (Nat.not_succ_le_self _)
  · rcases List.suffix_cons_iff.mp hm with hm | hm
    · cases hm
      exact absurd hn.length_le (Nat.not_succ_le_self _)
    · have heq : i :: parent = j :: parent :=
        List.IsSuffix.eq_of_length (List.suffix_of_suffix_length_le hn hm (by simp)) (by simp)
      cases heq
      exact absurd hij (Nat.lt_irrefl _)

mutual

/-- The nodes of a content are listed in the order of the document. -/
theorem nodes_pairwise {path : Path} : (c : Content) → (c.nodes path).Pairwise Ascending
  | .element _ attributes children => by
      -- An attribute is no sibling of anything, and an element is none of what is below it.
      have hattributes : ∀ n ∈ (List.range attributes.length).map (.attr path), ∀ m,
          Ascending n m := by
        intro n hn m parent i j h
        obtain ⟨_, _, rfl⟩ := List.mem_map.mp hn
        cases h
      refine List.pairwise_cons.mpr ⟨fun m hm => ?_, List.pairwise_append.mpr
        ⟨List.pairwise_of_forall_mem_list fun n hn m _ => hattributes n hn m,
          allNodes_pairwise children, fun n hn m _ => hattributes n hn m⟩⟩
      rcases List.mem_append.mp hm with hm | hm
      · rintro parent i j _ rfl
        obtain ⟨_, _, h⟩ := List.mem_map.mp hm
        cases h
      · obtain ⟨k, _, hm⟩ := suffix_of_mem_allNodes children hm
        rintro parent i j h rfl
        cases h
        exact absurd hm.length_le (Nat.not_succ_le_self _)
  | .text _ | .comment _ | .instruction _ _ => List.pairwise_singleton _ _

/-- The nodes of a list of contents are listed in the order of the document, since all places below
one content come before those below a later one. -/
theorem allNodes_pairwise {parent : Path} {number : Nat} :
    (cs : List Content) → (allNodes parent number cs).Pairwise Ascending
  | [] => .nil
  | c :: cs => by
      refine List.pairwise_append.mpr ⟨nodes_pairwise c, allNodes_pairwise cs, ?_⟩
      intro n hn m hm
      obtain ⟨k, hk, hm⟩ := suffix_of_mem_allNodes cs hm
      exact ascending_of_suffix hk (suffix_of_mem_nodes c hn) hm

end

end Content

/-- Siblings come in document order as their numbers ascend. -/
theorem Document.nodes_pairwise (d : Document) : d.nodes.Pairwise Ascending := by
  refine List.pairwise_cons.mpr ⟨fun n _ parent i j h _ => ?_, Content.allNodes_pairwise _⟩
  cases h

end XPathLocator.XPath
