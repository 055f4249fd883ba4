import Mathlib.Data.List.Forall2
import XPathLocator.Proofs.XPath.Eval
import XPathLocator.Proofs.XPath.Literal

/-!
# `XPathLocator.Proofs.XPath.Meaning`: expressions that do not ask for their position

The value of an expression depends on the node in focus and on its position. Where it
does not depend on the position, `Means d e f` says that `e` has the value `f n` at
each node `n`. There is one rule for each way to build such an expression.

A predicate may be a number, and then it asks for a position. `Steady d e` leaves no
room for that: `e` has a value everywhere, and as a predicate it keeps a node exactly
where its value is true, which `holdsAt d e` tells. Steps with steady predicates
select by a filter of the document (`eval_step`). The one other predicate that
selectors need is steady but for `position() = 1`, which makes it keep the first
node at most; `keep_first` is about it.
-/

set_option autoImplicit false

namespace XPathLocator.XPath

variable {d : Document}

/-- An expression has this value at each node, at any position. -/
def Means (d : Document) (e : Tree) (f : Node → Value) : Prop :=
  ∀ focus, eval d e focus = some (f focus.node)

/-- The truth of an expression at a node. -/
def holdsAt (d : Document) (e : Tree) (n : Node) : Bool :=
  ((eval d e ⟨n, 1, 1⟩).map Value.truth).getD false

/-- An expression has a value at each node, and as a predicate it keeps the nodes
where it is true. -/
def Steady (d : Document) (e : Tree) : Prop :=
  ∀ focus, ∃ v, eval d e focus = some v ∧ v.truth = holdsAt d e focus.node ∧
    ∀ position, 0 < position → v.accepts position = holdsAt d e focus.node

/-- A text is an expression that is true at the places with a property, and at no others. It
has a value at every place, whatever the position, and in a predicate it keeps the nodes where
it is true. -/
def Decides (d : Document) (text : String) (P : Path → Prop) : Prop :=
  ∃ e, Parses text e ∧ ∀ p position size, ∃ v, eval d e ⟨.tree p, position, size⟩ = some v ∧
    (v.truth ↔ P p) ∧ (0 < position → v.accepts position = v.truth)

/-- What a text decides may be said in other words. -/
theorem Decides.congr {text : String} {P Q : Path → Prop} (h : Decides d text P)
    (hPQ : ∀ p, P p ↔ Q p) : Decides d text Q := by
  simpa only [Decides, hPQ] using h

/-! ### Conditions -/

/-- A value is no number but zero, so a predicate with it asks for no position. -/
def Value.isCondition : Value → Bool
  | .number n => n = 0
  | _ => true

/-- A value that is no position is accepted by its truth. -/
theorem Value.accepts_eq_truth {v : Value} (h : v.isCondition) {position : Nat}
    (hposition : 0 < position) : v.accepts position = v.truth := by
  cases v with
  | number n =>
      have hn : n = 0 := by simpa [Value.isCondition] using h
      subst hn
      simp only [Value.accepts, Value.truth]
      simp
      omega
  | nodes | boolean | string => rfl

namespace Means

variable {e a b : Tree} {f g h : Node → Value}

/-- Where the value is known, so is whether the expression holds. -/
theorem holdsAt_eq (hf : Means d e f) (n : Node) : holdsAt d e n = (f n).truth := by
  rw [holdsAt, hf]
  rfl

/-- What means a condition is steady. -/
theorem steady_of_isCondition (hf : Means d e f) (hcondition : ∀ n, (f n).isCondition) :
    Steady d e :=
  fun focus => ⟨f focus.node, hf focus, (hf.holdsAt_eq _).symm, fun _ hposition =>
    (Value.accepts_eq_truth (hcondition _) hposition).trans (hf.holdsAt_eq _).symm⟩

/-- An expression with a truth value asks for no position. -/
theorem steady {p : Node → Bool} (hf : Means d e fun n => .boolean (p n)) : Steady d e :=
  hf.steady_of_isCondition fun _ => rfl

/-- A literal means its text everywhere. -/
theorem literal (v : String) : Means d (.literal v) fun _ => .string v :=
  fun _ => rfl

/-- A number means its value everywhere. -/
theorem number {digits : String} {n : Int} (h : digitsValue? digits = some n) :
    Means d (.number digits) fun _ => .number n := by
  intro focus
  rw [eval, h]
  rfl

/-- **Operators.** Two operands mean what the operator makes of their values, if it makes something
of them everywhere. The operators below are cases of this. -/
theorem binary {op : Operator} (ha : Means d a f) (hb : Means d b g)
    (hop : ∀ n, Value.operate? d op (f n) (g n) = some (h n)) : Means d (.binary op a b) h := by
  intro focus
  rw [eval, ha, hb]
  exact hop _

/-- A call of a function, which may look at the node in focus. -/
theorem apply {name : String} {es : List Tree} {fs : List (Node → Value)}
    (hes : List.Forall₂ (Means d) es fs)
    (hcall : ∀ focus, call? d focus name (fs.map (· focus.node)) = some (h focus.node)) :
    Means d (.apply name es) h := by
  intro focus
  have hall : evalAll d es focus = some (fs.map (· focus.node)) := by
    clear hcall
    induction hes with
    | nil => rfl
    | cons he _ ih =>
        rw [evalAll, he, ih]
        rfl
  rw [Tree.apply, eval, hall]
  exact hcall focus

/-- A written text means itself. -/
theorem text (v : String) : Means d (Literal.tree v) fun _ => .string v := by
  rw [Literal.tree]
  split
  · next hv =>
    have hall : List.Forall₂ (Means d) ((Literal.concatValues v).map .literal)
        ((Literal.concatValues v).map fun w _ => .string w) := by
      rw [List.forall₂_map_left_iff, List.forall₂_map_right_iff, List.forall₂_same]
      exact fun w _ => literal w
    refine apply hall fun focus => ?_
    -- `concat` has a value from two arguments on, so the first two are named.
    have hjoin := Literal.join_concatValues v
    obtain ⟨w, w', ws, hws⟩ := Literal.exists_concatValues_eq hv
    rw [hws] at hjoin ⊢
    show some (Value.string (String.join _)) = _
    rw [← hjoin]
    simp [Value.toText, Function.comp_def]
  · exact literal v

/-! One rule for each function and operator of the compiler. -/

/-- An equation means whether the values are equal, if they can be compared everywhere. -/
theorem eq {p : Node → Bool} (ha : Means d a f) (hb : Means d b g)
    (hp : ∀ n, Value.equal? d (f n) (g n) = some (p n)) :
    Means d (.binary .eq a b) fun n => .boolean (p n) :=
  ha.binary hb fun n => by rw [Value.operate?, hp]; rfl

/-- A difference means the difference of the two numbers. -/
theorem minus {x y : Node → Int} (ha : Means d a fun n => .number (x n))
    (hb : Means d b fun n => .number (y n)) :
    Means d (.binary .minus a b) fun n => .number (x n - y n) :=
  ha.binary hb fun _ => rfl

/-- A count means the number of nodes. -/
theorem count {ns : Node → List Node} (ha : Means d a fun n => .nodes (ns n)) :
    Means d (.apply "count" [a]) fun n => .number (ns n).length :=
  apply (.cons ha .nil) fun _ => rfl

/-- A name without an argument means that of the node in focus. -/
theorem name : Means d (.apply "name" []) fun n => .string (d.nameOf n) :=
  apply .nil fun _ => rfl

/-- A name with an argument means that of its first node, and the empty text if there is none. -/
theorem nameOf {ns : Node → List Node} (ha : Means d a fun n => .nodes (ns n)) :
    Means d (.apply "name" [a]) fun n => .string (((ns n).head?.map d.nameOf).getD "") :=
  apply (.cons ha .nil) fun _ => rfl

/-- The string of a value means the value as a text. -/
theorem string (ha : Means d a f) :
    Means d (.apply "string" [a]) fun n => .string ((f n).toText d) :=
  apply (.cons ha .nil) fun _ => rfl

/-- The length of a value means the number of characters of the value as a text. -/
theorem stringLength (ha : Means d a f) :
    Means d (.apply "string-length" [a]) fun n => .number ((f n).toText d).length :=
  apply (.cons ha .nil) fun _ => rfl

/-- The length without an argument means that of the text in the node in focus. -/
theorem stringLengthOfNode :
    Means d (.apply "string-length" []) fun n => .number (d.stringOf n).length :=
  apply .nil fun _ => rfl

/-- The words of a value, with a space before and behind each of them. -/
theorem spacedWords (ha : Means d a f) :
    Means d (.apply "concat" [.literal " ", .apply "normalize-space" [a], .literal " "])
      fun n => .string (" " ++ normalizeSpace ((f n).toText d) ++ " ") := by
  have hspaced : Means d (.apply "normalize-space" [a])
      fun n => .string (normalizeSpace ((f n).toText d)) := apply (.cons ha .nil) fun _ => rfl
  refine apply (.cons (literal " ") (.cons hspaced (.cons (literal " ") .nil))) fun focus => ?_
  show some (Value.string (String.join _)) = _
  simp [Value.toText, String.append_assoc]

/-- `contains` means that the second text occurs in the first one. -/
theorem contains (ha : Means d a f) (hb : Means d b g) :
    Means d (.apply "contains" [a, b])
      fun n => .boolean (occursIn ((g n).toText d) ((f n).toText d)) :=
  apply (.cons ha (.cons hb .nil)) fun _ => rfl

/-- `starts-with` means that the first text begins with the second one. -/
theorem startsWith (ha : Means d a f) (hb : Means d b g) :
    Means d (.apply "starts-with" [a, b])
      fun n => .boolean (((g n).toText d).toList.isPrefixOf ((f n).toText d).toList) :=
  apply (.cons ha (.cons hb .nil)) fun _ => rfl

/-- A negation means that the value is not true. -/
theorem not (ha : Means d a f) : Means d (.apply "not" [a]) fun n => .boolean !(f n).truth :=
  apply (.cons ha .nil) fun _ => rfl

/-- `substring` means the rest of the text from the position on. -/
theorem substring {x : Node → Int} (ha : Means d a f) (hb : Means d b fun n => .number (x n)) :
    Means d (.apply "substring" [a, b])
      fun n => .string (substringFrom ((f n).toText d) (x n)) :=
  apply (.cons ha (.cons hb .nil)) fun _ => rfl

end Means

namespace Steady

variable {e a b : Tree}

/-- What is steady decides the places where it holds. -/
theorem decides {text : String} (h : Steady d e) (htext : Parses text e) {P : Path → Prop}
    (hP : ∀ p, holdsAt d e (.tree p) ↔ P p) : Decides d text P := by
  refine ⟨e, htext, fun p position size => ?_⟩
  obtain ⟨v, hv, htruth, haccepts⟩ := h ⟨.tree p, position, size⟩
  refine ⟨v, hv, ?_, fun hposition => (haccepts position hposition).trans htruth.symm⟩
  rw [htruth]
  exact hP p

/-- Two steady operands, joined by an operator on truth values, have a truth value. -/
theorem holdsAt_binary {op : Operator} {f : Bool → Bool → Bool}
    (hop : ∀ v w, Value.operate? d op v w = some (.boolean (f v.truth w.truth)))
    (ha : Steady d a) (hb : Steady d b) (focus : Focus) :
    eval d (.binary op a b) focus
      = some (.boolean (f (holdsAt d a focus.node) (holdsAt d b focus.node))) := by
  obtain ⟨v, hv, hvt, _⟩ := ha focus
  obtain ⟨w, hw, hwt, _⟩ := hb focus
  rw [eval, hv, hw]
  show Value.operate? d op v w = _
  rw [hop, hvt, hwt]

/-- Both of two conditions. -/
theorem means_and (ha : Steady d a) (hb : Steady d b) :
    Means d (.binary .and a b) fun n => .boolean (holdsAt d a n && holdsAt d b n) :=
  holdsAt_binary (fun _ _ => rfl) ha hb

/-- One of two conditions. -/
theorem means_or (ha : Steady d a) (hb : Steady d b) :
    Means d (.binary .or a b) fun n => .boolean (holdsAt d a n || holdsAt d b n) :=
  holdsAt_binary (fun _ _ => rfl) ha hb

/-- The opposite of a condition. -/
theorem means_not (ha : Steady d a) :
    Means d (.apply "not" [a]) fun n => .boolean !holdsAt d a n := by
  intro focus
  obtain ⟨v, hv, hvt, _⟩ := ha focus
  rw [Tree.apply, eval, evalAll, evalAll, hv]
  show some (Value.boolean !v.truth) = some (.boolean !holdsAt d a focus.node)
  rw [hvt]

/-- A conjunction of steady expressions is steady. -/
theorem and (ha : Steady d a) (hb : Steady d b) : Steady d (.binary .and a b) :=
  (ha.means_and hb).steady

/-- A disjunction of steady expressions is steady. -/
theorem or (ha : Steady d a) (hb : Steady d b) : Steady d (.binary .or a b) :=
  (ha.means_or hb).steady

/-- The negation of a steady expression is steady. -/
theorem not (ha : Steady d a) : Steady d (.apply "not" [a]) :=
  ha.means_not.steady

end Steady

/-! ### Steps -/

/-- To put nodes into the order of the document keeps those that the document has. -/
theorem mem_inOrder {ns : List Node} {n : Node} : n ∈ d.inOrder ns ↔ n ∈ d.nodes ∧ n ∈ ns := by
  rw [Document.inOrder, List.mem_filter, decide_eq_true_iff]

/-- An axis leads to the nodes of the document for which it holds. -/
theorem mem_axis_nodes {axis : Axis} {n m : Node} :
    m ∈ axis.nodes d n ↔ m ∈ d.nodes ∧ axis.holds d n m := by
  rw [Axis.nodes]
  split
  · rw [List.mem_reverse, List.mem_filter]
  · rw [List.mem_filter]

/-- A steady predicate keeps the nodes where it holds. -/
theorem keep_steady {predicate : Tree} (h : Steady d predicate) (size position : Nat)
    (hposition : 0 < position) (ns : List Node) :
    keep (eval d predicate) size position ns = some (ns.filter (holdsAt d predicate)) := by
  induction ns generalizing position with
  | nil => rfl
  | cons n ns ih =>
      -- Only the position has changed, which a steady predicate does not see.
      obtain ⟨v, hv, _, haccepts⟩ := h ⟨n, position, size⟩
      rw [keep, hv, ih (position + 1) (Nat.succ_pos _), List.filter_cons, ← haccepts _ hposition]
      rfl

/-- Steady predicates, one after the other, are one filter. Induction on the predicates. -/
theorem narrow_steady {predicates : List Tree} (h : ∀ p ∈ predicates, Steady d p)
    (ns : List Node) :
    narrow d predicates ns = some (ns.filter fun n => predicates.all (holdsAt d · n)) := by
  induction predicates generalizing ns with
  | nil => simp [narrow]
  | cons p ps ih =>
      rw [narrow, keep_steady (h p List.mem_cons_self) _ _ (Nat.succ_pos 0)]
      show narrow d ps _ = _
      rw [ih (fun q hq => h q (List.mem_cons_of_mem _ hq)), List.filter_filter]
      simp only [List.all_cons, Bool.and_comm]

/-- A step selects what its predicates leave on the axis of each node before it. -/
theorem eval_step_narrowed {base : Tree} {axis : Axis} {test : NodeTest}
    {predicates : List Tree} {focus : Focus} {starts : List Node} {g : Node → List Node}
    (hbase : eval d base focus = some (.nodes starts))
    (hg : ∀ n,
      narrow d predicates ((axis.nodes d n).filter (test.passes d axis)) = some (g n)) :
    eval d (.step base axis test predicates) focus
      = some (.nodes (d.inOrder (starts.flatMap g))) := by
  have hmap : starts.mapM (fun n =>
      narrow d predicates ((axis.nodes d n).filter (test.passes d axis)))
        = some (starts.map g) := by
    simp only [hg]
    exact List.mapM_pure
  rw [eval, hbase]
  show (do
    let found ← starts.mapM fun n =>
      narrow d predicates ((axis.nodes d n).filter (test.passes d axis))
    return Value.nodes (d.inOrder found.flatten)) = _
  rw [hmap, List.flatMap_def]
  rfl

/-- A step with steady predicates selects the nodes of the document that are on its
axis from one of the nodes before it, pass its test, and meet its predicates. -/
theorem eval_step {base : Tree} {axis : Axis} {test : NodeTest} {predicates : List Tree}
    {focus : Focus} {starts : List Node} (hbase : eval d base focus = some (.nodes starts))
    (hpredicates : ∀ p ∈ predicates, Steady d p) :
    eval d (.step base axis test predicates) focus
      = some (.nodes (d.nodes.filter fun m => starts.any (axis.holds d · m)
          && test.passes d axis m && predicates.all (holdsAt d · m))) := by
  rw [eval_step_narrowed hbase fun n => narrow_steady hpredicates _, Document.inOrder]
  refine congrArg (some ∘ Value.nodes) (List.filter_congr fun m hm => ?_)
  rw [Bool.eq_iff_iff]
  simp only [decide_eq_true_iff, List.mem_flatMap, List.mem_filter, mem_axis_nodes,
    Bool.and_eq_true, List.any_eq_true]
  -- Both sides ask for the same; only the order of the demands differs.
  constructor
  · rintro ⟨n, hn, ⟨⟨_, haxis⟩, htest⟩, hall⟩
    exact ⟨⟨⟨n, hn, haxis⟩, htest⟩, hall⟩
  · rintro ⟨⟨⟨n, hn, haxis⟩, htest⟩, hall⟩
    exact ⟨n, hn, ⟨⟨hm, haxis⟩, htest⟩, hall⟩

/-- A step means the nodes that the axis leads to from the nodes before, by the node test and steady
predicates. -/
theorem Means.step {base : Tree} {starts : Node → List Node}
    (h : Means d base fun n => .nodes (starts n)) (axis : Axis) (test : NodeTest)
    {predicates : List Tree} (hpredicates : ∀ p ∈ predicates, Steady d p) :
    Means d (.step base axis test predicates) fun n =>
      .nodes (d.nodes.filter fun m => (starts n).any (axis.holds d · m)
        && test.passes d axis m && predicates.all (holdsAt d · m)) :=
  fun focus => eval_step (h focus) hpredicates

/-- A step with steady predicates, told by what it leads to. -/
theorem Means.exists_step {base : Tree} {starts : Node → List Node}
    (h : Means d base fun n => .nodes (starts n)) (axis : Axis) (test : NodeTest)
    {predicates : List Tree} (hpredicates : ∀ p ∈ predicates, Steady d p) :
    ∃ ns : Node → List Node, Means d (.step base axis test predicates) (fun n => .nodes (ns n)) ∧
      ∀ n m, m ∈ ns n ↔ m ∈ d.nodes ∧ (∃ s ∈ starts n, axis.holds d s m) ∧
        test.passes d axis m ∧ ∀ p ∈ predicates, holdsAt d p m := by
  refine ⟨_, h.step axis test hpredicates, fun n m => ?_⟩
  simp only [List.mem_filter, Bool.and_eq_true, List.any_eq_true, List.all_eq_true, and_assoc]

/-- A union, told by what its operands lead to. -/
theorem Means.exists_union {a b : Tree} {ns ms : Node → List Node}
    (ha : Means d a fun n => .nodes (ns n)) (hb : Means d b fun n => .nodes (ms n)) :
    ∃ ls : Node → List Node, Means d (.binary .union a b) (fun n => .nodes (ls n)) ∧
      ∀ n m, m ∈ ls n ↔ m ∈ d.nodes ∧ (m ∈ ns n ∨ m ∈ ms n) := by
  have hunion : Means d (.binary .union a b) fun n => .nodes (d.inOrder (ns n ++ ms n)) :=
    ha.binary hb fun _ => rfl
  refine ⟨_, hunion, fun n m => ?_⟩
  rw [mem_inOrder, List.mem_append]

/-- The node in focus, from which relative paths start. -/
theorem Means.context : Means d .context fun n => .nodes [n] :=
  fun _ => rfl

/-- The document node, from which absolute paths start. -/
theorem Means.root : Means d .root fun _ => .nodes [.tree []] :=
  fun _ => rfl

/-- The node in focus, as a step leads to it. -/
theorem Means.exists_self : ∃ ns : Node → List Node, Means d .self (fun n => .nodes (ns n)) ∧
    ∀ n m, m ∈ ns n ↔ m ∈ d.nodes ∧ n = m := by
  obtain ⟨ns, hns, hmem⟩ := Means.context.exists_step .self (.type .node) (List.forall_mem_nil _)
  refine ⟨ns, hns, fun n m => (hmem n m).trans ?_⟩
  simp [Axis.holds, NodeTest.passes]

/-- A path from the node in focus means the nodes that it selects there. -/
theorem Means.along (axis : Axis) (test : NodeTest) :
    Means d (.along axis test) fun n => .nodes (d.nodes.filter fun m =>
      axis.holds d n m && test.passes d axis m) := by
  intro focus
  have hnone : ∀ p ∈ ([] : List Tree), Steady d p := nofun
  rw [Tree.along, Means.context.step axis test hnone focus]
  simp

end XPathLocator.XPath
