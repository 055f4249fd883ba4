import XPathLocator.XPath.Expr

/-!
# `XPathLocator.Proofs.XPath.Expr`: steps in a row and conditions in a row

An expression is built in two ways, a further step behind it (`Expr.join`) and a further
demand on its last step. A demand is a condition or the name test, and both are a
`Narrowing`. The laws of the two (`join_narrow_laws`):

* Joining is writing one after the other, so it does not matter which of two joints is made
  first.
* A step may be narrowed before or after it is attached.
* Narrowing leaves the path alone and collects conditions. What a list of narrowings adds
  (`additions`) depends on the node test only, since the name is tested once, and the
  condition in the end is the `conjunction` of what was there and what was added.

The last point is an induction over the narrowings. What one of them keeps is in
`condition_narrow`: the condition is the conjunction of a list of texts, none of them empty.
The empty text stands for no condition, so an empty one could not be told from none.
-/

set_option autoImplicit false

namespace XPathLocator.XPath

/-- A further demand on the last step of an expression. -/
inductive Narrowing
  /-- A condition. -/
  | condition (text : String)
  /-- The node test, as a comparison of the name. -/
  | nameTest
deriving DecidableEq, Repr

/-- Conditions as one: each further one makes a conjunction with all those before it, and a
single one stands as it is. -/
def conjunction : List String → String
  | [] => ""
  | first :: rest =>
    rest.foldl (fun all condition => "(" ++ all ++ ") and (" ++ condition ++ ")") first

/-- The conditions that narrowings add to a step with a node test. The name is tested the
first time that it is asked for, since the node test is `*` from then on. -/
def additions (element : String) : List Narrowing → List String
  | [] => []
  | .condition text :: rest => text :: additions element rest
  | .nameTest :: rest => (if element = "*" then [] else [nameIs element]) ++ additions "*" rest

namespace Expr

/-- Makes a further demand on the last step. -/
def narrow (e : Expr) : Narrowing → Expr
  | .condition text => e.addCondition text
  | .nameTest => e.addNameTest

/-- The conditions of the last step: one or none. -/
def conditions (e : Expr) : List String :=
  if e.condition = "" then [] else [e.condition]

/-! ### Steps in a row -/

/-- A join has the node test of its second part. -/
@[simp]
theorem element_join (a b : Expr) (s : String) : (a.join s b).element = b.element :=
  rfl

/-- A join has the condition of its second part. -/
@[simp]
theorem condition_join (a b : Expr) (s : String) : (a.join s b).condition = b.condition :=
  rfl

/-- What a joint writes. -/
theorem render_join (a b : Expr) (s : String) :
    (a.join s b).render = a.render ++ s ++ b.render := by
  rw [render, element_join, condition_join]
  show a.render ++ s ++ b.path ++ b.element ++ _ = a.render ++ s ++ (b.path ++ b.element ++ _)
  simp only [String.append_assoc]

/-- A joint renders its left operand, so the left one of two may be made before or after. -/
theorem join_join (a b c : Expr) (s t : String) :
    (a.join s b).join t c = a.join s (b.join t c) := by
  rw [join, render_join]
  show (⟨_, c.element, c.condition⟩ : Expr) = ⟨_, c.element, c.condition⟩
  simp only [join, String.append_assoc]

/-! ### Conditions in a row -/

/-- The node test for any name is not moved into the condition. -/
theorem addNameTest_any {e : Expr} (h : e.element = "*") : e.addNameTest = e :=
  if_pos h

/-- The test of a name is moved into the condition. -/
theorem addNameTest_of_ne {e : Expr} (h : e.element ≠ "*") :
    e.addNameTest = { e.addCondition (nameIs e.element) with element := "*" } :=
  if_neg h

/-- Behind the name test the step is one for any name. -/
@[simp]
theorem element_addNameTest (e : Expr) : e.addNameTest.element = "*" := by
  by_cases h : e.element = "*"
  · rw [addNameTest_any h, h]
  · rw [addNameTest_of_ne h]

/-- Once the name is tested there is none left. -/
theorem addNameTest_addNameTest (e : Expr) : e.addNameTest.addNameTest = e.addNameTest :=
  addNameTest_any e.element_addNameTest

/-- Narrowing looks at the last step only. -/
theorem narrow_join (a b : Expr) (s : String) (n : Narrowing) :
    (a.join s b).narrow n = a.join s (b.narrow n) := by
  cases n with
  | condition text => rfl
  | nameTest =>
      show (a.join s b).addNameTest = a.join s b.addNameTest
      by_cases h : b.element = "*"
      · rw [addNameTest_any h, addNameTest_any (e := a.join s b) h]
      · rw [addNameTest_of_ne h, addNameTest_of_ne (e := a.join s b) h]
        rfl

/-- No narrowing changes the path. -/
theorem path_narrow (e : Expr) (n : Narrowing) : (e.narrow n).path = e.path := by
  cases n with
  | condition text => rfl
  | nameTest =>
      show e.addNameTest.path = e.path
      by_cases h : e.element = "*"
      · rw [addNameTest_any h]
      · rw [addNameTest_of_ne h]
        rfl

end Expr

/-- A further condition stands behind the ones before, each side in brackets. -/
theorem conjunction_concat {cs : List String} (h : cs ≠ []) (text : String) :
    conjunction (cs ++ [text]) = "(" ++ conjunction cs ++ ") and (" ++ text ++ ")" := by
  cases cs with
  | nil => exact absurd rfl h
  | cons first rest => rw [List.cons_append, conjunction, List.foldl_append]; rfl

/-- Conditions that are not empty make one that is not. -/
theorem conjunction_eq_empty_iff {cs : List String} (h : "" ∉ cs) :
    conjunction cs = "" ↔ cs = [] := by
  rcases List.eq_nil_or_concat cs with rfl | ⟨cs, text, rfl⟩
  · simp [conjunction]
  · rcases List.eq_nil_or_concat cs with rfl | hne
    · simpa [conjunction, eq_comm] using h
    · obtain ⟨cs, text', rfl⟩ := hne
      rw [List.concat_eq_append, conjunction_concat (by simp)]
      simp [String.append_eq_empty_iff]

namespace Expr

/-- A condition goes to the end of those that are there. -/
theorem condition_addCondition {e : Expr} {cs : List String} (h : e.condition = conjunction cs)
    (hcs : "" ∉ cs) (text : String) :
    (e.addCondition text).condition = conjunction (cs ++ [text]) := by
  show (if e.condition.isEmpty then text else _) = _
  rw [h]
  by_cases hnil : cs = []
  · subst hnil
    rfl
  · rw [if_neg (by simpa [String.isEmpty_iff] using mt (conjunction_eq_empty_iff hcs).mp hnil),
      conjunction_concat hnil]

/-- **What one narrowing keeps**: the condition is a conjunction, now with what was added. -/
theorem condition_narrow {e : Expr} {cs : List String} (h : e.condition = conjunction cs)
    (hcs : "" ∉ cs) (n : Narrowing) :
    (e.narrow n).condition = conjunction (cs ++ additions e.element [n]) := by
  cases n with
  | condition text => exact condition_addCondition h hcs text
  | nameTest =>
      show e.addNameTest.condition = _
      rw [additions, additions, List.append_nil]
      by_cases hany : e.element = "*"
      · rw [addNameTest_any hany, if_pos hany, List.append_nil, h]
      · rw [addNameTest_of_ne hany, if_neg hany]
        exact condition_addCondition h hcs _

/-- What a list of narrowings adds is what the first one adds and what the others add behind it. -/
theorem additions_cons (e : Expr) (n : Narrowing) (rest : List Narrowing) :
    additions e.element (n :: rest) =
      additions e.element [n] ++ additions (e.narrow n).element rest := by
  cases n with
  | condition text => rfl
  | nameTest =>
      show _ = _ ++ additions e.addNameTest.element rest
      rw [element_addNameTest]
      simp [additions]

end Expr

/-- The test of a name is not the empty text. -/
theorem nameIs_ne_empty (name : String) : nameIs name ≠ "" := by
  rw [nameIs]
  simp [String.append_eq_empty_iff]

/-- No narrowing adds the empty text, if none of them is an empty condition. -/
theorem not_mem_additions {narrowings : List Narrowing} (h : .condition "" ∉ narrowings)
    (element : String) : "" ∉ additions element narrowings := by
  induction narrowings generalizing element with
  | nil => simp [additions]
  | cons n rest ih =>
      rw [List.mem_cons, not_or] at h
      cases n with
      | condition text =>
          rw [additions, List.mem_cons, not_or]
          exact ⟨fun hempty => h.1 (hempty ▸ rfl), ih h.2 element⟩
      | nameTest =>
          rw [additions, List.mem_append, not_or]
          refine ⟨?_, ih h.2 "*"⟩
          split <;> simp [(nameIs_ne_empty _).symm]

namespace Expr

/-- An expression has the conjunction of its conditions, none of them the empty text. -/
theorem condition_eq_conjunction (e : Expr) :
    e.condition = conjunction e.conditions ∧ "" ∉ e.conditions := by
  rw [conditions]
  split
  · next h => exact ⟨h, by simp⟩
  · next h => exact ⟨rfl, fun hmem => h (List.mem_singleton.mp hmem).symm⟩

/-- **What narrowings make of an expression**: the same path, and the conjunction of the
conditions that were there with those that were added. -/
theorem foldl_narrow {e : Expr} {cs : List String} (h : e.condition = conjunction cs)
    (hcs : "" ∉ cs) (narrowings : List Narrowing) (hne : .condition "" ∉ narrowings) :
    (narrowings.foldl narrow e).path = e.path ∧
      (narrowings.foldl narrow e).condition =
        conjunction (cs ++ additions e.element narrowings) := by
  induction narrowings generalizing e cs with
  | nil => exact ⟨rfl, by rw [additions, List.append_nil]; exact h⟩
  | cons n rest ih =>
      rw [List.mem_cons, not_or] at hne
      have hone : "" ∉ additions e.element [n] :=
        not_mem_additions (by simpa using hne.1) e.element
      have hadded : "" ∉ cs ++ additions e.element [n] := by
        rw [List.mem_append, not_or]
        exact ⟨hcs, hone⟩
      obtain ⟨hpath, hcondition⟩ := ih (condition_narrow h hcs n) hadded hne.2
      rw [List.foldl_cons]
      refine ⟨hpath.trans (path_narrow e n), ?_⟩
      rw [hcondition, additions_cons e n rest, List.append_assoc]

/-- **The laws of an expression under construction.** -/
theorem join_narrow_laws (a b c : Expr) (s t : String) :
    (a.join s b).render = a.render ++ s ++ b.render ∧
    (a.join s b).join t c = a.join s (b.join t c) ∧
    (∀ text, (a.join s b).addCondition text = a.join s (b.addCondition text)) ∧
    (a.join s b).addNameTest = a.join s b.addNameTest ∧
    a.addNameTest.addNameTest = a.addNameTest ∧
    ∀ narrowings : List Narrowing, .condition "" ∉ narrowings →
      (narrowings.foldl narrow a).path = a.path ∧
      (narrowings.foldl narrow a).condition =
        conjunction (a.conditions ++ additions a.element narrowings) := by
  refine ⟨render_join a b s, join_join a b c s t, fun text => narrow_join a b s (.condition text),
    narrow_join a b s .nameTest, addNameTest_addNameTest a, fun narrowings hne => ?_⟩
  obtain ⟨hcondition, hempty⟩ := condition_eq_conjunction a
  exact foldl_narrow hcondition hempty narrowings hne

/-- Conditions around a name test, which is asked for twice, on a step that has a path and a
condition already. -/
theorem join_narrow_laws_item :
    let a : Expr := ⟨"//ul/", "li", "@id"⟩
    let b : Expr := ⟨"*/", "a", ""⟩
    let narrowings : List Narrowing :=
      [.condition "@class", .nameTest, .condition "position() = 1", .nameTest]
    .condition "" ∉ narrowings ∧
      (narrowings.foldl narrow a).path = "//ul/" ∧
      (narrowings.foldl narrow a).condition =
        "(((@id) and (@class)) and (name() = 'li')) and (position() = 1)" ∧
      (a.join "/" b).render = "//ul/li[@id]/*/a" := by
  intro a b narrowings
  have hne : .condition "" ∉ narrowings := by decide
  obtain ⟨hrender, _, _, _, _, hnarrow⟩ := join_narrow_laws a b b "/" "/"
  obtain ⟨hpath, hcondition⟩ := hnarrow narrowings hne
  refine ⟨hne, hpath, hcondition.trans (by decide), hrender.trans (by decide)⟩

end Expr

end XPathLocator.XPath
