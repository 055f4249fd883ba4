import XPathLocator.Proofs.Css.Path
import XPathLocator.Proofs.Except
import XPathLocator.Proofs.Text.Digits

/-!
# `XPathLocator.Proofs.Css.Written`: what the compiler writes

The text of each condition is an operand with the tree that `Compiler.demand`
gives (`condition_written`), and so on through compounds (`compound_describes`)
to chains (`complex_written`). The induction is on the selector; since `:not`
holds a compound, conditions and compounds are proved together.

A step under construction is an `Expr`, whose conditions are still apart from its
node test. `Describes` is what an `Expr` keeps to while it is narrowed.
-/

set_option autoImplicit false

namespace XPathLocator.Css

open XPath

/-! ### Names and the smallest conditions -/

/-- A Latin letter starts a name in XPath as well. -/
theorem isNameStart_of_isAlpha {c : Char} (h : c.isAlpha) : XPath.isNameStart c := by
  simp only [XPath.isNameStart, nameStartRanges, List.any_cons, Bool.or_eq_true,
    Bool.and_eq_true, decide_eq_true_eq]
  rcases Text.isAlpha_iff_toNat.mp h with ⟨h1, h2⟩ | ⟨h1, h2⟩
  · exact .inl ⟨h1, h2⟩
  · exact .inr (.inr (.inl ⟨h1, h2⟩))

/-- A plain name is a name in XPath. -/
theorem isName_of_isPlainName {name : String} (h : isPlainName name) : isName name.toList := by
  rw [isPlainName] at h
  split at h
  · exact absurd h (by decide)
  · next c cs heq =>
    rw [heq]
    simp only [Bool.and_eq_true, Bool.or_eq_true, decide_eq_true_eq, List.all_eq_true] at h
    simp only [isName, Bool.and_eq_true, List.all_eq_true]
    refine ⟨?_, fun d hd => ?_⟩
    · rcases h.1 with h | rfl
      · exact isNameStart_of_isAlpha h
      · decide
    · rcases h.2 d hd with ((h | rfl) | rfl) | rfl
      · rw [Char.isAlphanum, Bool.or_eq_true] at h
        rcases h with h | h
        · rw [XPath.isNameChar, isNameStart_of_isAlpha h, Bool.true_or]
        · exact isNameChar_of_isDigit h
      · decide
      · decide
      · decide

/-- The condition that never holds is written as the number zero. -/
theorem written_never : Written .filtered never (.number never) :=
  written_number never (by decide) (by decide)

/-- The test of a name is written as an equation. -/
theorem nameIs_written (name : String) : Written (.expr 2) (nameIs name) (nameTree name) :=
  (written_callEmpty "name" (by decide)).ofFiltered.eqText name

/-- One more demand, as `addCondition` writes it. -/
theorem written_and {m n : Nat} {s t : String} {a b : Tree} (left : Written (.expr m) s a)
    (right : Written (.expr n) t b) :
    Written (.expr 1) ("(" ++ s ++ ") and (" ++ t ++ ")") (.binary .and a b) := by
  -- Both sides stand in brackets, so it is no matter how they are built.
  have hboth := (left.group.ofFiltered.loosen (by decide)).and
    (right.group.ofFiltered.loosen (by decide))
  exact hboth.as (by simp)

/-! ### Attributes -/

/-- The attribute that a compiler asks for can stand wherever a path can. -/
theorem attr_written (compiler : Compiler) (name : String) :
    Written .steps (compiler.attr name) (compiler.attrPath name) := by
  rw [Compiler.attr, Compiler.attrPath]
  split
  · next h => exact opens_at.name (isName_of_isPlainName h)
  · have hstep := (opens_axis .attributes).any.predicate (nameIs_written (compiler.normalName name))
    exact hstep.as (by simp [Axis.name])

/-- The path to an attribute is written with its sign. -/
theorem at_written (name : String) (h : isName name.toList) :
    Written (.expr 8) ("@" ++ name) (attrTree name) :=
  (opens_at.name h).ofSteps

/-- The words of an attribute, spaced, and a text that is to occur there. -/
theorem inSpacedWords_written {attr : String} {path : Tree} (h : Written (.expr 8) attr path)
    (text : String) :
    Written (.expr 1) (attr ++ " and contains(concat(' ', normalize-space(" ++ attr ++ "), ' '), "
        ++ Literal.ofText text ++ ")")
      (.binary .and path (.apply "contains"
        [.apply "concat" [.literal " ", .apply "normalize-space" [path], .literal " "],
         Literal.tree text])) := by
  have hblank : Written (.expr 8) "' '" (.literal " ") :=
    (written_literal " ").ofFiltered
  have hspaced := (h.argument "normalize-space" (by decide)).call
  have hconcat := (((hblank.argument "concat" (by decide)).nextArgument
    hspaced.ofFiltered).nextArgument hblank).call
  have hcontains := hconcat.ofFiltered.callText "contains" text (by decide)
  have hboth := (h.loosen (by decide)).and (hcontains.ofFiltered.loosen (by decide))
  exact hboth.as (by simp)

/-- The search for a word is written as its conditions, with the word in a literal. -/
theorem includesWord_written {attr : String} {path : Tree} (h : Written (.expr 8) attr path)
    (word : String) : Written (.expr 1) (includesWord attr word) (includesTree path word) := by
  rw [includesWord, includesTree]
  split
  · exact written_never.ofFiltered.loosen (by decide)
  · exact (inSpacedWords_written h (" " ++ word ++ " ")).as (by simp)

/-- The number of a length stands in decimal digits. -/
theorem toString_written (n : Nat) : Written .filtered (toString n) (.number (toString n)) := by
  have hdigits : (toString n).toList = Nat.toDigits 10 n := Nat.toList_repr
  refine written_number _ ?_ fun hempty => ?_
  · rw [hdigits, List.all_eq_true]
    exact fun c hc => Nat.isDigit_of_mem_toDigits (by decide) (by decide) hc
  · rw [hempty] at hdigits
    exact Nat.toDigits_ne_nil hdigits.symm

/-- The test of an attribute is written as its tree, for each operator. -/
theorem attributeCondition_written {attr : String} {path : Tree}
    (h : Written (.expr 8) attr path) (test : Option (AttributeOp × String)) :
    Written (.expr 1) (attributeCondition attr test) (attributeTree path test) := by
  have hattr : Written (.expr 1) attr path := h.loosen (by decide)
  -- Two of the operators call a function with the attribute and the value.
  have hand : ∀ f v : String, IsFunction f →
      Written (.expr 1) (attr ++ " and " ++ (f ++ "(" ++ attr ++ ", " ++ Literal.ofText v ++ ")"))
        (.binary .and path (.apply f [path, Literal.tree v])) := fun f v hf =>
    hattr.and ((h.callText f v hf).ofFiltered.loosen (by decide))
  match test with
  | none => exact hattr
  | some (.equals, value) => exact (h.eqText value).loosen (by decide)
  | some (.includes, value) => exact includesWord_written h value
  | some (.dashMatch, value) =>
      have hstarts := h.callText "starts-with" (value ++ "-") (by decide)
      have hor := ((h.eqText value).or (hstarts.ofFiltered.loosen (by decide))).group
      exact (hattr.and (hor.ofFiltered.loosen (by decide))).as (by simp [attributeCondition])
  | some (.startsWith, value) =>
      rw [attributeCondition, attributeTree]
      split
      · exact written_never.ofFiltered.loosen (by decide)
      · exact (hand "starts-with" value (by decide)).as (by simp)
  | some (.endsWith, value) =>
      rw [attributeCondition, attributeTree]
      split
      · exact written_never.ofFiltered.loosen (by decide)
      · have hlength := (h.argument "string-length" (by decide)).callMinus
          (toString_written (value.length - 1))
        have hpart := ((h.argument "substring" (by decide)).nextArgument hlength).call
        have heq := hpart.ofFiltered.eqText value
        exact (hattr.and heq).as (by simp)
  | some (.contains, value) =>
      rw [attributeCondition, attributeTree]
      split
      · exact written_never.ofFiltered.loosen (by decide)
      · exact (hand "contains" value (by decide)).as (by simp)

/-! ### Pseudo-classes -/

/-- A count is written as an equation with a number. -/
theorem count_written {s d : String} {path : Tree} (h : Written .steps s path)
    (hd : Written .filtered d (.number d)) :
    Written (.expr 2) ("count(" ++ s ++ ") = " ++ d) (countTree path d) := by
  have hcall := (h.ofSteps.argument "count" (by decide)).call
  exact (hcall.ofFiltered.eq hd.ofFiltered).as (by simp)

/-- A function of one operand. -/
theorem call_written {s : String} {e : Tree} (f : String) (h : Written (.expr 8) s e)
    (hf : IsFunction f) :
    Written (.expr 8) (f ++ "(" ++ s ++ ")") (.apply f [e]) :=
  (h.argument f hf).call.ofFiltered

/-- A node test of the compiler behind any axis. -/
theorem test_written {s : String} {base : Tree} {axis : Axis} {test : Option String}
    (h : Opens s base axis) (ht : ∀ n ∈ test, isPlainName n) :
    Written .steps (s ++ test.getD "*") (.step base axis (nodeTest test) []) :=
  match test with
  | none => h.any
  | some n => h.name (isName_of_isPlainName (ht n rfl))

/-- The siblings of a name are written as a path through the parent. -/
theorem among_written {test : Option String} (ht : ∀ n ∈ test, isPlainName n) :
    Written .steps ("parent::*/child::" ++ test.getD "*") (amongChildren (nodeTest test)) := by
  have hparent := (opens_axis .parent).any.map fun _ h => h.steps
  exact (test_written (hparent.slashAxis .child) ht).as (by simp [Axis.name])

/-- A place among siblings is written as its comparison of counts. -/
theorem typePlaceCondition_written {test : Option String} (ht : ∀ n ∈ test, isPlainName n)
    (place : TypePlace) :
    Written (.expr 2) (typePlaceCondition (test.getD "*") place)
      (typePlaceTree (nodeTest test) place) := by
  cases place with
  | first =>
      have hcount := count_written (test_written (opens_axis .precedingSibling) ht)
        (written_number "0" (by decide) (by decide))
      show Written _ ("count(preceding-sibling::" ++ test.getD "*" ++ ") = 0") _
      exact hcount.as (by simp [Axis.name])
  | last =>
      have hcount := count_written (test_written (opens_axis .followingSibling) ht)
        (written_number "0" (by decide) (by decide))
      show Written _ ("count(following-sibling::" ++ test.getD "*" ++ ") = 0") _
      exact hcount.as (by simp [Axis.name])
  | only =>
      show Written _ ("count(parent::*/child::" ++ test.getD "*" ++ ") = 1") _
      have hcount := count_written (among_written ht) (written_number "1" (by decide) (by decide))
      exact hcount.as (by simp)

/-- The name of the context element can be compared with fixed names. -/
theorem nameOfSelf_written : Written (.expr 8) "name(.)" (.apply "name" [.self]) :=
  (call_written "name" (written_self.map fun _ h => .path h) (by decide)).as (by simp)

/-- A choice among fixed words, each compared in its turn. -/
theorem oneOf_written {s : String} {e : Tree} (h : Written (.expr 8) s e) (first : String)
    (more : List String) (hall : ∀ v ∈ first :: more, '\'' ∉ v.toList) :
    Written (.expr 0) (more.foldl (fun t v => t ++ " or " ++ (s ++ " = '" ++ v ++ "'"))
      (s ++ " = '" ++ first ++ "'")) (oneOf e first more) := by
  have hfirst := (h.eqWord first (hall _ List.mem_cons_self)).whole
  have hmore := fun v hv => hall v (List.mem_cons_of_mem _ hv)
  rw [oneOf]
  -- The choice grows at its end, so the induction is for any words compared so far.
  generalize s ++ " = '" ++ first ++ "'" = text at hfirst ⊢
  generalize Tree.binary .eq e (.literal first) = tree at hfirst ⊢
  clear hall
  induction more generalizing text tree with
  | nil => exact hfirst
  | cons v more ih =>
      have hword := (h.eqWord v (hmore v List.mem_cons_self)).loosen (m := 1) (by decide)
      exact ih (fun w hw => hmore w (List.mem_cons_of_mem _ hw)) _ _ (hfirst.or hword)

/-- What is written for a pseudo-class has its tree, if anything is written. -/
theorem pseudoCondition_written {test : Option String} (ht : ∀ n ∈ test, isPlainName n)
    {p : Pseudo} {text : String} (h : pseudoCondition (test.getD "*") p = .ok text) :
    Written (.expr 0) text (pseudoTree (nodeTest test) p) := by
  -- A place among all siblings is one among those of any name.
  have hany : ∀ n ∈ (none : Option String), isPlainName n := fun _ hn => nomatch hn
  cases p with
  | root =>
      cases h
      have hnot := call_written "not" (opens_axis .parent).any.ofSteps (by decide)
      exact hnot.whole.as (by simp [Axis.name])
  | firstChild =>
      cases h
      have hcount : Written _ ("count(preceding-sibling::" ++ "*" ++ ") = 0") _ :=
        typePlaceCondition_written hany .first
      exact hcount.whole.as (by simp)
  | lastChild =>
      cases h
      have hcount : Written _ ("count(following-sibling::" ++ "*" ++ ") = 0") _ :=
        typePlaceCondition_written hany .last
      exact hcount.whole.as (by simp)
  | onlyChild =>
      cases h
      have hcount : Written _ ("count(parent::*/child::" ++ "*" ++ ") = 1") _ :=
        typePlaceCondition_written hany .only
      exact hcount.whole.as (by simp)
  | ofType place =>
      rw [pseudoCondition] at h
      split at h
      · cases h
      · cases h
        exact (typePlaceCondition_written ht place).whole
  | empty =>
      cases h
      have hchild := call_written "not" opens_bare.any.ofSteps (by decide)
      have htext := call_written "not"
        (written_callEmpty "string-length" (by decide)).ofFiltered (by decide)
      have hboth := (hchild.loosen (by decide)).and (htext.loosen (by decide))
      exact hboth.whole.as (by simp)
  | link =>
      cases h
      have hnames := (oneOf_written nameOfSelf_written "a" ["link", "area"] (by decide)).group
      have hboth := ((at_written "href" (by decide)).loosen (by decide)).and
        (hnames.ofFiltered.loosen (by decide))
      exact hboth.whole.as (congrArg String.toList (by decide +kernel))
  | checked =>
      cases h
      have hnames := (oneOf_written nameOfSelf_written "input" ["command"] (by decide)).group
      have htypes :=
        (oneOf_written (at_written "type" (by decide)) "checkbox" ["radio"] (by decide)).group
      have hinput := (((at_written "checked" (by decide)).loosen (by decide)).and
        (hnames.ofFiltered.loosen (by decide))).and (htypes.ofFiltered.loosen (by decide))
      have hoption := ((at_written "selected" (by decide)).loosen (by decide)).and
        (nameOfSelf_written.eqWord "option" (by decide))
      have hall := hinput.group.ofFiltered.or (hoption.group.ofFiltered.loosen (by decide))
      exact hall.as (congrArg String.toList (by decide +kernel))
  | disabled =>
      cases h
      exact (at_written "disabled" (by decide)).whole.as (by simp)
  | enabled =>
      cases h
      have hnot := call_written "not" (at_written "disabled" (by decide)) (by decide)
      exact hnot.whole.as (by simp)
  | interaction =>
      cases h
      exact written_never.ofFiltered.whole

/-! ### Steps under construction -/

/-- An expression asks of its last step what `step` demands, and keeps to names
that can stand in an XPath. -/
structure Describes (e : Expr) (step : Step) : Prop where
  element : e.element = step.test.getD "*"
  plain : ∀ n ∈ step.test, isPlainName n
  condition : match step.condition with
    | none => e.condition = ""
    | some c => Written (.expr 0) e.condition c

namespace Describes

variable {e : Expr} {step : Step}

/-- An expression has a condition exactly if its step has. -/
theorem condition_isEmpty (h : Describes e step) :
    e.condition.isEmpty = step.condition.isNone := by
  have hc := h.condition
  cases hstep : step.condition with
  | none =>
      rw [hstep] at hc
      rw [hc]
      rfl
  | some c =>
      rw [hstep] at hc
      exact Written.isEmpty_eq_false hc

/-- A condition that is written as a tree is added to both sides. -/
theorem addCondition (h : Describes e step) {n : Nat} {text : String} {c : Tree}
    (hc : Written (.expr n) text c) : Describes (e.addCondition text) (step.addCondition c) := by
  refine ⟨h.element, h.plain, ?_⟩
  have hempty := h.condition_isEmpty
  have hold := h.condition
  show Written (.expr 0) (if e.condition.isEmpty then _ else _) _
  cases hstep : step.condition with
  | none =>
      rw [hempty, hstep]
      exact hc.whole
  | some c' =>
      rw [hstep] at hold
      rw [hempty, hstep]
      exact (written_and hold hc).whole

/-- What stands before the last step is no matter. -/
theorem join (h : Describes e step) (left : Expr) (between : String) :
    Describes (left.join between e) step :=
  ⟨h.element, h.plain, h.condition⟩

/-- The name test is moved into the condition on both sides. -/
theorem addNameTest (h : Describes e step) : Describes e.addNameTest step.addNameTest := by
  rw [Expr.addNameTest, Step.addNameTest]
  cases hstep : step.test with
  | none =>
      rw [h.element, hstep]
      show Describes (if "*" = "*" then e else _) step
      rw [if_pos rfl]
      exact h
  | some n =>
      have hn : n ≠ "*" := by
        rintro rfl
        exact absurd (h.plain "*" hstep) (by decide)
      rw [h.element, hstep]
      show Describes (if n = "*" then _ else _) _
      rw [if_neg hn]
      have hname := h.addCondition (nameIs_written n)
      exact ⟨rfl, fun _ hm => (nomatch hm), hname.condition⟩

end Describes

/-- The expression for an element name describes its step. -/
theorem element_describes (compiler : Compiler) (name : Option String) :
    Describes (compiler.element name) (compiler.stepOf name) := by
  rw [Compiler.element, Compiler.stepOf]
  generalize compiler.normalName (name.getD "*") = n
  -- A name that is not plain cannot be a node test and becomes a condition.
  by_cases hany : n = "*"
  · subst hany
    exact ⟨rfl, fun _ hm => (nomatch hm), rfl⟩
  · by_cases hplain : isPlainName n
    · simp only [hany, hplain, decide_false, Bool.false_or, if_true, if_false]
      exact ⟨rfl, fun m hm => Option.some.inj hm ▸ hplain, rfl⟩
    · simp only [hany, hplain, decide_false, Bool.false_or, if_false]
      exact ⟨rfl, fun _ hm => (nomatch hm), (nameIs_written n).whole⟩

mutual

/-- A condition has the tree that the compiler's demand gives. -/
theorem condition_written {compiler : Compiler} {test : Option String}
    (ht : ∀ n ∈ test, isPlainName n) :
    (simple : Simple) → {text : String} →
      compiler.condition (test.getD "*") simple = .ok text →
      Written (.expr 0) text (compiler.demand (nodeTest test) simple)
  | .id name, _, h => by
      cases h
      exact ((at_written "id" (by decide)).eqText name).whole
  | .ofClass name, _, h => by
      cases h
      exact (includesWord_written (at_written "class" (by decide)) name).whole
  | .attribute name value, _, h => by
      cases h
      exact (attributeCondition_written (attr_written compiler name).ofSteps value).whole
  | .pseudo p, _, h => pseudoCondition_written ht h
  | .contains value, _, h => by
      cases h
      have hself := call_written "string" (written_self.map fun _ h => .path h) (by decide)
      have hcall := hself.callText "contains" value (by decide)
      exact hcall.ofFiltered.whole.as (by simp)
  | .not name simples, text, h => by
      rw [Compiler.condition] at h
      obtain ⟨inner, hinner, htext⟩ := exists_of_bind_eq_ok h
      -- The whole argument is a condition here, its element name too.
      have hdesc := (narrow_describes (element_describes compiler name) simples hinner).addNameTest
      have hempty := hdesc.condition_isEmpty
      have hold := hdesc.condition
      cases htext
      rw [Compiler.demand, hempty]
      cases hstep : (compiler.narrowed (compiler.stepOf name) simples).addNameTest.condition with
      | none => exact written_never.ofFiltered.whole
      | some c =>
          rw [hstep] at hold
          have hcall := (hold.argument "not" (by decide)).call
          exact hcall.ofFiltered.whole.as (by simp)

/-- Conditions narrow a step as the compiler's demands do. -/
theorem narrow_describes {compiler : Compiler} {e : Expr} {step : Step}
    (h : Describes e step) :
    (simples : List Simple) → {e' : Expr} → compiler.narrow e simples = .ok e' →
      Describes e' (compiler.narrowed step simples)
  | [], _, hok => by
      cases hok
      exact h
  | simple :: rest, e', hok => by
      rw [Compiler.narrow] at hok
      obtain ⟨text, htext, hok⟩ := exists_of_bind_eq_ok hok
      rw [h.element] at htext
      exact narrow_describes (h.addCondition (condition_written h.plain simple htext)) rest hok

end

/-! ### Chains -/

/-- No condition touches the path before the last step. -/
theorem narrow_path {compiler : Compiler} {simples : List Simple} {e e' : Expr}
    (h : compiler.narrow e simples = .ok e') : e'.path = e.path := by
  induction simples generalizing e with
  | nil =>
      rw [Compiler.narrow] at h
      cases h
      rfl
  | cons simple rest ih =>
      rw [Compiler.narrow] at h
      obtain ⟨text, _, h⟩ := exists_of_bind_eq_ok h
      rw [ih h]
      rfl

/-- The expression for a compound is one step, with nothing in front of it. -/
theorem compound_path {compiler : Compiler} {c : Compound} {e : Expr}
    (h : compiler.compound c = .ok e) : e.path = "" := by
  rw [narrow_path h, Compiler.element]
  split <;> rfl

/-- A compound is the step that the compiler's `step` gives. -/
theorem compound_describes {compiler : Compiler} {c : Compound} {e : Expr}
    (h : compiler.compound c = .ok e) : Describes e (compiler.step c) :=
  narrow_describes (element_describes compiler c.element) c.simples h

/-- Behind the text `start`, an expression is written up to its last step, and
with that step it is `path`. -/
def LeadsTo (start : String) (e : Expr) (path : Tree) : Prop :=
  ∃ base axis step, Opens (start ++ e.path) base axis ∧ Describes e step ∧
    path = step.on base axis

namespace LeadsTo

variable {start : String} {e right : Expr} {path : Tree} {step : Step}

/-- What is rendered is the path. -/
theorem written (h : LeadsTo start e path) : Written .steps (start ++ e.render) path := by
  obtain ⟨base, axis, step, hopens, hdesc, rfl⟩ := h
  have htest := test_written hopens hdesc.plain
  have hempty := hdesc.condition_isEmpty
  have hcondition := hdesc.condition
  rw [Expr.render, hdesc.element, hempty, Step.on]
  cases hstep : step.condition with
  | none => exact htest.as (by simp)
  | some c =>
      rw [hstep] at hcondition
      exact (htest.predicate hcondition).as (by simp)

/-- What stands before a further step, whatever the step asks. -/
theorem opens_join {between : String} {base : Tree} {axis : Axis}
    (hopens : Opens (start ++ e.render ++ between) base axis) (hpath : right.path = "") :
    Opens (start ++ (e.join between right).path) base axis :=
  hopens.as (by simp [Expr.join, hpath])

/-- A combinator attaches its compound as the compiler's `extend` does. -/
theorem attach (h : LeadsTo start e path) (combinator : Combinator)
    (hright : Describes right step) (hpath : right.path = "") :
    LeadsTo start (Compiler.attach e combinator right)
      (Compiler.extend path combinator step) := by
  have hlocation : Written .location (start ++ e.render) path := h.written.map fun _ h => .steps h
  have hsibling : Opens (start ++ e.render ++ "/following-sibling::") path .followingSibling :=
    (hlocation.slashAxis .followingSibling).as (by simp [Axis.name])
  cases combinator with
  | descendant =>
      -- Two steps: one to all that is at or below the elements so far, one to its children.
      have hbelow := (hlocation.slashAxis .descendantOrSelf).any.map fun _ h => .steps h
      have hchild : Opens (start ++ e.render ++ "/descendant-or-self::*/") _ .child :=
        hbelow.slash.as (by simp [Axis.name])
      exact ⟨_, _, step, opens_join hchild hpath, hright.join _ _, rfl⟩
  | child => exact ⟨_, _, step, opens_join hlocation.slash hpath, hright.join _ _, rfl⟩
  | laterSibling => exact ⟨_, _, step, opens_join hsibling hpath, hright.join _ _, rfl⟩
  | nextSibling =>
      have hposition : Written (.expr 2) "position() = 1"
          (.binary .eq (.apply "position" []) (.number "1")) := by
        have heq := (written_callEmpty "position" (by decide)).ofFiltered.eq
          (written_number "1" (by decide) (by decide)).ofFiltered
        exact heq.as (by simp)
      -- The position is asked last, among the elements of all names.
      have hdesc := (hright.join e "/following-sibling::").addNameTest.addCondition hposition
      refine ⟨_, _, _, ?_, hdesc, rfl⟩
      show Opens (start ++ (Expr.addNameTest _).path) _ _
      rw [Expr.addNameTest]
      split <;> exact opens_join hsibling hpath

end LeadsTo

/-- A chain grows at its end, and leads to the location path that `Compiler.path` gives. -/
theorem complex_leadsTo {compiler : Compiler} {c : Complex} {e : Expr} (axis : Axis)
    (h : compiler.complex c = .ok e) :
    LeadsTo (axis.name ++ "::") e (compiler.path axis c) := by
  obtain ⟨first, hfirst, h⟩ := exists_of_bind_eq_ok h
  have hstart : LeadsTo (axis.name ++ "::") first ((compiler.step c.head).on .context axis) :=
    ⟨_, _, _, (opens_axis axis).as (by simp [compound_path hfirst]), compound_describes hfirst, rfl⟩
  rw [Compiler.path]
  generalize (compiler.step c.head).on .context axis = path at hstart
  -- The chain grows at its end, so the induction is for any path that is built so far.
  generalize c.tail = tail at h ⊢
  clear hfirst
  induction tail generalizing first path with
  | nil =>
      cases h
      exact hstart
  | cons link tail ih =>
      obtain ⟨combinator, next⟩ := link
      obtain ⟨e', he', h⟩ := exists_of_foldlM_cons_eq_ok h
      obtain ⟨right, hright, he'⟩ := exists_of_bind_eq_ok he'
      cases he'
      exact ih _ _
        (hstart.attach combinator (compound_describes hright) (compound_path hright)) h

/-- **What the compiler writes for a chain** behind an axis is the location path
that `Compiler.path` gives, whatever may follow it. -/
theorem complex_written {compiler : Compiler} {c : Complex} {e : Expr} (axis : Axis)
    (h : compiler.complex c = .ok e) :
    Written .steps (axis.name ++ "::" ++ e.render) (compiler.path axis c) :=
  (complex_leadsTo axis h).written

/-- A chain behind the usual axis is written as its path. -/
theorem complex_written_default {compiler : Compiler} {c : Complex} {e : Expr}
    (h : compiler.complex c = .ok e) :
    Written .steps (Compiler.defaultAxis ++ e.render) (compiler.path .descendantOrSelf c) :=
  (complex_written .descendantOrSelf h).as (by simp [Compiler.defaultAxis, Axis.name])

end XPathLocator.Css
