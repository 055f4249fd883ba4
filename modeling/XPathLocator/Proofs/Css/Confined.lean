import XPathLocator.Proofs.Css.Written
import XPathLocator.Proofs.XPath.Reader

/-!
# `XPathLocator.Proofs.Css.Confined`: the strings of a selector in its XPath

Names and values of a selector are arbitrary strings, and the compiler writes
them into an XPath. `Confined texts e` says where strings stand in the tree `e`: a
string is the value of a literal, or of the `concat` that stands for one, or it is
a name test of plain form. Everything else in a tree, its functions, its numbers
and its other name tests, is from a fixed stock, and operators, steps and
predicates are constructors, which hold no string.

`Compiler.path` is confined to the texts of its selector (`path_confined`), and
the compiled text is an XPath with these paths and no other reading
(`compile_parses`).
-/

set_option autoImplicit false

namespace XPathLocator.Css

open XPath

/-- A string of a selector in the form in which its tree may hold it. -/
inductive SourceText
  /-- A value, which only literals hold. -/
  | value (v : String)
  /-- A name, which is a literal or a plain name test. -/
  | name (n : String)
deriving DecidableEq, Repr

/-- The words that the compiler writes as literals of its own. -/
def words : List String :=
  [" ", "a", "link", "area", "input", "command", "checkbox", "radio", "option"]

/-- The attributes that the compiler asks for by itself. -/
def ownAttributes : List String :=
  ["id", "class", "href", "checked", "selected", "type", "disabled"]

/-- The functions that the compiler calls. -/
def functions : List String :=
  ["name", "string", "concat", "contains", "starts-with", "substring", "string-length",
   "normalize-space", "count", "position", "not"]

/-- The node tests that a tree with these texts may hold. -/
inductive ConfinedTest (texts : List SourceText) : NodeTest → Prop
  | any : ConfinedTest texts .any
  | node : ConfinedTest texts (.type .node)
  | own {n : String} (h : n ∈ ownAttributes) : ConfinedTest texts (.name (.ofName n))
  | plain {n : String} (h : .name n ∈ texts) (hn : isPlainName n) :
      ConfinedTest texts (.name (.ofName n))

/-- The numbers that a tree with these texts may hold: none and one, and the
lengths of values without their last character. -/
def ConfinedNumber (texts : List SourceText) (digits : String) : Prop :=
  digits = "0" ∨ digits = "1" ∨ ∃ v, .value v ∈ texts ∧ digits = toString (v.length - 1)

/-- A tree whose strings are texts of a selector, and only where a string can do
no harm. -/
inductive Confined (texts : List SourceText) : Tree → Prop
  | context : Confined texts .context
  | step {base : Tree} {axis : Axis} {test : NodeTest} {predicates : List Tree}
      (hbase : Confined texts base) (htest : ConfinedTest texts test)
      (hpredicates : ∀ p ∈ predicates, Confined texts p) :
      Confined texts (.step base axis test predicates)
  | binary {left right : Tree} (op : Operator) (hleft : Confined texts left)
      (hright : Confined texts right) : Confined texts (.binary op left right)
  | apply {function : String} {arguments : List Tree} (h : function ∈ functions)
      (harguments : ∀ a ∈ arguments, Confined texts a) :
      Confined texts (.apply function arguments)
  | number {digits : String} (h : ConfinedNumber texts digits) : Confined texts (.number digits)
  | word {v : String} (h : v ∈ words) : Confined texts (.literal v)
  | value {v : String} (h : .value v ∈ texts) : Confined texts (Literal.tree v)
  | name {n : String} (h : .name n ∈ texts) : Confined texts (Literal.tree n)

/-! ### The texts of a selector -/

/-- The values that an attribute selector compares with: its own, between blanks
where words are asked for, and with a hyphen behind it where that may follow. -/
def valueTexts : Option (AttributeOp × String) → List SourceText
  | none => []
  | some (.includes, value) => [.value (" " ++ value ++ " ")]
  | some (.dashMatch, value) => [.value value, .value (value ++ "-")]
  | some (_, value) => [.value value]

namespace Compiler

/-- The element name of a compound, as the documents have it. -/
def elementTexts (compiler : Compiler) (name : Option String) : List SourceText :=
  [.name (compiler.normalName (name.getD "*"))]

mutual

/-- The texts of a simple selector. -/
def texts (compiler : Compiler) : Simple → List SourceText
  | .id name => [.value name]
  | .ofClass name => [.value (" " ++ name ++ " ")]
  | .attribute name test => .name (compiler.normalName name) :: valueTexts test
  | .pseudo _ => []
  | .contains text => [.value text]
  | .not name simples => compiler.elementTexts name ++ compiler.allTexts simples

/-- The texts of some simple selectors. -/
def allTexts (compiler : Compiler) : List Simple → List SourceText
  | [] => []
  | simple :: rest => compiler.texts simple ++ compiler.allTexts rest

end

/-- The texts of a compound. -/
def compoundTexts (compiler : Compiler) (c : Compound) : List SourceText :=
  compiler.elementTexts c.element ++ compiler.allTexts c.simples

/-- The texts of a chain. -/
def complexTexts (compiler : Compiler) (c : Complex) : List SourceText :=
  compiler.compoundTexts c.head ++ c.tail.flatMap fun (_, next) => compiler.compoundTexts next

end Compiler

/-! ### Conditions -/

section Conditions

variable {texts : List SourceText}

/-- The condition that never holds has no string. -/
theorem confined_never : Confined texts (.number never) :=
  .number (.inl rfl)

/-- A call of one of the fixed functions is confined if its argument is. -/
theorem confined_apply₁ {f : String} {a : Tree} (h : f ∈ functions)
    (ha : Confined texts a) : Confined texts (.apply f [a]) :=
  .apply h fun _ hx => List.mem_singleton.mp hx ▸ ha

/-- The same for two arguments. -/
theorem confined_apply₂ {f : String} {a b : Tree} (h : f ∈ functions)
    (ha : Confined texts a) (hb : Confined texts b) : Confined texts (.apply f [a, b]) := by
  refine .apply h fun x hx => ?_
  rcases List.mem_cons.mp hx with rfl | hx
  · exact ha
  · exact List.mem_singleton.mp hx ▸ hb

/-- A step from the node in focus is confined if its node test is. -/
theorem confined_along {test : NodeTest} (axis : Axis) (h : ConfinedTest texts test) :
    Confined texts (.along axis test) :=
  .step .context h nofun

/-- A test of a name holds that name in a literal. -/
theorem confined_nameTree {n : String} (h : .name n ∈ texts) : Confined texts (nameTree n) :=
  .binary .eq (.apply (by decide) nofun) (.name h)

/-- The path to one of the fixed attributes has no string of the selector. -/
theorem confined_attrTree {n : String} (h : n ∈ ownAttributes) : Confined texts (attrTree n) :=
  confined_along .attributes (.own h)

/-- The path to an attribute holds its name, as a name test or in a literal. -/
theorem confined_attrPath {compiler : Compiler} {name : String}
    (h : .name (compiler.normalName name) ∈ texts) : Confined texts (compiler.attrPath name) := by
  rw [Compiler.attrPath]
  split
  · next hplain => exact confined_along .attributes (.plain h hplain)
  · exact .step .context .any fun _ hx => List.mem_singleton.mp hx ▸ confined_nameTree h

/-- The search for a word holds the word with a space on each side. -/
theorem confined_includesTree {attr : Tree} {word : String} (hattr : Confined texts attr)
    (h : .value (" " ++ word ++ " ") ∈ texts) : Confined texts (includesTree attr word) := by
  rw [includesTree]
  split
  · exact confined_never
  · refine .binary .and hattr (confined_apply₂ (by decide) (.apply (by decide) ?_) (.value h))
    have hblank : Confined texts (.literal " ") := .word (by decide)
    have hspaced := confined_apply₁ (f := "normalize-space") (by decide) hattr
    simp only [List.mem_cons, List.not_mem_nil, or_false]
    rintro x (rfl | rfl | rfl)
    · exact hblank
    · exact hspaced
    · exact hblank

/-- The test of an attribute holds the value that it is compared with. -/
theorem confined_attributeTree {attr : Tree} {test : Option (AttributeOp × String)}
    (hattr : Confined texts attr) (h : ∀ t ∈ valueTexts test, t ∈ texts) :
    Confined texts (attributeTree attr test) := by
  match test with
  | none => exact hattr
  | some (.equals, value) => exact .binary .eq hattr (.value (h _ (.head _)))
  | some (.includes, value) => exact confined_includesTree hattr (h _ (.head _))
  | some (.dashMatch, value) =>
      have hstarts := confined_apply₂ (f := "starts-with") (by decide) hattr
        (.value (h _ (.tail _ (.head _))))
      exact .binary .and hattr (.binary .or (.binary .eq hattr (.value (h _ (.head _)))) hstarts)
  | some (.startsWith, value) =>
      rw [attributeTree]
      split
      · exact confined_never
      · exact .binary .and hattr (confined_apply₂ (by decide) hattr (.value (h _ (.head _))))
  | some (.endsWith, value) =>
      have hvalue : .value value ∈ texts := h _ (.head _)
      rw [attributeTree]
      split
      · exact confined_never
      · have hlength := confined_apply₁ (f := "string-length") (by decide) hattr
        have hstart := hlength.binary .minus (.number (.inr (.inr ⟨value, hvalue, rfl⟩)))
        have hend := confined_apply₂ (f := "substring") (by decide) hattr hstart
        exact .binary .and hattr (.binary .eq hend (.value hvalue))
  | some (.contains, value) =>
      rw [attributeTree]
      split
      · exact confined_never
      · exact .binary .and hattr (confined_apply₂ (by decide) hattr (.value (h _ (.head _))))

/-- A count holds what its path does, and a fixed number. -/
theorem confined_countTree {path : Tree} {d : String} (h : Confined texts path)
    (hd : ConfinedNumber texts d) : Confined texts (countTree path d) :=
  .binary .eq (confined_apply₁ (by decide) h) (.number hd)

/-- A place among the siblings of one name holds what the node test does. -/
theorem confined_typePlaceTree {test : NodeTest} (h : ConfinedTest texts test)
    (place : TypePlace) : Confined texts (typePlaceTree test place) := by
  cases place with
  | first => exact confined_countTree (confined_along _ h) (.inl rfl)
  | last => exact confined_countTree (confined_along _ h) (.inl rfl)
  | only =>
      exact confined_countTree (.step (confined_along .parent .any) h nofun) (.inr (.inl rfl))

/-- A choice among the compiler's own words. -/
theorem confined_oneOf {e : Tree} {first : String} {more : List String}
    (he : Confined texts e) (h : ∀ v ∈ first :: more, v ∈ words) :
    Confined texts (oneOf e first more) := by
  have hword : ∀ v ∈ first :: more, Confined texts (.binary .eq e (.literal v)) :=
    fun v hv => .binary .eq he (.word (h v hv))
  rw [oneOf]
  have hfirst := hword first List.mem_cons_self
  have hmore : ∀ v ∈ more, Confined texts (.binary .eq e (.literal v)) :=
    fun v hv => hword v (List.mem_cons_of_mem _ hv)
  clear h hword
  -- The choice grows at its end, so the induction is for any choice that is confined.
  generalize Tree.binary .eq e (.literal first) = t at hfirst
  induction more generalizing t with
  | nil => exact hfirst
  | cons v more ih =>
      exact ih (fun w hw => hmore w (List.mem_cons_of_mem _ hw)) _
        (.binary .or hfirst (hmore v List.mem_cons_self))

/-- A pseudo-class without an argument holds what the node test does. -/
theorem confined_pseudoTree {test : NodeTest} (h : ConfinedTest texts test) (p : Pseudo) :
    Confined texts (pseudoTree test p) := by
  have hname : Confined texts (.apply "name" [.self]) :=
    confined_apply₁ (by decide) (confined_along .self .node)
  cases p with
  | root => exact confined_apply₁ (by decide) (confined_along .parent .any)
  | firstChild => exact confined_typePlaceTree .any .first
  | lastChild => exact confined_typePlaceTree .any .last
  | onlyChild => exact confined_typePlaceTree .any .only
  | ofType place => exact confined_typePlaceTree h place
  | empty =>
      exact .binary .and (confined_apply₁ (by decide) (confined_along .child .any))
        (confined_apply₁ (by decide) (.apply (by decide) nofun))
  | link =>
      exact .binary .and (confined_attrTree (by decide)) (confined_oneOf hname (by decide))
  | checked =>
      have hattr : ∀ n ∈ ownAttributes, Confined texts (attrTree n) := fun _ hn =>
        confined_attrTree hn
      have hnames : Confined texts (oneOf (.apply "name" [.self]) "input" ["command"]) :=
        confined_oneOf hname (by decide)
      have htypes : Confined texts (oneOf (attrTree "type") "checkbox" ["radio"]) :=
        confined_oneOf (hattr _ (by decide)) (by decide)
      have hinput := ((hattr "checked" (by decide)).binary .and hnames).binary .and htypes
      have hoption := (hattr "selected" (by decide)).binary .and
        (hname.binary .eq (.word (v := "option") (by decide)))
      exact hinput.binary .or hoption
  | disabled => exact confined_attrTree (by decide)
  | enabled => exact confined_apply₁ (by decide) (confined_attrTree (by decide))
  | interaction => exact confined_never

end Conditions

/-! ### Steps and paths -/

/-- A step whose trees are confined. -/
structure ConfinedStep (texts : List SourceText) (step : Step) : Prop where
  test : ∀ n ∈ step.test, .name n ∈ texts ∧ isPlainName n
  condition : ∀ c ∈ step.condition, Confined texts c

namespace ConfinedStep

variable {texts : List SourceText} {step : Step}

/-- The node test of a confined step is confined. -/
theorem nodeTest (h : ConfinedStep texts step) : ConfinedTest texts (nodeTest step.test) := by
  cases hstep : step.test with
  | none => exact .any
  | some n => exact .plain (h.test n hstep).1 (h.test n hstep).2

/-- A confined step with one more confined condition is confined. -/
theorem addCondition (h : ConfinedStep texts step) {c : Tree} (hc : Confined texts c) :
    ConfinedStep texts (step.addCondition c) := by
  refine ⟨h.test, fun c' hc' => ?_⟩
  cases hstep : step.condition with
  | none =>
      rw [Step.addCondition, hstep] at hc'
      exact Option.some.inj hc' ▸ hc
  | some c₀ =>
      rw [Step.addCondition, hstep] at hc'
      exact Option.some.inj hc' ▸ (h.condition c₀ hstep).binary .and hc

/-- The name test in the place of the node test holds the same name. -/
theorem addNameTest (h : ConfinedStep texts step) : ConfinedStep texts step.addNameTest := by
  rw [Step.addNameTest]
  cases hstep : step.test with
  | none => exact h
  | some n =>
      have hname := h.addCondition (confined_nameTree (h.test n hstep).1)
      exact ⟨by simp, hname.condition⟩

/-- A step behind a confined path. -/
theorem on (h : ConfinedStep texts step) {base : Tree} (hbase : Confined texts base)
    (axis : Axis) : Confined texts (step.on base axis) :=
  .step hbase h.nodeTest fun p hp => h.condition p (Option.mem_toList.mp hp)

end ConfinedStep

/-- The step for an element name holds the name. -/
theorem confinedStep_stepOf {compiler : Compiler} {texts : List SourceText}
    {name : Option String} (h : ∀ t ∈ compiler.elementTexts name, t ∈ texts) :
    ConfinedStep texts (compiler.stepOf name) := by
  have hname := h _ List.mem_cons_self
  rw [Compiler.stepOf]
  generalize compiler.normalName (name.getD "*") = n at hname
  split
  · exact ⟨by simp, by simp⟩
  · split
    · next hplain => exact ⟨fun m hm => Option.some.inj hm ▸ ⟨hname, hplain⟩, by simp⟩
    · exact ⟨by simp, fun c hc => Option.some.inj hc ▸ confined_nameTree hname⟩

mutual

/-- What a simple selector demands is confined to its texts. -/
theorem demand_confined {compiler : Compiler} {texts : List SourceText} {test : NodeTest}
    (ht : ConfinedTest texts test) :
    (simple : Simple) → (∀ t ∈ compiler.texts simple, t ∈ texts) →
      Confined texts (compiler.demand test simple)
  | .id name, h => .binary .eq (confined_attrTree (by decide)) (.value (h _ (.head _)))
  | .ofClass name, h => confined_includesTree (confined_attrTree (by decide)) (h _ (.head _))
  | .attribute name value, h =>
      confined_attributeTree (confined_attrPath (h _ (.head _))) fun t ht => h t (.tail _ ht)
  | .pseudo p, _ => confined_pseudoTree ht p
  | .contains value, h =>
      confined_apply₂ (by decide) (confined_apply₁ (by decide) (confined_along .self .node))
        (.value (h _ (.head _)))
  | .not name simples, h => by
      have hstep := narrowed_confined
        (confinedStep_stepOf fun t ht => h t (List.mem_append_left _ ht)) simples
        (fun t ht => h t (List.mem_append_right _ ht))
      rw [Compiler.demand]
      split
      · exact confined_never
      · next c hc => exact confined_apply₁ (by decide) (hstep.addNameTest.condition c hc)

/-- A step stays confined while it is narrowed. -/
theorem narrowed_confined {compiler : Compiler} {texts : List SourceText} {step : Step}
    (hstep : ConfinedStep texts step) :
    (simples : List Simple) → (∀ t ∈ compiler.allTexts simples, t ∈ texts) →
      ConfinedStep texts (compiler.narrowed step simples)
  | [], _ => hstep
  | simple :: rest, h => by
      have hdemand := demand_confined hstep.nodeTest simple
        fun t ht => h t (List.mem_append_left _ ht)
      exact narrowed_confined (hstep.addCondition hdemand) rest
        fun t ht => h t (List.mem_append_right _ ht)

end

/-- The step for a compound holds its strings and no others. -/
theorem step_confined {compiler : Compiler} {texts : List SourceText} {c : Compound}
    (h : ∀ t ∈ compiler.compoundTexts c, t ∈ texts) : ConfinedStep texts (compiler.step c) :=
  narrowed_confined (confinedStep_stepOf fun t ht => h t (List.mem_append_left _ ht)) c.simples
    fun t ht => h t (List.mem_append_right _ ht)

/-- A path with a further step holds what the path and the step do. -/
theorem extend_confined {texts : List SourceText} {left : Tree} {right : Step}
    (hleft : Confined texts left) (combinator : Combinator) (hright : ConfinedStep texts right) :
    Confined texts (Compiler.extend left combinator right) := by
  cases combinator with
  | descendant =>
      have hbelow : Confined texts (.step left .descendantOrSelf .any []) :=
        .step hleft .any nofun
      exact hright.on hbelow .child
  | child => exact hright.on hleft .child
  | nextSibling =>
      have hposition : Confined texts (.binary .eq (.apply "position" []) (.number "1")) :=
        .binary .eq (.apply (by decide) nofun) (.number (.inr (.inl rfl)))
      exact (hright.addNameTest.addCondition hposition).on hleft .followingSibling
  | laterSibling => exact hright.on hleft .followingSibling

/-- The path of a chain is confined to the texts of the chain. -/
theorem path_confined (compiler : Compiler) (axis : Axis) (c : Complex) :
    Confined (compiler.complexTexts c) (compiler.path axis c) := by
  rw [Compiler.path]
  have hstart : Confined (compiler.complexTexts c) ((compiler.step c.head).on .context axis) :=
    (step_confined fun t ht => List.mem_append_left _ ht).on .context axis
  have htail : ∀ link ∈ c.tail, ConfinedStep (compiler.complexTexts c) (compiler.step link.2) :=
    fun link hlink => step_confined fun t ht =>
      List.mem_append_right _ (List.mem_flatMap.mpr ⟨link, hlink, ht⟩)
  generalize (compiler.step c.head).on .context axis = path at hstart
  -- The texts are those of the whole chain, while the path grows link by link.
  generalize compiler.complexTexts c = texts at hstart htail ⊢
  generalize c.tail = tail at htail ⊢
  induction tail generalizing path with
  | nil => exact hstart
  | cons link tail ih =>
      have hlink := htail link List.mem_cons_self
      exact ih _ (extend_confined hstart link.1 hlink)
        fun link hlink => htail link (List.mem_cons_of_mem _ hlink)

/-- A path with a further step is a location path. -/
theorem extend_isLocationPath {left : Tree} (hleft : left.IsLocationPath)
    (combinator : Combinator) (right : Step) :
    (Compiler.extend left combinator right).IsLocationPath := by
  cases combinator with
  | descendant => exact .inr (.inr (.inr (.inr hleft)))
  | child | nextSibling | laterSibling => exact .inr (.inr hleft)

/-- The path of a chain is a location path. -/
theorem path_isLocationPath (compiler : Compiler) (axis : Axis) (c : Complex) :
    (compiler.path axis c).IsLocationPath := by
  rw [Compiler.path]
  have hstart : ((compiler.step c.head).on .context axis).IsLocationPath := .inl rfl
  generalize (compiler.step c.head).on .context axis = path at hstart
  induction c.tail generalizing path with
  | nil => exact hstart
  | cons link tail ih => exact ih _ (extend_isLocationPath hstart link.1 _)

/-! ### Whole selectors -/

/-- Paths with bars between them are a union, grouped to the left. -/
theorem union_written {first : String} {more : List String} {e : Tree} {es : List Tree}
    (hfirst : Written (.expr 7) first e) (hmore : List.Forall₂ (Written .steps) more es) :
    Written (.expr 7) (" | ".intercalate (first :: more)) (.unionOf e es) := by
  rw [intercalate_cons, Tree.unionOf]
  induction hmore generalizing first e with
  | nil => exact hfirst.as (by simp)
  | cons h _ ih =>
      have hunion := Written.binary .union rfl hfirst h.ofSteps
      exact (ih hunion).as (by simp [Operator.text])

/-- A selector that is read has a chain. -/
theorem parse_ne_nil {css : String} {g : Group} (h : parse css = .ok g) : g ≠ [] := by
  rw [parse] at h
  split at h
  · cases h
  · obtain ⟨ts, _, h⟩ := exists_of_bind_eq_ok h
    rw [group] at h
    obtain ⟨⟨first, r⟩, _, h⟩ := exists_of_bind_eq_ok h
    simp only at h
    split at h
    · cases h
      exact List.cons_ne_nil _ _
    · split at h
      · obtain ⟨more, _, h⟩ := exists_of_bind_eq_ok h
        cases h
        exact List.cons_ne_nil _ _
      · cases h

/-- **A compiled selector is an XPath, and its strings stay strings.** The text has
exactly one parse tree: the union of one location path for each selector of the
group, in their order. Each path is what the selector compiles to alone, and it
is confined to the texts of the selector. -/
theorem compile_parses {compiler : Compiler} {css out : String}
    (h : compiler.compile css = .ok out) :
    ∃ g first more, parse css = .ok g ∧
      g.map (compiler.path .descendantOrSelf) = first :: more ∧
      (∀ e, Parses out e ↔ e = .unionOf first more) ∧
      ∀ c ∈ g, (compiler.path .descendantOrSelf c).IsLocationPath ∧
        Confined (compiler.complexTexts c) (compiler.path .descendantOrSelf c) ∧
        ∃ e, compiler.complex c = .ok e ∧
          Parses (Compiler.defaultAxis ++ e.render) (compiler.path .descendantOrSelf c) := by
  obtain ⟨g, hparse, h⟩ := exists_of_bind_eq_ok h
  obtain ⟨texts, htexts, h⟩ := exists_of_bind_eq_ok h
  cases h
  have htext : ∀ {c text},
      (do return Compiler.defaultAxis ++ (← compiler.complex c).render) = Except.ok text →
        ∃ e, compiler.complex c = .ok e ∧ text = Compiler.defaultAxis ++ e.render := by
    intro c text h
    obtain ⟨e, he, h⟩ := exists_of_bind_eq_ok h
    cases h
    exact ⟨e, he, rfl⟩
  have hpaths : List.Forall₂ (Written .steps) texts (g.map (compiler.path .descendantOrSelf)) := by
    refine List.Forall₂.flip (List.forall₂_map_left_iff.mpr ?_)
    refine (forall₂_of_mapM_eq_ok htexts).imp fun c text h => ?_
    obtain ⟨e, he, rfl⟩ := htext h
    exact complex_written_default he
  -- What is written has the tree of the union, and no text has a second tree.
  cases hg : g.map (compiler.path .descendantOrSelf) with
  | nil => exact absurd (List.map_eq_nil_iff.mp hg) (parse_ne_nil hparse)
  | cons first more =>
      rw [hg] at hpaths
      obtain ⟨text, texts, hfirst, hmore, rfl⟩ := List.forall₂_cons_right_iff.mp hpaths
      have hunion := union_written (hfirst.ofSteps.loosen (by decide)) hmore
      have hparses := hunion.parses
      refine ⟨g, first, more, hparse, hg, fun e => ⟨fun he => he.unique hparses, ?_⟩,
        fun c hc => ⟨path_isLocationPath _ _ _, path_confined _ _ _, ?_⟩⟩
      · rintro rfl
        exact hparses
      · obtain ⟨text, htextc⟩ := exists_of_mem_of_mapM_eq_ok htexts hc
        obtain ⟨e, he, _⟩ := htext htextc
        exact ⟨e, he, (complex_written_default he).ofSteps.parses⟩

/-- The element name `div` is also the name of an operator, and `*` is one. -/
theorem compile_parses_div :
    Compiler.compile ⟨true⟩ "div,*" = .ok "descendant-or-self::div | descendant-or-self::*" ∧
      ∃ e, ∀ e', Parses "descendant-or-self::div | descendant-or-self::*" e' ↔ e' = e := by
  have htokens : tokenize "div,*"
      = .ok [⟨.ident "div", 0⟩, ⟨.delim ',', 3⟩, ⟨.delim '*', 4⟩] := by decide +kernel
  have hparse : parse "div,*" = .ok [⟨⟨some "div", []⟩, []⟩, ⟨⟨some "*", []⟩, []⟩] := by
    rw [parse_eq_group (by decide +kernel) htokens]
    with_unfolding_all rfl
  have h : Compiler.compile ⟨true⟩ "div,*"
      = .ok "descendant-or-self::div | descendant-or-self::*" := by
    rw [Compiler.compile, Compiler.compileFrom, hparse]
    decide +kernel
  obtain ⟨_, first, more, _, _, hparses, _⟩ := compile_parses h
  exact ⟨h, _, hparses⟩

end XPathLocator.Css
