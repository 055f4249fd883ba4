import XPathLocator.Locator.Translator
import XPathLocator.Proofs.Css.Written
import XPathLocator.Proofs.XPath.Reader
import XPathLocator.Proofs.XPath.Template

/-!
# `XPathLocator.Proofs.Locator.Rule`: no value gets out of its literal

A strategy whose values are texts writes one expression with a literal in it. Its template
is the parse tree of that expression with the variable `$value` for the literal
(`Strategy.template?`). `toXPath_put_template` says of any two values that their XPaths
have one parse tree each, and that both are the template, with a literal for the one value
or the other in the places of the variable.

The trees below are given for any expression `a` in the place of the value, so that they
serve for the template and for what is written.
-/

set_option autoImplicit false

namespace XPathLocator.Locator.Rule

open XPath Css

/-! ### The trees -/

/-- The elements at the context node and below it that pass a test and meet conditions. -/
def everywhere (test : NodeTest) (conditions : List Tree) : Tree :=
  .step .context .descendantOrSelf test conditions

/-- The attribute `name` has the value `a`. -/
def attrIs (name : String) (a : Tree) : Tree :=
  .binary .eq (attrTree name) a

/-- The text of an element, with its white space normalized. -/
def textTree : Tree :=
  .apply "normalize-space" [.apply "string" [.self]]

/-- The text of an element is `a`. -/
def textIs (a : Tree) : Tree :=
  .binary .eq textTree a

/-- The tree of `className`. -/
def classTree (a : Tree) : Tree :=
  everywhere .any [.binary .and (attrTree "class") (.apply "contains"
    [.apply "concat" [.literal " ", .apply "normalize-space" [attrTree "class"], .literal " "], a])]

/-- The tree of `id`. -/
def idTree (a : Tree) : Tree :=
  everywhere .any [attrIs "id" a]

/-- The tree of `name`. -/
def nameTree (a : Tree) : Tree :=
  everywhere .any [attrIs "name" a]

/-- The tree of `idOrName`. -/
def idOrNameTree (a : Tree) : Tree :=
  everywhere .any [.binary .or (attrIs "id" a) (attrIs "name" a)]

/-- Links: elements of the name with a target that meet a condition. -/
def links (condition : Tree) : Tree :=
  everywhere (.name (.ofName "a"))
    [.step .self .attributes (.name (.ofName "href")) [], condition]

/-- The tree of `linkText`. -/
def linkTextTree (a : Tree) : Tree :=
  links (textIs a)

/-- The tree of `partialLinkText`. -/
def partialLinkTextTree (a : Tree) : Tree :=
  links (.apply "contains" [textTree, a])

/-- The tree of `label`: the elements with the `id` that a label is for, and the inputs
inside a label. -/
def labelTree (a : Tree) : Tree :=
  .binary .union
    (everywhere .any [.binary .eq (attrTree "id")
      (.step (.step (.anyBelow .root) .child (.name (.ofName "label")) [textIs a])
        .attributes (.name (.ofName "for")) [])])
    (.step (.anyBelow (everywhere (.name (.ofName "label")) [textIs a])) .child
      (.name (.ofName "input")) [])

section Put
variable (x : QName) (a b : Tree)

/-- The path to an attribute has no literal for a value. -/
@[simp]
theorem attrTree_put (name : String) : (attrTree name).put x b = attrTree name :=
  rfl

/-- In a search everywhere the value is put into the conditions. -/
@[simp]
theorem everywhere_put (test : NodeTest) (conditions : List Tree) :
    (everywhere test conditions).put x b = everywhere test (Tree.putAll conditions x b) :=
  rfl

/-- In the test of an attribute the value is put in the place of its literal. -/
@[simp]
theorem attrIs_put (name : String) : (attrIs name a).put x b = attrIs name (a.put x b) :=
  rfl

/-- The text of a node has no literal for a value. -/
@[simp]
theorem textTree_put : textTree.put x b = textTree :=
  rfl

/-- In the test of a text the value is put in the place of its literal. -/
@[simp]
theorem textIs_put : (textIs a).put x b = textIs (a.put x b) :=
  rfl

/-- In a search for links the value is put into the condition. -/
@[simp]
theorem links_put : (links a).put x b = links (a.put x b) :=
  rfl

end Put

/-! ### The texts -/

/-- The axis of every rule waits for the node test of its step. -/
theorem opens_everywhere : Opens axis .context .descendantOrSelf :=
  (opens_axis .descendantOrSelf).as (by simp [axis, Axis.name])

/-- The test of an attribute is written with the value in a literal. -/
theorem attrIs_written (name value : String) (h : isName name.toList) :
    Written (.expr 2) ("@" ++ name ++ " = " ++ Literal.ofText value)
      (attrIs name (Literal.tree value)) :=
  (at_written name h).eqText value

/-- The text of a node, without the white space around it, is written as two calls. -/
theorem text_written : Written .filtered "normalize-space(string(.))" textTree := by
  have hself : Written (.expr 8) "." .self := written_self.map fun _ h => .path h
  have hstring := (hself.argument "string" (by decide)).call
  have htext := (hstring.ofFiltered.argument "normalize-space" (by decide)).call
  exact htext.as (by simp)

/-- The test of a text is written with the value in a literal. -/
theorem textIs_written (value : String) :
    Written (.expr 2) ("normalize-space(string(.)) = " ++ Literal.ofText value)
      (textIs (Literal.tree value)) :=
  (text_written.ofFiltered.eqText value).as (by simp)

/-- The rule for class names is written with the padded value in a literal. -/
theorem className_written (value : String) :
    Written (.expr 0) (className value) (classTree (Literal.tree (" " ++ value ++ " "))) := by
  have hcondition := inSpacedWords_written (at_written "class" (by decide))
    (" " ++ value ++ " ")
  have hstep := opens_everywhere.any.predicate hcondition
  exact hstep.ofSteps.whole.as (by simp [className])

/-- The rule for identifiers is written with the value in a literal. -/
theorem id_written (value : String) :
    Written (.expr 0) (id value) (idTree (Literal.tree value)) := by
  have hstep := opens_everywhere.any.predicate (attrIs_written "id" value (by decide))
  exact hstep.ofSteps.whole.as (by simp [id])

/-- The rule for names is written with the value in a literal. -/
theorem name_written (value : String) :
    Written (.expr 0) (name value) (nameTree (Literal.tree value)) := by
  have hstep := opens_everywhere.any.predicate (attrIs_written "name" value (by decide))
  exact hstep.ofSteps.whole.as (by simp [name])

/-- The rule for identifiers or names is written with the value in two literals. -/
theorem idOrName_written (value : String) :
    Written (.expr 0) (idOrName value) (idOrNameTree (Literal.tree value)) := by
  have hcondition := (attrIs_written "id" value (by decide)).or
    ((attrIs_written "name" value (by decide)).loosen (by decide))
  have hstep := opens_everywhere.any.predicate hcondition
  exact hstep.ofSteps.whole.as (by simp [idOrName])

/-- A search for links is written with any condition on them. -/
theorem links_written {n : Nat} {s : String} {condition : Tree}
    (h : Written (.expr n) s condition) :
    Written (.expr 0) (axis ++ "a[./@href][" ++ s ++ "]") (links condition) := by
  have hhref := (written_self.slashAt.name (n := "href") (by decide)).ofSteps
  have hstep := ((opens_everywhere.name (n := "a") (by decide)).predicate hhref).predicate h
  exact hstep.ofSteps.whole.as (by simp)

/-- The rule for the text of a link is written with the value in a literal. -/
theorem linkText_written (value : String) :
    Written (.expr 0) (linkText value) (linkTextTree (Literal.tree value)) :=
  (links_written (textIs_written value)).as (by simp [linkText])

/-- The rule for a part of the text is written with the value in a literal. -/
theorem partialLinkText_written (value : String) :
    Written (.expr 0) (partialLinkText value) (partialLinkTextTree (Literal.tree value)) := by
  have hcontains := text_written.ofFiltered.callText "contains" value (by decide)
  exact (links_written hcontains.ofFiltered).as (by simp [partialLinkText])

/-- The rule for labels is written with the value in each place where it is compared. -/
theorem label_written (value : String) :
    Written (.expr 0) (label value) (labelTree (Literal.tree value)) := by
  have htext := textIs_written value
  have hlabel := (opens_below.name (n := "label") (by decide)).predicate htext
  have hfor := ((hlabel.map fun _ h => .steps h).slashAt.name (n := "for") (by decide)).ofSteps
  have hid := (at_written "id" (by decide)).eq hfor.group.ofFiltered
  have hleft := opens_everywhere.any.predicate hid
  have hinside := (opens_everywhere.name (n := "label") (by decide)).predicate htext
  have hright := (hinside.map fun _ h => .steps h).slashes.name (n := "input") (by decide)
  have hboth := (hleft.ofSteps.loosen (by decide)).bar hright.ofSteps
  exact hboth.whole.as (by simp [label])

end XPathLocator.Locator.Rule

namespace XPathLocator.Locator

open XPath

/-- The tree of what a strategy writes, by the tree of the literal for the value. Values of
the other strategies are no texts. -/
def Strategy.tree? : Strategy → Option (Tree → Tree)
  | .className => some Rule.classTree
  | .id => some Rule.idTree
  | .name => some Rule.nameTree
  | .idOrName => some Rule.idOrNameTree
  | .linkText => some Rule.linkTextTree
  | .partialLinkText => some Rule.partialLinkTextTree
  | .label => some Rule.labelTree
  | .css | .tagName | .xpath => none

/-- The variable that stands for the value in a template. -/
def valueName : QName := .ofName "value"

/-- The parse tree of what a strategy writes, with `$value` for the literal. -/
def Strategy.template? (s : Strategy) : Option Tree :=
  s.tree?.map fun tree => tree (.reference valueName)

/-- What the literals in the XPath of a strategy denote: the trimmed value, and for a class
with a space on both sides. -/
def Strategy.literalText (s : Strategy) (value : String) : String :=
  if s = .className then " " ++ Text.trim value ++ " " else Text.trim value

/-- The tree for an expression is the template with the expression in its places. -/
theorem Strategy.put_tree {s : Strategy} {tree : Tree → Tree} (h : s.tree? = some tree)
    (a : Tree) : (tree (.reference valueName)).put valueName a = tree a := by
  cases s with
  | css | tagName | xpath => cases h
  | className | id | name | idOrName | linkText | partialLinkText | label =>
      cases h
      simp [Rule.classTree, Rule.idTree, Rule.nameTree, Rule.idOrNameTree, Rule.linkTextTree,
        Rule.partialLinkTextTree, Rule.labelTree, Tree.apply, Tree.anyBelow, Tree.put, Tree.putAll]

/-- What a strategy writes for a value has its tree for the value's literal. -/
theorem Strategy.written {s : Strategy} {tree : Tree → Tree} (h : s.tree? = some tree)
    (t : Translator) (v : String) :
    ∃ x, t.toXPath ⟨s, v⟩ = .ok x ∧ Written (.expr 0) x (tree (Literal.tree (s.literalText v))) := by
  cases s with
  | css | tagName | xpath => cases h
  | className => cases h; exact ⟨_, rfl, Rule.className_written _⟩
  | id => cases h; exact ⟨_, rfl, Rule.id_written _⟩
  | name => cases h; exact ⟨_, rfl, Rule.name_written _⟩
  | idOrName => cases h; exact ⟨_, rfl, Rule.idOrName_written _⟩
  | linkText => cases h; exact ⟨_, rfl, Rule.linkText_written _⟩
  | partialLinkText => cases h; exact ⟨_, rfl, Rule.partialLinkText_written _⟩
  | label => cases h; exact ⟨_, rfl, Rule.label_written _⟩

/-- A value's XPath has one parse tree, the template with a literal for the value. -/
theorem Strategy.exists_literal {s : Strategy} {template : Tree}
    (h : s.template? = some template) (t : Translator) (v : String) :
    ∃ x a, t.toXPath ⟨s, v⟩ = .ok x ∧ a.Denotes (s.literalText v) ∧
      ∀ e, Parses x e ↔ e = template.put valueName a := by
  obtain ⟨tree, htree, rfl⟩ := Option.map_eq_some_iff.mp h
  obtain ⟨x, hx, hwritten⟩ := Strategy.written htree t v
  refine ⟨x, _, hx, Literal.tree_denotes _, fun e => ?_⟩
  rw [Strategy.put_tree htree]
  exact ⟨fun he => he.unique hwritten.parses, fun he => he ▸ hwritten.parses⟩

/-- **No value changes an XPath beyond its literals.** Any two values of a strategy that
takes texts give two XPaths, each with one parse tree. Both trees are the strategy's
template, and in the places for the value stand literals that denote the one value or the
other. -/
theorem toXPath_put_template {s : Strategy}
    (hs : s ∈ [.className, .id, .name, .idOrName, .linkText, .partialLinkText, .label])
    (t : Translator) (v w : String) :
    ∃ template, s.template? = some template ∧ ∃ x y a b,
      t.toXPath ⟨s, v⟩ = .ok x ∧ t.toXPath ⟨s, w⟩ = .ok y ∧
      a.Denotes (s.literalText v) ∧ b.Denotes (s.literalText w) ∧
      (∀ e, Parses x e ↔ e = template.put valueName a) ∧
      ∀ e, Parses y e ↔ e = template.put valueName b := by
  have hsome : ∃ template, s.template? = some template := by
    cases s with
    | css | tagName | xpath => exact absurd hs (by decide)
    | className | id | name | idOrName | linkText | partialLinkText | label => exact ⟨_, rfl⟩
  obtain ⟨template, htemplate⟩ := hsome
  obtain ⟨x, a, hx, ha, hparses⟩ := Strategy.exists_literal htemplate t v
  obtain ⟨y, b, hy, hb, hparses'⟩ := Strategy.exists_literal htemplate t w
  exact ⟨template, htemplate, x, y, a, b, hx, hy, ha, hb, hparses, hparses'⟩

/-- A value with both quotes and blanks around it, and a plain one. -/
theorem toXPath_put_template_quotes :
    let t : Translator := ⟨Css.Compiler.compile ⟨true⟩, .reject⟩
    t.toXPath ⟨.id, " '\" "⟩ = .ok "descendant-or-self::*[@id = concat('', \"'\", '\"')]" ∧
      t.toXPath ⟨.id, "login"⟩ = .ok "descendant-or-self::*[@id = 'login']" ∧
      ∃ x y a b, t.toXPath ⟨.id, " '\" "⟩ = .ok x ∧ t.toXPath ⟨.id, "login"⟩ = .ok y ∧
        a.Denotes "'\"" ∧ b.Denotes "login" ∧
        (∀ e, Parses x e ↔ e = (Rule.idTree (.reference valueName)).put valueName a) ∧
        ∀ e, Parses y e ↔ e = (Rule.idTree (.reference valueName)).put valueName b := by
  intro t
  obtain ⟨template, htemplate, x, y, a, b, hx, hy, ha, hb, hparses, hparses'⟩ :=
    toXPath_put_template (s := .id) (by decide) t " '\" " "login"
  cases htemplate
  have hrule : ∀ v, t.toXPath ⟨.id, v⟩ = .ok (Rule.id (Text.trim v)) := fun _ => rfl
  have htrim : Text.trim " '\" " = "'\"" := by decide +kernel
  refine ⟨?_, by decide +kernel, x, y, a, b, hx, hy, ha, hb, hparses, hparses'⟩
  rw [hrule, htrim, show Rule.id "'\"" = "descendant-or-self::*[@id = concat('', \"'\", '\"')]" by
    decide]

end XPathLocator.Locator
