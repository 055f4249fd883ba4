import XPathLocator.Proofs.Css.Refusal

/-!
# `XPathLocator.Proofs.Css.LetterCase`: names in upper and lower case

The compiler for HTML documents folds the names of elements and attributes, each where it is
written, and it is the same as folding them all before the selector is compiled.
`Group.rename` is such a change of the names, at every depth, and it touches nothing else:
identifiers, classes, the values of attributes and the texts of `:contains` are no names.

`group_rename` states this for every compiler, the one for XML documents included. There the
change is none. `compileFrom_letterCase` is what follows for selectors, that the case of their
names does not matter to the compiler for HTML documents.
-/

set_option autoImplicit false

namespace XPathLocator.Css

open XPath (Expr nameIs)

/-! ### Renaming -/

mutual

/-- A simple selector with the names of its elements and attributes changed. -/
def Simple.rename (f : String → String) : Simple → Simple
  | .id name => .id name
  | .ofClass name => .ofClass name
  | .attribute name test => .attribute (f name) test
  | .pseudo p => .pseudo p
  | .contains text => .contains text
  | .not element simples => .not (element.map f) (renameAll f simples)

/-- Simple selectors with these names changed. -/
def renameAll (f : String → String) : List Simple → List Simple
  | [] => []
  | simple :: rest => simple.rename f :: renameAll f rest

end

/-- A compound with the names of its elements and attributes changed. -/
def Compound.rename (f : String → String) (c : Compound) : Compound :=
  ⟨c.element.map f, renameAll f c.simples⟩

/-- A chain with these names changed. -/
def Complex.rename (f : String → String) (c : Complex) : Complex :=
  ⟨c.head.rename f, c.tail.map fun link => (link.1, link.2.rename f)⟩

/-- A group with these names changed, those in negations included. -/
def Group.rename (f : String → String) (g : Group) : Group :=
  g.map (Complex.rename f)

/-! ### The compilers -/

/-- The compiler that takes names as they are. -/
def Compiler.forXml : Compiler := ⟨false⟩

/-- The compiler that folds names. -/
def Compiler.forHtml : Compiler := ⟨true⟩

variable (compiler : Compiler)

/-- The compiler for XML makes of a normal name what the other one makes of the name. -/
theorem element_rename (name : Option String) :
    Compiler.forXml.element (name.map compiler.normalName) = compiler.element name := by
  cases name with
  | some n => rfl
  | none =>
      -- Where there is no name a star stands, which is not changed.
      have hstar : Compiler.forXml.element (some (compiler.normalName "*")) =
          compiler.element (some "*") := rfl
      rw [normalName_star] at hstar
      exact hstar

/-- The same for the name of an attribute. -/
theorem attr_rename (name : String) :
    Compiler.forXml.attr (compiler.normalName name) = compiler.attr name :=
  rfl

mutual

/-- A simple selector demands the same when its names are folded before. -/
theorem condition_rename (element : String) :
    (simple : Simple) → Compiler.forXml.condition element (simple.rename compiler.normalName)
      = compiler.condition element simple
  | .id _ => rfl
  | .ofClass _ => rfl
  | .attribute name test => by
      rw [Simple.rename, Compiler.condition, Compiler.condition, attr_rename]
  | .pseudo _ => rfl
  | .contains _ => rfl
  | .not name simples => by
      rw [Simple.rename, Compiler.condition, Compiler.condition, element_rename,
        narrow_rename (compiler.element name) simples]

/-- A step is narrowed in the same way. Its own name is in it already. -/
theorem narrow_rename (e : Expr) :
    (simples : List Simple) → Compiler.forXml.narrow e (renameAll compiler.normalName simples)
      = compiler.narrow e simples
  | [] => rfl
  | simple :: rest => by
      have hrest : ∀ text, Compiler.forXml.narrow (e.addCondition text)
          (renameAll compiler.normalName rest) = compiler.narrow (e.addCondition text) rest :=
        fun text => narrow_rename (e.addCondition text) rest
      rw [renameAll, Compiler.narrow, Compiler.narrow, condition_rename e.element simple]
      simp only [hrest]

end

/-- The same for a compound, by the conditions in it. -/
theorem compound_rename (c : Compound) :
    Compiler.forXml.compound (c.rename compiler.normalName) = compiler.compound c := by
  show Compiler.forXml.narrow (Compiler.forXml.element (c.element.map compiler.normalName))
    (renameAll compiler.normalName c.simples) = compiler.compound c
  rw [element_rename, narrow_rename]
  rfl

/-- The same for a chain, by the compounds in it. -/
theorem complex_rename (c : Complex) :
    Compiler.forXml.complex (c.rename compiler.normalName) = compiler.complex c := by
  rw [Compiler.complex, Compiler.complex, Complex.rename, compound_rename]
  simp only [List.foldlM_map, compound_rename]

/-- **Names can be folded before a selector is compiled.** -/
theorem group_rename (axis : String) (g : Group) :
    Compiler.forXml.group axis (g.rename compiler.normalName) = compiler.group axis g := by
  rw [Compiler.group, Compiler.group, Group.rename]
  simp only [List.mapM_map, Function.comp_def, complex_rename]

/-! ### Selectors -/

/-- **The case of names does not matter in HTML documents.** A selector is compiled for them as its
names in lower case are compiled for XML documents, to the same XPath or to the same error. So two
selectors that are alike but for the case of the names of elements and attributes have one
answer. -/
theorem compileFrom_letterCase :
    (∀ axis g, Compiler.forHtml.group axis g
      = Compiler.forXml.group axis (g.rename String.toLower)) ∧
    ∀ (axis a b : String) (g h : Group), parse a = .ok g → parse b = .ok h →
      g.rename String.toLower = h.rename String.toLower →
        Compiler.forHtml.compileFrom axis a = Compiler.forHtml.compileFrom axis b := by
  have hlower : ∀ axis g, Compiler.forHtml.group axis g
      = Compiler.forXml.group axis (g.rename String.toLower) :=
    fun axis g => (group_rename Compiler.forHtml axis g).symm
  refine ⟨hlower, ?_⟩
  intro axis a b g h ha hb hcase
  rw [Compiler.compileFrom, Compiler.compileFrom, ha, hb]
  show Compiler.forHtml.group axis g = Compiler.forHtml.group axis h
  rw [hlower, hlower, hcase]

/-- Two spellings of the names, in front of a place, in a negation and in brackets. The value keeps
its capital. -/
theorem compileFrom_letterCase_negation :
    let g : Group := [⟨⟨some "LI", [.not (some "A") [.attribute "HRef" (some (.equals, "X"))],
      .pseudo (.ofType .first)]⟩, []⟩]
    let h : Group := [⟨⟨some "li", [.not (some "a") [.attribute "href" (some (.equals, "X"))],
      .pseudo (.ofType .first)]⟩, []⟩]
    parse "LI:not(A[HRef=X]):first-of-type" = .ok g ∧
      parse "li:not(a[href=X]):first-of-type" = .ok h ∧
      g.rename String.toLower = h.rename String.toLower ∧
      Compiler.forHtml.compileFrom "//" "LI:not(A[HRef=X]):first-of-type"
        = Compiler.forHtml.compileFrom "//" "li:not(a[href=X]):first-of-type" := by
  intro g h
  have hupper : tokenize "LI:not(A[HRef=X]):first-of-type" = .ok
      [⟨.ident "LI", 0⟩, ⟨.delim ':', 2⟩, ⟨.ident "not", 3⟩, ⟨.delim '(', 6⟩, ⟨.ident "A", 7⟩,
        ⟨.delim '[', 8⟩, ⟨.ident "HRef", 9⟩, ⟨.delim '=', 13⟩, ⟨.ident "X", 14⟩, ⟨.delim ']', 15⟩,
        ⟨.delim ')', 16⟩, ⟨.delim ':', 17⟩, ⟨.ident "first-of-type", 18⟩] := by decide +kernel
  have hlower : tokenize "li:not(a[href=X]):first-of-type" = .ok
      [⟨.ident "li", 0⟩, ⟨.delim ':', 2⟩, ⟨.ident "not", 3⟩, ⟨.delim '(', 6⟩, ⟨.ident "a", 7⟩,
        ⟨.delim '[', 8⟩, ⟨.ident "href", 9⟩, ⟨.delim '=', 13⟩, ⟨.ident "X", 14⟩, ⟨.delim ']', 15⟩,
        ⟨.delim ')', 16⟩, ⟨.delim ':', 17⟩, ⟨.ident "first-of-type", 18⟩] := by decide +kernel
  have hg : parse "LI:not(A[HRef=X]):first-of-type" = .ok g := by
    rw [parse_eq_group (by decide +kernel) hupper]
    with_unfolding_all rfl
  have hh : parse "li:not(a[href=X]):first-of-type" = .ok h := by
    rw [parse_eq_group (by decide +kernel) hlower]
    with_unfolding_all rfl
  have hli : "LI".toLower = "li".toLower := String.toList_inj.mp (by decide +kernel)
  have ha : "A".toLower = "a".toLower := String.toList_inj.mp (by decide +kernel)
  have hhref : "HRef".toLower = "href".toLower := String.toList_inj.mp (by decide +kernel)
  have hcase : g.rename String.toLower = h.rename String.toLower := by
    simp only [g, h, Group.rename, Complex.rename, Compound.rename, Simple.rename, renameAll,
      List.map_cons, Option.map_some, hli, ha, hhref]
  exact ⟨hg, hh, hcase, compileFrom_letterCase.2 "//" _ _ g h hg hh hcase⟩

end XPathLocator.Css
