import XPathLocator.Proofs.Css.Confined
import XPathLocator.Proofs.Css.Lexeme

/-!
# `XPathLocator.Proofs.Css.Union`: selectors with commas between them

The text of two selectors with a comma between them is a selector again, and its XPath is the
union of theirs (`compileFrom_comma`). For a comma keeps the tokens on both sides apart, and in the
grammar it stands where a group may end (`GroupKinds.append`).

The one text that would go on into the comma is an open backslash. It is a token, and no
selector has that token (`GroupKinds.noBackslash`).
-/

set_option autoImplicit false

namespace XPathLocator.Css

open Token (Kind)

/-! ### The grammar -/

/-- White space has no backslash. -/
theorem Blanks.noBackslash {b : List Kind} (hb : Blanks b) : NoBackslash b :=
  fun h => absurd (hb _ h) (by simp)

/-- An element name has no backslash of its own. -/
theorem ElementKinds.noBackslash {es : List Kind} {element : Option String}
    (h : ElementKinds es element) : NoBackslash es := by
  cases h <;> simp [NoBackslash]

/-- An attribute selector has no backslash: neither its operator nor its value is one. -/
theorem AttributeKinds.noBackslash {as : List Kind} {s : Simple} (h : AttributeKinds as s) :
    NoBackslash as := by
  cases h with
  | bare name h₁ h₂ =>
      simp [noBackslash_append, noBackslash_cons, noBackslash_nil, h₁.noBackslash, h₂.noBackslash]
  | @test b₁ b₂ b₃ b₄ ops op k value name h₁ h₂ hop h₃ hvalue h₄ =>
      have hops : NoBackslash ops := by
        cases hop with
        | equals => simp [NoBackslash]
        | other h =>
            rw [noBackslash_cons]
            refine ⟨?_, by simp [NoBackslash]⟩
            rintro ⟨⟩
            cases h
      have hk : k ≠ .delim '\\' := by
        rintro rfl
        cases hvalue
      simp [noBackslash_append, noBackslash_cons, noBackslash_nil, h₁.noBackslash, h₂.noBackslash,
        h₃.noBackslash, h₄.noBackslash, hops, hk]

/-- Simple selectors have no backslash. Induction on the derivation. -/
theorem SimplesKinds.noBackslash {ks : List Kind} {ss : List Simple} (h : SimplesKinds ks ss) :
    NoBackslash ks := by
  induction h with
  | nil => exact noBackslash_nil
  | id name _ ih => simpa [noBackslash_cons] using ih
  | ofClass name _ ih => simpa [noBackslash_cons] using ih
  | attr hattr _ ih => simp [noBackslash_cons, noBackslash_append, hattr.noBackslash, ih]
  | pseudo _ _ ih => simpa [noBackslash_cons] using ih
  | @contains _ _ _ _ _ _ k _ h₁ htext h₂ _ ih =>
      have hk : k ≠ .delim '\\' := by
        rintro rfl
        cases htext
      simp [noBackslash_cons, noBackslash_append, h₁.noBackslash, h₂.noBackslash, hk, ih]
  | not _ h₁ helement _ _ h₂ _ hinner ih =>
      simp [noBackslash_cons, noBackslash_append, h₁.noBackslash, h₂.noBackslash,
        helement.noBackslash, hinner, ih]

/-- A compound has no backslash. -/
theorem CompoundKinds.noBackslash {ks : List Kind} {c : Compound} (h : CompoundKinds ks c) :
    NoBackslash ks := by
  cases h with
  | mk helement hsimples _ =>
      exact noBackslash_append.mpr ⟨helement.noBackslash, hsimples.noBackslash⟩

/-- A combinator has no backslash, since none is a sign. -/
theorem CombinatorKinds.noBackslash {ks : List Kind} {c : Combinator} (h : CombinatorKinds ks c) :
    NoBackslash ks := by
  cases h with
  | descendant hb _ => exact hb.noBackslash
  | @other _ _ c _ h₁ h h₂ =>
      have hc : c ≠ '\\' := by
        rintro rfl
        cases h
      simp [noBackslash_cons, noBackslash_append, h₁.noBackslash, h₂.noBackslash, hc]

/-- The links of a chain have no backslash. -/
theorem LinksKinds.noBackslash {ks : List Kind} {tail : List (Combinator × Compound)}
    (h : LinksKinds ks tail) : NoBackslash ks := by
  induction h with
  | nil => exact noBackslash_nil
  | cons h hnext _ ih => simp [noBackslash_append, h.noBackslash, hnext.noBackslash, ih]

/-- A chain has no backslash. -/
theorem ComplexKinds.noBackslash {ks : List Kind} {c : Complex} (h : ComplexKinds ks c) :
    NoBackslash ks := by
  cases h with
  | mk hhead htail => exact noBackslash_append.mpr ⟨hhead.noBackslash, htail.noBackslash⟩

/-- **A selector has no open backslash.** -/
theorem GroupKinds.noBackslash {ks : List Kind} {g : Group} (h : GroupKinds ks g) :
    NoBackslash ks := by
  induction h with
  | one h₁ hc h₂ => simp [noBackslash_append, h₁.noBackslash, hc.noBackslash, h₂.noBackslash]
  | cons h₁ hc h₂ _ ih =>
      simp [noBackslash_append, noBackslash_cons, h₁.noBackslash, hc.noBackslash, h₂.noBackslash,
        ih]

/-- Where a group ends, it can go on with a comma. -/
theorem GroupKinds.append {ks js : List Kind} {g h : Group} (hg : GroupKinds ks g)
    (hh : GroupKinds js h) : GroupKinds (ks ++ .delim ',' :: js) (g ++ h) := by
  induction hg with
  | one h₁ hc h₂ => simpa using GroupKinds.cons h₁ hc h₂ hh
  | cons h₁ hc h₂ _ ih => simpa using GroupKinds.cons h₁ hc h₂ ih

/-! ### Selectors -/

/-- Selectors with a comma between them are read as they are read alone. -/
theorem parse_comma {a b : String} {g h : Group} (ha : parse a = .ok g) (hb : parse b = .ok h) :
    parse (a ++ "," ++ b) = .ok (g ++ h) := by
  obtain ⟨ks, hks, hg⟩ := (parse_eq_ok_iff a g).mp ha
  obtain ⟨js, hjs, hh⟩ := (parse_eq_ok_iff b h).mp hb
  have htext : (a ++ "," ++ b).toList = a.toList ++ ',' :: b.toList := by simp
  refine (parse_eq_ok_iff _ _).mpr ⟨_, ?_, hg.append hh⟩
  rw [htext]
  exact kinds?_append_punctuation (by decide) (by decide) hks hjs hg.noBackslash

namespace Compiler

variable (compiler : Compiler)

/-- The axis is written once the chains of a selector are compiled. -/
theorem compileFrom_eq_ok_iff {axis css x : String} :
    compiler.compileFrom axis css = .ok x ↔
      ∃ g es, parse css = .ok g ∧ g.mapM compiler.complex = .ok es ∧
        " | ".intercalate (es.map fun e => axis ++ e.render) = x := by
  rw [compileFrom]
  cases parse css with
  | error e =>
      show Except.error e = .ok x ↔ _
      simp
  | ok g =>
      have hpaths := mapM_bind_pure compiler.complex (fun e => axis ++ e.render) g
      show compiler.group axis g = .ok x ↔ _
      rw [group, hpaths]
      cases hes : g.mapM compiler.complex with
      | error e =>
          show Except.error e = .ok x ↔ _
          simp [hes]
      | ok es =>
          show Except.ok _ = Except.ok x ↔ _
          simp [hes]

/-- A selector can be compiled, behind some axis. -/
def Accepts (css : String) : Prop :=
  ∃ axis x, compiler.compileFrom axis css = .ok x

variable {compiler}

/-- Two selectors that are accepted are accepted with a comma between them, and the XPaths are
joined. -/
theorem exists_compileFrom_comma {a b : String} (ha : compiler.Accepts a)
    (hb : compiler.Accepts b) (axis : String) :
    ∃ x y, compiler.compileFrom axis a = .ok x ∧ compiler.compileFrom axis b = .ok y ∧
      compiler.compileFrom axis (a ++ "," ++ b) = .ok (x ++ " | " ++ y) := by
  obtain ⟨_, _, hx⟩ := ha
  obtain ⟨_, _, hy⟩ := hb
  obtain ⟨g, es, hg, hes, _⟩ := compiler.compileFrom_eq_ok_iff.mp hx
  obtain ⟨h, fs, hh, hfs, _⟩ := compiler.compileFrom_eq_ok_iff.mp hy
  -- A separator stands between two lists only if there is something in both.
  have hne : ∀ {g : Group} {es : List XPath.Expr}, g ≠ [] → g.mapM compiler.complex = .ok es →
      es.map (fun e => axis ++ e.render) ≠ [] := by
    intro g es hg hes hnil
    have hlength := (forall₂_of_mapM_eq_ok hes).length_eq
    rw [List.map_eq_nil_iff.mp hnil, List.length_nil] at hlength
    exact hg (List.length_eq_zero_iff.mp hlength)
  refine ⟨_, _, compiler.compileFrom_eq_ok_iff.mpr ⟨g, es, hg, hes, rfl⟩,
    compiler.compileFrom_eq_ok_iff.mpr ⟨h, fs, hh, hfs, rfl⟩,
    compiler.compileFrom_eq_ok_iff.mpr ⟨g ++ h, es ++ fs, parse_comma hg hh, ?_, ?_⟩⟩
  · rw [List.mapM_append, hes, hfs]
    rfl
  · rw [List.map_append, String.intercalate_append_of_ne_nil (hne (parse_ne_nil hg) hes)
      (hne (parse_ne_nil hh) hfs)]

/-- **A comma between selectors makes the union of their XPaths.** Two selectors that compile,
behind whatever axis, compile behind every axis, and so does their text with a comma between
them. The same goes for every list of selectors. -/
theorem compileFrom_comma (compiler : Compiler) (axis : String) :
    (∀ a b, compiler.Accepts a → compiler.Accepts b →
      ∃ x y, compiler.compileFrom axis a = .ok x ∧ compiler.compileFrom axis b = .ok y ∧
        compiler.compileFrom axis (a ++ "," ++ b) = .ok (x ++ " | " ++ y)) ∧
    ∀ selectors, selectors ≠ [] → (∀ css ∈ selectors, compiler.Accepts css) →
      ∃ xs, List.Forall₂ (fun css x => compiler.compileFrom axis css = .ok x) selectors xs ∧
        compiler.compileFrom axis (",".intercalate selectors) = .ok (" | ".intercalate xs) := by
  refine ⟨fun a b ha hb => exists_compileFrom_comma ha hb axis, fun selectors hne hall => ?_⟩
  induction selectors with
  | nil => exact absurd rfl hne
  | cons a rest ih =>
      rw [List.forall_mem_cons] at hall
      obtain ⟨ha, hrest⟩ := hall
      -- A comma is written only in front of another selector.
      by_cases hnil : rest = []
      · obtain ⟨x, _, hx, _⟩ := exists_compileFrom_comma ha ha axis
        subst hnil
        exact ⟨[x], .cons hx .nil, by simpa using hx⟩
      · obtain ⟨xs, hxs, hjoin⟩ := ih hnil hrest
        obtain ⟨x, y, hx, hy, hcomma⟩ := exists_compileFrom_comma ha ⟨axis, _, hjoin⟩ axis
        cases hjoin.symm.trans hy
        have hxs' : xs ≠ [] := by
          rintro rfl
          cases hxs
          exact hnil rfl
        refine ⟨x :: xs, .cons hx hxs, ?_⟩
        rwa [String.intercalate_cons_of_ne_nil hnil, String.intercalate_cons_of_ne_nil hxs']

/-- An escape that may still go on in front of the comma, and a group behind it. -/
theorem compileFrom_comma_escape :
    Compiler.Accepts ⟨true⟩ "a#\\31" ∧ Compiler.Accepts ⟨true⟩ " b ,*" ∧
      ∃ x y, Compiler.compileFrom ⟨true⟩ "//" "a#\\31" = .ok x ∧
        Compiler.compileFrom ⟨true⟩ "//" " b ,*" = .ok y ∧
        Compiler.compileFrom ⟨true⟩ "//" "a#\\31, b ,*" = .ok (x ++ " | " ++ y) ∧
        Compiler.compileFrom ⟨true⟩ "//" "a#\\31, b ,*,a#\\31"
          = .ok (" | ".intercalate [x, y, x]) := by
  have htokens : tokenize "a#\\31" = .ok [⟨.ident "a", 0⟩, ⟨.hash "1", 1⟩] := by decide +kernel
  have hparse : parse "a#\\31" = .ok [⟨⟨some "a", [.id "1"]⟩, []⟩] := by
    rw [parse_eq_group (by decide +kernel) htokens]
    with_unfolding_all rfl
  have hfirst : Compiler.Accepts ⟨true⟩ "a#\\31" :=
    ⟨"", _, compileFrom_eq_ok_iff _ |>.mpr ⟨_, _, hparse, rfl, rfl⟩⟩
  have htokens' : tokenize " b ,*" = .ok [⟨.blank, 0⟩, ⟨.ident "b", 1⟩, ⟨.blank, 2⟩,
      ⟨.delim ',', 3⟩, ⟨.delim '*', 4⟩] := by decide +kernel
  have hparse' : parse " b ,*" = .ok [⟨⟨some "b", []⟩, []⟩, ⟨⟨some "*", []⟩, []⟩] := by
    rw [parse_eq_group (by decide +kernel) htokens']
    with_unfolding_all rfl
  have hsecond : Compiler.Accepts ⟨true⟩ " b ,*" :=
    ⟨"", _, compileFrom_eq_ok_iff _ |>.mpr ⟨_, _, hparse', rfl, rfl⟩⟩
  obtain ⟨hpair, hlist⟩ := compileFrom_comma ⟨true⟩ "//"
  obtain ⟨x, y, hx, hy, hcomma⟩ := hpair _ _ hfirst hsecond
  obtain ⟨xs, hxs, hjoin⟩ := hlist ["a#\\31", " b ,*", "a#\\31"] (List.cons_ne_nil _ _)
    (by simp [hfirst, hsecond])
  obtain ⟨x₁, _, h₁, htwo, rfl⟩ := List.forall₂_cons_left_iff.mp hxs
  obtain ⟨x₂, _, h₂, hone, rfl⟩ := List.forall₂_cons_left_iff.mp htwo
  obtain ⟨x₃, _, h₃, hnone, rfl⟩ := List.forall₂_cons_left_iff.mp hone
  cases hnone
  cases h₁.symm.trans hx
  cases h₂.symm.trans hy
  cases h₃.symm.trans hx
  exact ⟨hfirst, hsecond, x, y, hx, hy, hcomma, hjoin⟩

end Compiler

end XPathLocator.Css
