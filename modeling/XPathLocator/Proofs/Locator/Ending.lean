import XPathLocator.Proofs.Css.Written
import XPathLocator.Proofs.Engine
import XPathLocator.Proofs.Text.Trim

/-!
# `XPathLocator.Proofs.Locator.Ending`: what an XPath ends in

No XPath that is made here ends in white space. A rule ends in a bracket or a name, in the value
of `tagName`, which is trimmed, or in an axis if nothing is left of that value. A compiled
selector ends in a node test or in the bracket of a predicate. What remains is an XPath that was
supplied: it is the answer as it stands, so it ends as it was given.
-/

set_option autoImplicit false

namespace XPathLocator

open Text (isBlank endsBlank endsBlank_append endsBlank_append_eq_false endsBlank_trim)

/-! ### Texts of XPaths -/

/-- A literal ends in a quote or a bracket. -/
theorem XPath.Literal.endsBlank_ofText (text : String) : endsBlank (ofText text) = false := by
  rw [ofText]
  split
  · rw [endsBlank_append _ (by decide)]
    decide
  split
  all_goals
    rw [endsBlank_append _ (by decide)]
    decide

namespace Css

/-- White space is no letter and no digit. -/
theorem not_isAlphanum_of_isBlank {c : Char} (h : isBlank c) : c.isAlphanum = false := by
  rw [Bool.eq_false_iff]
  intro hc
  rw [Char.isAlphanum, Bool.or_eq_true, Text.isAlpha_iff_toNat, Char.isDigit_iff_toNat] at hc
  change _ ∨ 48 ≤ c.toNat ∧ c.toNat ≤ 57 at hc
  simp only [isBlank, Text.blankRanges, List.any_cons, List.any_nil, Bool.or_eq_true,
    Bool.and_eq_true, decide_eq_true_eq, Bool.or_false] at h
  omega

/-- A name that can stand in an XPath holds no white space. -/
theorem endsBlank_of_isPlainName {n : String} (h : isPlainName n) : endsBlank n = false := by
  have hchar {d : Char} (hd : d.isAlphanum ∨ d = '_' ∨ d = '.' ∨ d = '-') : isBlank d = false := by
    rcases hd with hd | rfl | rfl | rfl
    · rw [Bool.eq_false_iff]
      intro hblank
      rw [not_isAlphanum_of_isBlank hblank] at hd
      cases hd
    all_goals decide
  rw [isPlainName] at h
  split at h
  · cases h
  · next c cs hn =>
    simp only [Bool.and_eq_true, Bool.or_eq_true, decide_eq_true_eq, List.all_eq_true,
      or_assoc] at h
    obtain ⟨hfirst, hmore⟩ := h
    rw [endsBlank, hn]
    -- The last character is the first one or one of those behind it.
    cases hlast : (c :: cs).getLast? with
    | none => rfl
    | some d =>
        refine hchar ?_
        rcases List.mem_cons.mp (List.mem_of_getLast? hlast) with rfl | hd
        · exact hfirst.imp (fun ha => by simp [Char.isAlphanum, ha]) .inl
        · exact hmore d hd

/-- A step is written up to its node test, or up to the bracket of its predicate. -/
theorem Describes.endsBlank_render {e : XPath.Expr} {step : Step} (h : Describes e step) :
    e.render ≠ "" ∧ endsBlank e.render = false := by
  have helement : e.element ≠ "" ∧ endsBlank e.element = false := by
    rw [h.element]
    cases htest : step.test with
    | none => exact ⟨by decide, by decide⟩
    | some n =>
        have hplain := h.plain n htest
        refine ⟨?_, endsBlank_of_isPlainName hplain⟩
        rintro rfl
        exact absurd hplain (by decide)
  rw [XPath.Expr.render]
  split
  · rw [String.append_empty, endsBlank_append _ helement.1]
    exact ⟨by simp [helement.1], helement.2⟩
  · rw [← String.append_assoc, endsBlank_append _ (by decide)]
    exact ⟨by simp, by decide⟩

/-- Texts that end in no white space do not with something between them. -/
theorem endsBlank_intercalate (between : String) {parts : List String}
    (h : ∀ part ∈ parts, part ≠ "" ∧ endsBlank part = false) (hne : parts ≠ []) :
    between.intercalate parts ≠ "" ∧ endsBlank (between.intercalate parts) = false := by
  induction parts with
  | nil => exact absurd rfl hne
  | cons part parts ih =>
      obtain ⟨hpart, hmore⟩ := List.forall_mem_cons.mp h
      cases parts with
      | nil => simpa using hpart
      | cons next rest =>
          obtain ⟨hrest, hblank⟩ := ih hmore (by simp)
          rw [String.intercalate_cons_cons, endsBlank_append _ hrest]
          exact ⟨by simp [hrest], hblank⟩

/-- **What the compiler writes** ends in no white space. -/
theorem endsBlank_compile {compiler : Compiler} {css x : String}
    (h : compiler.compile css = .ok x) : endsBlank x = false := by
  obtain ⟨g, -, hx⟩ := (Compiler.compile_eq_ok_iff compiler css x).mp h
  obtain ⟨paths, hpaths, hx⟩ := exists_of_bind_eq_ok hx
  cases hx
  rcases eq_or_ne paths [] with rfl | hne
  · simp [endsBlank]
  refine (endsBlank_intercalate " | " (fun path hpath => ?_) hne).2
  obtain ⟨c, -, hc⟩ := exists_of_mem_results hpaths hpath
  obtain ⟨e, he, hc⟩ := exists_of_bind_eq_ok hc
  cases hc
  obtain ⟨_, _, step, _, hdescribes, _⟩ := complex_leadsTo .descendantOrSelf he
  obtain ⟨hrender, hblank⟩ := hdescribes.endsBlank_render
  rw [endsBlank_append _ hrender]
  exact ⟨by simp [hrender], hblank⟩

end Css

/-! ### Locators -/

namespace Locator

/-- **An XPath that is made of a value** ends in no white space. -/
theorem endsBlank_toXPath {compiler : Css.Compiler} {policy : MultiKeyPolicy} {l : Locator}
    {x : String} (h : Translator.toXPath ⟨compiler.compile, policy⟩ l = .ok x)
    (hl : l.strategy ≠ .xpath) : endsBlank x = false := by
  have hend {s t : String} (ht : t ≠ "" ∧ endsBlank t = false) : endsBlank (s ++ t) = false := by
    rw [endsBlank_append s ht.1]
    exact ht.2
  obtain ⟨strategy, v⟩ := l
  cases strategy with
  | css =>
      change (compiler.compile (Text.trim v)).mapError Error.invalidCss = .ok x at h
      exact Css.endsBlank_compile ((mapError_eq_ok_iff _ _ _).mp h)
  | tagName =>
      cases h
      exact endsBlank_append_eq_false (by decide) (endsBlank_trim v)
  | xpath => exact absurd rfl hl
  | className | id | name | idOrName | linkText | label | partialLinkText =>
      cases h
      exact hend ⟨by decide, by decide⟩

end Locator

end XPathLocator
