import XPathLocator.Proofs.Css.Chain
import XPathLocator.Proofs.Css.Identifier

/-!
# `XPathLocator.Proofs.Css.TypeName`: the elements that a name selects

A name alone selects the elements that have it, and negated it selects the others
(`selects_name`). The spelling of the name does not count, since a name is read with all its
escapes resolved (`parse_ident`, `parse_not`). What is written for it is a node test or a
comparison with `name()`, and for both an element is asked for its name (`accepts_stepOf`).

There is one exception. Once it is read, a star that was escaped is no other than the star
that stands for any name, and so `\*` selects every element (`selects_escaped_star`).
-/

set_option autoImplicit false

namespace XPathLocator.Css

open XPath

variable {e n : String}

/-- A selector that is a compound alone selects, in each document, what its step accepts. -/
theorem exists_selects_of_parse (compiler : Compiler) {text : String} {c : Compound} {step : Expr}
    (h : parse text = .ok [⟨c, []⟩]) (hstep : compiler.compound c = .ok step) :
    ∃ x, compiler.compile text = .ok x ∧ ∀ d, ∃ ns, Selects d x ns ∧
      ∀ node, node ∈ ns ↔ ∃ p, node = .tree p ∧ (compiler.step c).Accepts d p := by
  refine ⟨Compiler.defaultAxis ++ step.render, ?_, selects_compound hstep⟩
  rw [compile_of_parse compiler h, hstep]
  rfl

/-- **A name selects the elements that have it**, however it is spelled, and negated it selects
the other ones. -/
theorem selects_name (compiler : Compiler) (h : tokenize e = .ok [⟨.ident n, 0⟩]) (hn : n ≠ "*") :
    ∃ x y, compiler.compile e = .ok x ∧ compiler.compile (":not(" ++ e ++ ")") = .ok y ∧
      ∀ d, ∃ ns ms, Selects d x ns ∧ Selects d y ms ∧
        (∀ node, node ∈ ns ↔
          ∃ p, node = .tree p ∧ d.IsElement p ∧ d.nameOf node = compiler.normalName n) ∧
        ∀ node, node ∈ ms ↔
          ∃ p, node = .tree p ∧ d.IsElement p ∧ d.nameOf node ≠ compiler.normalName n := by
  obtain ⟨x, hx, hselects⟩ := exists_selects_of_parse compiler (parse_ident h) rfl
  obtain ⟨y, hy, hselects'⟩ := exists_selects_of_parse compiler (parse_not h) rfl
  refine ⟨x, y, hx, hy, fun d => ?_⟩
  obtain ⟨ns, hns, hmem⟩ := hselects d
  obtain ⟨ms, hms, hmem'⟩ := hselects' d
  -- The one name that would ask for nothing is `*`.
  have haccepts : ∀ p, (compiler.step ⟨some n, []⟩).Accepts d p ↔
      d.IsElement p ∧ d.nameOf (.tree p) = compiler.normalName n := by
    intro p
    have hname := accepts_stepOf (d := d) compiler n (p := p)
    rwa [or_iff_right hn] at hname
  refine ⟨ns, ms, hns, hms, fun node => ?_, fun node => ?_⟩
  · rw [hmem]
    constructor
    · rintro ⟨p, rfl, hp⟩
      exact ⟨p, rfl, (haccepts p).mp hp⟩
    · rintro ⟨p, rfl, hp⟩
      exact ⟨p, rfl, (haccepts p).mpr hp⟩
  · rw [hmem']
    simp only [accepts_not, haccepts]
    constructor
    · rintro ⟨p, rfl, hp, hnot⟩
      exact ⟨p, rfl, hp, fun hname => hnot ⟨hp, hname⟩⟩
    · rintro ⟨p, rfl, hp, hname⟩
      exact ⟨p, rfl, hp, fun haccepted => hname haccepted.2⟩

/-- A name that starts with an escaped star, in lower case in an HTML document. -/
theorem selects_name_after_star :
    let d : Document := ⟨[.element "*a" [] [.element "b" [] []]]⟩
    tokenize "\\*A" = .ok [⟨.ident "*A", 0⟩] ∧
      ∃ x y ns ms, Compiler.compile ⟨true⟩ "\\*A" = .ok x ∧
        Compiler.compile ⟨true⟩ ":not(\\*A)" = .ok y ∧ Selects d x ns ∧ Selects d y ms ∧
        .tree [0] ∈ ns ∧ .tree [0, 0] ∉ ns ∧ .tree [0] ∉ ms ∧ .tree [0, 0] ∈ ms := by
  intro d
  have htokens : tokenize "\\*A" = .ok [⟨.ident "*A", 0⟩] := by decide +kernel
  have hlower : Compiler.normalName ⟨true⟩ "*A" = "*a" := by decide +kernel
  have houter : d.IsElement [0] ∧ d.nameOf (.tree [0]) = "*a" := ⟨⟨"*a", [], _, rfl⟩, rfl⟩
  have hinner : d.IsElement [0, 0] ∧ d.nameOf (.tree [0, 0]) = "b" := ⟨⟨"b", [], _, rfl⟩, rfl⟩
  obtain ⟨x, y, hx, hy, hselects⟩ := selects_name ⟨true⟩ htokens (by decide)
  obtain ⟨ns, ms, hns, hms, hmem, hmem'⟩ := hselects d
  rw [hlower] at hmem hmem'
  refine ⟨htokens, x, y, ns, ms, hx, hy, hns, hms, ?_, ?_, ?_, ?_⟩
  · exact (hmem _).mpr ⟨[0], rfl, houter⟩
  · intro h
    obtain ⟨_, _, _, hname⟩ := (hmem _).mp h
    rw [hinner.2] at hname
    exact absurd hname (by decide)
  · intro h
    obtain ⟨_, _, _, hname⟩ := (hmem' _).mp h
    exact hname houter.2
  · refine (hmem' _).mpr ⟨[0, 0], rfl, hinner.1, ?_⟩
    rw [hinner.2]
    decide

/-- An escaped star is a name, and yet it selects an element of another name. -/
theorem selects_escaped_star :
    let d : Document := ⟨[.element "a" [] []]⟩
    tokenize "\\*" = .ok [⟨.ident "*", 0⟩] ∧
      ∃ x ns, Compiler.compile ⟨true⟩ "\\*" = .ok x ∧ Selects d x ns ∧ .tree [0] ∈ ns ∧
        d.nameOf (.tree [0]) ≠ Compiler.normalName ⟨true⟩ "*" := by
  intro d
  have htokens : tokenize "\\*" = .ok [⟨.ident "*", 0⟩] := by decide +kernel
  have helement : d.IsElement [0] := ⟨"a", [], [], rfl⟩
  obtain ⟨x, hx, hselects⟩ := exists_selects_of_parse ⟨true⟩ (parse_ident htokens) rfl
  obtain ⟨ns, hns, hmem⟩ := hselects d
  refine ⟨htokens, x, ns, hx, hns, ?_, ?_⟩
  · exact (hmem _).mpr ⟨[0], rfl, (accepts_stepOf _ _).mpr ⟨helement, .inl rfl⟩⟩
  · rw [(normalName_eq_star ⟨true⟩).mpr rfl]
    show "a" ≠ "*"
    decide

end XPathLocator.Css
