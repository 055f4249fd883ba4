import XPathLocator.Proofs.Css.Complete
import XPathLocator.Proofs.Css.Sound

/-!
# `XPathLocator.Proofs.Css.Recognition`: what is a selector, and where it stops being one

The parser accepts the token lists of the grammar and no others (`group_eq_ok_iff`), and
each list makes at most one group. It refuses the others at the first token with which no
selector goes on (`group_unexpected`), so what an error points at is never a token too far
and never one too early.
-/

set_option autoImplicit false

namespace XPathLocator.Css

open Token (Kind)

/-- **The parser decides the grammar.** A token list is read as a group exactly if the
grammar derives that group from it, and it derives no other one. -/
theorem group_eq_ok_iff (ts : List Token) :
    (∀ g, group ts = .ok g ↔ GroupKinds (ts.map Token.kind) g) ∧
      ∀ g g', GroupKinds (ts.map Token.kind) g → GroupKinds (ts.map Token.kind) g' → g = g' := by
  refine ⟨fun g => ⟨groupKinds_of_group ts, fun h => group_eq_ok h rfl⟩, fun g g' h h' => ?_⟩
  have hg := group_eq_ok h rfl
  exact Except.ok.inj (hg.symm.trans (group_eq_ok h' rfl))

/-- The reader of groups fails as the parser does. -/
theorem groupReader_eq_error {ts : List Token} {e : Error} :
    groupReader ts = .error e ↔ group ts = .error e := by
  rw [groupReader]
  cases group ts <;> simp [Except.map]

/-- The tokens are no syntax error: they are a group, or one with a pseudo-class or a
pseudo-element that has no XPath form. -/
def Passes (ts : List Token) : Prop :=
  (∃ g, group ts = .ok g) ∨ ∃ e, e.IsPseudo ∧ group ts = .error e

/-- What can go on in the grammar can go on for the parser. -/
theorem Viable.exists_passes {p : List Token} (h : Viable groupReader GroupKinds p) :
    ∃ us, Passes (p ++ us) := by
  rcases h with ⟨ks, g, hg⟩ | ⟨_, t, e, he, hread⟩
  · refine ⟨ks.map fun k => ⟨k, 0⟩, .inl ⟨g, group_eq_ok hg ?_⟩⟩
    simp [Function.comp_def]
  · refine ⟨[t], .inr ⟨e, he, ?_⟩⟩
    exact groupReader_eq_error.mp (hread [])

/-- An error of the parser that is not about something unsupported is the refusal of a token, or of
the end. -/
theorem exists_refuses_of_group {ts : List Token} {e : Error} (h : group ts = .error e)
    (he : ¬ e.IsPseudo) :
    ∃ p r expected, ts = p ++ r ∧ Refuses groupReader GroupKinds p r expected ∧
      (unexpected r expected : Except Error (Group × List Token)) = .error e := by
  have herror := groupReader_eq_error.mpr h
  cases group_predicts ts with
  | @takes p r g htakes =>
      rw [htakes.eq_ok r rfl] at herror
      cases herror
  | @refuses p r expected hrefuses =>
      rw [hrefuses.eq_unexpected r rfl] at herror
      exact ⟨p, r, expected, rfl, hrefuses, herror⟩
  | unsupported hpseudo hread =>
      rw [hread] at herror
      cases herror
      exact absurd hpseudo he

/-- **Syntax errors are at the first token that cannot go on.** The error names a token of
the list, every list with the same tokens up to that one fails in the same way, and with
other tokens from there on there is a list that passes. If the end comes too early, there
are tokens to add. -/
theorem group_unexpected (ts : List Token) :
    (∀ found position expected,
      group ts = .error (.unexpectedToken found position expected) →
        ∃ p t r, ts = p ++ t :: r ∧ found = t.describe ∧ position = t.position ∧
          (∀ us, group (p ++ t :: us) = .error (.unexpectedToken found position expected)) ∧
          ∃ us, Passes (p ++ us)) ∧
      ∀ expected, group ts = .error (.unexpectedEnd expected) → ∃ us, Passes (ts ++ us) := by
  -- A refusal at a token names the token, and one at the end says that there is none. In either
  -- case what was read before can be completed.
  refine ⟨fun found position expected h => ?_, fun expected h => ?_⟩
  · obtain ⟨p, r, x, rfl, hrefuses, herror⟩ := exists_refuses_of_group h id
    cases r with
    | nil => cases herror
    | cons t r =>
        cases herror
        refine ⟨p, t, r, rfl, rfl, rfl, fun us => ?_, hrefuses.viable.exists_passes⟩
        exact groupReader_eq_error.mp (hrefuses.eq_unexpected (t :: us) rfl)
  · obtain ⟨p, r, x, rfl, hrefuses, herror⟩ := exists_refuses_of_group h id
    cases r with
    | nil =>
        rw [List.append_nil]
        exact hrefuses.viable.exists_passes
    | cons t r => cases herror

/-- The bracket in the selector `a > )`, and the end of `a > `. -/
theorem group_unexpected_parenthesis :
    (group [⟨.ident "a", 0⟩, ⟨.blank, 1⟩, ⟨.delim '>', 2⟩, ⟨.blank, 3⟩, ⟨.delim ')', 4⟩] =
        .error (.unexpectedToken ")" 4 .selectorAfterCombinator) ∧
      ∃ p t r, [⟨.ident "a", 0⟩, ⟨.blank, 1⟩, ⟨.delim '>', 2⟩, ⟨.blank, 3⟩, ⟨.delim ')', 4⟩] =
          p ++ t :: r ∧ ")" = t.describe ∧ 4 = t.position ∧
        (∀ us, group (p ++ t :: us) =
          .error (.unexpectedToken ")" 4 .selectorAfterCombinator)) ∧
        ∃ us, Passes (p ++ us)) ∧
    group [⟨.ident "a", 0⟩, ⟨.blank, 1⟩, ⟨.delim '>', 2⟩, ⟨.blank, 3⟩] =
        .error (.unexpectedEnd .selectorAfterCombinator) ∧
      ∃ us, Passes ([⟨.ident "a", 0⟩, ⟨.blank, 1⟩, ⟨.delim '>', 2⟩, ⟨.blank, 3⟩] ++ us) := by
  have htoken : group [⟨.ident "a", 0⟩, ⟨.blank, 1⟩, ⟨.delim '>', 2⟩, ⟨.blank, 3⟩,
      ⟨.delim ')', 4⟩] = .error (.unexpectedToken ")" 4 .selectorAfterCombinator) := by
    with_unfolding_all rfl
  have hend : group [⟨.ident "a", 0⟩, ⟨.blank, 1⟩, ⟨.delim '>', 2⟩, ⟨.blank, 3⟩] =
      .error (.unexpectedEnd .selectorAfterCombinator) := by with_unfolding_all rfl
  exact ⟨⟨htoken, (group_unexpected _).1 _ _ _ htoken⟩, hend, (group_unexpected _).2 _ hend⟩

end XPathLocator.Css
