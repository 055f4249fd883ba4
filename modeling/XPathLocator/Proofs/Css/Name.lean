import XPathLocator.Proofs.Css.Trailing

/-!
# `XPathLocator.Proofs.Css.Name`: the spellings of a name

A name has as many spellings as there are pieces for each of its characters. `tokenize_spelling`
says that they all are one token, and that the text behind is split into tokens as if it stood
alone, but for the positions. It is an identifier if the first pieces may start one
(`Piece.StartsIdent`), and behind a `#` every name may stand.

The pieces must fit together. Digits behind a backslash run on into a digit of the next character,
and a white-space character behind them is lost, so a piece that ends in digits asks for what stands
behind it (`Escape.EndsAt`), in the name or at its end.
-/

set_option autoImplicit false

namespace XPathLocator.Css

open Text (isBlank utf8Length)
open Piece (textOf valueOf EachBefore InName)

/-! ### Starts -/

namespace Piece

/-- A letter or an escape. -/
def Starts : Piece → Prop
  | .plain c => isNameStart c
  | .escaped _ => True
  | .lineFeed => False

/-- Pieces that may start an identifier: a letter or an escape, or a hyphen with one of these or a
second hyphen behind it. -/
def StartsIdent : List Piece → Prop
  | [] => False
  | p :: ps => p.Starts ∨ p = .plain '-' ∧ ∃ q ∈ ps.head?, q.Starts ∨ q = .plain '-'

end Piece

variable {ps : List Piece} {rest : List Char}

/-- Pieces of a name start a name. -/
theorem startsName_pieces {p : Piece} (h : EachBefore InName rest (p :: ps)) :
    startsName (textOf (p :: ps) ++ rest) := by
  obtain ⟨hp, _⟩ := h
  rw [Piece.textOf_cons, List.append_assoc]
  cases p with
  | plain c =>
      show startsName (c :: (textOf ps ++ rest))
      rw [startsName, hp.1, Bool.true_or]
  | escaped e =>
      show startsName ('\\' :: (e.text ++ (textOf ps ++ rest)))
      rw [startsName, startsEscape_text hp, Bool.or_true]
  | lineFeed => exact hp.elim

/-- A piece that starts an identifier starts with no digit and no hyphen. -/
theorem Piece.Starts.text_eq_cons {p : Piece} (h : p.Starts) :
    ∃ c s, p.text = c :: s ∧ c.isDigit = false ∧ c ≠ '-' := by
  cases p with
  | plain c =>
      refine ⟨c, [], rfl, Bool.eq_false_iff.mpr fun hdigit => ?_, ?_⟩
      · rw [Starts, not_isNameStart_of_isDigit hdigit] at h
        cases h
      · rintro rfl
        have hhyphen : isNameStart '-' = true := h
        exact absurd hhyphen (by decide)
  | escaped e => exact ⟨'\\', e.text, rfl, by decide, by decide⟩
  | lineFeed => exact h.elim

/-- Pieces that start an identifier do so in front of any text. -/
theorem startsIdent_pieces (h : EachBefore InName rest ps) (hstart : Piece.StartsIdent ps) :
    startsIdent (textOf ps ++ rest) := by
  cases ps with
  | nil => exact hstart.elim
  | cons p ps =>
      rcases hstart with hp | ⟨rfl, q, hq, hstart⟩
      · obtain ⟨c, s, htext, hdigit, hc⟩ := hp.text_eq_cons
        have hname := startsName_pieces h
        rw [Piece.textOf_cons, htext, List.cons_append, List.cons_append] at hname ⊢
        rwa [startsIdent_of_ne _ hc hdigit]
      · -- Behind a hyphen a name must follow that starts with no digit.
        cases ps with
        | nil => cases hq
        | cons q' ps =>
            cases hq
            have hname := startsName_pieces h.2
            have hdigit : (textOf (q :: ps) ++ rest).head?.any Char.isDigit = false := by
              rw [Piece.textOf_cons]
              rcases hstart with hq | rfl
              · obtain ⟨c, s, htext, hdigit, _⟩ := hq.text_eq_cons
                rw [htext]
                exact hdigit
              · rfl
            show startsIdent ('-' :: (textOf (q :: ps) ++ rest))
            rw [startsIdent_hyphen, hname, hdigit]
            rfl

/-! ### Tokens -/

/-- The first character of a name is no white space. -/
theorem exists_textOf_eq_cons {p : Piece} (h : EachBefore InName rest (p :: ps)) :
    ∃ c w, textOf (p :: ps) = c :: w ∧ isBlank c = false := by
  obtain ⟨hp, _⟩ := h
  rw [Piece.textOf_cons]
  cases p with
  | plain c => exact ⟨c, textOf ps, rfl, hp.2⟩
  | escaped e => exact ⟨'\\', e.text ++ textOf ps, rfl, by decide⟩
  | lineFeed => exact hp.elim

/-- The pieces of an identifier are read as one token, with the name that they stand for. -/
theorem tokens_ident_pieces (position : Nat) (h : EachBefore InName rest ps)
    (hstart : Piece.StartsIdent ps) (hrest : startsName rest = false) :
    tokens position (textOf ps ++ rest) =
      (tokens (position + utf8Length (textOf ps)) rest).map
        (⟨.ident (.ofList (valueOf ps)), position⟩ :: ·) := by
  cases ps with
  | nil => exact hstart.elim
  | cons p ps =>
      obtain ⟨c, w, htext, hblank⟩ := exists_textOf_eq_cons h
      have hident := startsIdent_pieces h hstart
      have hname := name_pieces h hrest
      rw [htext, List.cons_append] at hident hname ⊢
      have hfront := (Fronts.ident hblank hident).front_eq_ok position
      rw [hname] at hfront
      exact tokens_of_front_append hfront

/-- A hash sign and the pieces of a name are read as one token. -/
theorem tokens_hash_pieces (position : Nat) (hps : ps ≠ []) (h : EachBefore InName rest ps)
    (hrest : startsName rest = false) :
    tokens position ('#' :: (textOf ps ++ rest)) =
      (tokens (position + utf8Length ('#' :: textOf ps)) rest).map
        (⟨.hash (.ofList (valueOf ps)), position⟩ :: ·) := by
  have hstarts : startsName (textOf ps ++ rest) := by
    cases ps with
    | nil => exact absurd rfl hps
    | cons p ps => exact startsName_pieces h
  have hfront := (Fronts.hash rfl hstarts).front_eq_ok position
  rw [name_pieces h hrest] at hfront
  exact tokens_of_front_append hfront

/-! ### Selectors -/

/-- **Every spelling of a name is one token with that name.** The text behind it must not go on with
the name. Its tokens follow, as if they stood alone at their position, and so does its error, if it
has one. -/
theorem tokenize_spelling {n : String} (hn : n ≠ "") {ps : List Piece}
    (hvalue : valueOf ps = n.toList) {t : String} (hps : EachBefore InName t.toList ps)
    (ht : startsName t.toList = false) :
    (Piece.StartsIdent ps → tokenize (.ofList (textOf ps) ++ t) =
      (tokens (utf8Length (textOf ps)) t.toList).map (⟨.ident n, 0⟩ :: ·)) ∧
    tokenize ("#" ++ .ofList (textOf ps) ++ t) =
      (tokens (utf8Length ('#' :: textOf ps)) t.toList).map (⟨.hash n, 0⟩ :: ·) := by
  have hname : String.ofList (valueOf ps) = n := by rw [hvalue, String.ofList_toList]
  constructor
  · intro hstart
    have htokens := tokens_ident_pieces 0 hps hstart ht
    rw [hname, Nat.zero_add] at htokens
    simp only [tokenize, String.toList_append, String.toList_ofList]
    exact htokens
  · have hne : ps ≠ [] := by
      rintro rfl
      exact hn (String.toList_eq_nil_iff.mp hvalue.symm)
    have htokens := tokens_hash_pieces 0 hne hps ht
    rw [hname, Nat.zero_add] at htokens
    simp only [tokenize, String.toList_append, String.toList_ofList]
    exact htokens

/-- Digits with a tab behind them, six digits without, and a hyphen, in front of a bracket. -/
theorem tokenize_spelling_escapes :
    let ps : List Piece := [.escaped (.code ['6', '1'] (some '\t')), .plain '1',
      .escaped (.char '-'), .escaped (.code ['0', '0', '0', '0', 'e', '9'] none), .plain 'f']
    "a1-éf" ≠ "" ∧ valueOf ps = "a1-éf".toList ∧ EachBefore InName "[".toList ps ∧
      startsName "[".toList = false ∧ Piece.StartsIdent ps ∧
      tokenize "\\61\t1\\-\\0000e9f[" = .ok [⟨.ident "a1-éf", 0⟩, ⟨.delim '[', 15⟩] ∧
      tokenize "#\\61\t1\\-\\0000e9f[" = .ok [⟨.hash "a1-éf", 0⟩, ⟨.delim '[', 16⟩] := by
  intro ps
  have hn : "a1-éf" ≠ "" := by decide
  have hvalue : valueOf ps = "a1-éf".toList := by decide
  have hps : EachBefore InName "[".toList ps := by
    have htab : isBlank '\t' := by decide
    have htwo : ∀ d ∈ ['6', '1'], d.isHexDigit := List.all_eq_true.mp (by decide)
    have hsix : ∀ d ∈ ['0', '0', '0', '0', 'e', '9'], d.isHexDigit :=
      List.all_eq_true.mp (by decide)
    exact ⟨⟨by decide, by decide, htwo, htab⟩, ⟨by decide, by decide⟩, ⟨by decide, by decide⟩,
      ⟨by decide, by decide, hsix, by decide, .inl rfl⟩, ⟨by decide, by decide⟩, trivial⟩
  have ht : startsName "[".toList = false := by decide
  obtain ⟨hident, hhash⟩ := tokenize_spelling hn hvalue hps ht
  have hstart : Piece.StartsIdent ps := .inl trivial
  refine ⟨hn, hvalue, hps, ht, hstart, ?_, ?_⟩
  · exact (hident hstart).trans (by decide +kernel)
  · exact hhash.trans (by decide +kernel)

end XPathLocator.Css
