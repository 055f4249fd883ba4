import XPathLocator.Proofs.Css.Lexeme

/-!
# `XPathLocator.Proofs.Css.Quoted`: strings and their missing quotes

A string is closed if what stands behind its opening quote is made of pieces and the same quote
again (`Closes`). Then it is one token, whatever stands behind (`front_eq_string_iff`). A quote of
the other kind is a piece like any other character, and so is a line break.

Nothing but a string without its closing quote can fail, and it fails where it opens. The lexer has
to get there first: a quote inside a string or behind a backslash opens nothing. `Boundary s u` says
that a token may start in the text `s` where `u` is left of it. `tokens_eq_error_iff` finds every
error at such a place, and what stands before the place has tokens of its own
(`Boundary.exists_before`).
-/

set_option autoImplicit false

namespace XPathLocator.Css

open Text (isBlank utf8Length)
open Piece (textOf valueOf EachBefore InString)

/-- A text is pieces of a string, the closing quote, and `rest`. -/
def Closes (quote : Char) (s : List Char) (ps : List Piece) (rest : List Char) : Prop :=
  s = textOf ps ++ quote :: rest ∧ EachBefore (InString quote) (quote :: rest) ps

variable {quote : Char} {s rest : List Char} {position : Nat}

/-! ### One string -/

/-- **A string is read exactly where it is closed**, up to its closing quote. -/
theorem front_eq_string_iff (h : IsQuote quote) {value : String} :
    front position quote s = .ok (.string value, rest) ↔
      ∃ ps, Closes quote s ps rest ∧ value = .ofList (valueOf ps) := by
  rw [front_quote position h]
  constructor
  · intro hfront
    split at hfront
    · next hread =>
      cases hfront
      obtain ⟨ps, htext, hps, hvalue⟩ := (quoted?_eq_some_iff h.ne_backslash).mp hread
      exact ⟨ps, ⟨htext, hps⟩, by rw [hvalue]⟩
    · cases hfront
  · rintro ⟨ps, ⟨htext, hps⟩, rfl⟩
    rw [(quoted?_eq_some_iff h.ne_backslash).mpr ⟨ps, htext, hps, rfl⟩]

/-- No string is read exactly if nothing closes it. -/
theorem quoted?_eq_none_iff (h : IsQuote quote) :
    quoted? quote s = none ↔ ¬ ∃ ps rest, Closes quote s ps rest := by
  constructor
  · rintro hnone ⟨ps, rest, htext, hps⟩
    rw [htext, quoted?_pieces h.ne_backslash hps] at hnone
    cases hnone
  · intro hnot
    cases hread : quoted? quote s with
    | none => rfl
    | some x =>
        obtain ⟨ps, htext, hps, _⟩ := exists_pieces_of_quoted? hread
        exact absurd ⟨ps, x.2, htext, hps⟩ hnot

/-- Only a string that is not closed is an error, -/
theorem front_eq_error_iff {c : Char} {r : List Char} {e : Error} :
    front position c r = .error e ↔
      IsQuote c ∧ (¬ ∃ ps rest, Closes c r ps rest) ∧ e = .unterminatedString position := by
  by_cases hc : IsQuote c
  · rw [front_quote position hc, ← quoted?_eq_none_iff hc]
    cases quoted? c r with
    | none => simp [hc, eq_comm]
    | some x => simp
  · -- Every other branch of the lexer gives a token.
    have hok : ∃ x, front position c r = .ok x := by
      rw [front, if_neg (mt isQuote_iff.mp hc)]
      repeat' split
      all_goals exact ⟨_, rfl⟩
    obtain ⟨x, hx⟩ := hok
    simp [hx, hc]

/-! ### The place of an error -/

/-- Where `u` is left of a text, a token may start. -/
inductive Boundary : List Char → List Char → Prop
  | here (s : List Char) : Boundary s s
  | behind {c : Char} {r rest u : List Char} {k : Token.Kind}
      (token : front 0 c r = .ok (k, rest)) (more : Boundary rest u) : Boundary (c :: r) u

/-- What stands before a boundary has tokens of its own, and an error behind it is one of the whole
text. -/
theorem Boundary.exists_before {u : List Char} (h : Boundary s u) :
    ∃ before, s = before ++ u ∧ ∀ position, (∃ ts, tokens position before = .ok ts) ∧
      ∀ e, tokens (position + utf8Length before) u = .error e → tokens position s = .error e := by
  induction h with
  | here s => exact ⟨[], rfl, fun position => ⟨⟨[], tokens_nil position⟩, fun e => id⟩⟩
  | @behind c r rest u k token more ih =>
      obtain ⟨before, rfl, hbefore⟩ := ih
      obtain ⟨w, rfl, hsame⟩ := front_behind token
      refine ⟨c :: (w ++ before), by simp, fun position => ?_⟩
      obtain ⟨⟨ts, hts⟩, herror⟩ := hbefore (position + utf8Length (c :: w))
      constructor
      · -- The token is read in front of a shorter text as well.
        have hcut : before <+: before ++ u := List.prefix_append before u
        have hfront := hsame before (.of_isPrefix hcut)
          (fun _ => startsEscape_of_isPrefix (List.cons_prefix_cons.mpr ⟨rfl, hcut⟩)) position
        exact ⟨_, by rw [tokens_of_front_append hfront, hts]; rfl⟩
      · intro e he
        rw [tokens_of_front_append (front_ok_position position token), map_eq_error_iff]
        apply herror
        rwa [← List.cons_append, Text.utf8Length_append, ← Nat.add_assoc] at he

/-- **An error is a string that opens at a boundary and is not closed.** -/
theorem tokens_eq_error_iff {e : Error} :
    tokens position s = .error e ↔
      ∃ before quote behind, s = before ++ quote :: behind ∧ IsQuote quote ∧
        Boundary s (quote :: behind) ∧ (¬ ∃ ps rest, Closes quote behind ps rest) ∧
        e = .unterminatedString (position + utf8Length before) := by
  constructor
  · intro h
    -- The lexer is at the end, or it finds an error, or it goes on behind a token.
    induction position, s using tokens.induct with
    | case1 position =>
        rw [tokens_nil] at h
        cases h
    | case2 position c r e' he =>
        rw [tokens_of_front_error he] at h
        cases h
        obtain ⟨hquote, hopen, rfl⟩ := front_eq_error_iff.mp he
        exact ⟨[], c, r, rfl, hquote, .here _, hopen, rfl⟩
    | case3 position c r k rest hk ih =>
        rw [tokens_of_front hk, map_eq_error_iff] at h
        obtain ⟨before, quote, behind, rfl, hquote, hboundary, hopen, rfl⟩ := ih h
        obtain ⟨w, rfl, _⟩ := front_behind hk
        refine ⟨c :: (w ++ before), quote, behind, by simp, hquote,
          .behind (front_ok_position 0 hk) hboundary, hopen, ?_⟩
        rw [← List.cons_append, ← List.cons_append, Text.utf8Length_append,
          Nat.add_sub_cancel, Text.utf8Length_append, Nat.add_assoc]
  · rintro ⟨before, quote, behind, hs, hquote, hboundary, hopen, rfl⟩
    obtain ⟨before', hs', hbefore⟩ := hboundary.exists_before
    rw [hs, List.append_cancel_right_eq] at hs'
    subst hs'
    exact (hbefore position).2 _
      (tokens_of_front_error (front_eq_error_iff.mpr ⟨hquote, hopen, rfl⟩))

/-! ### Selectors -/

/-- A string opens in a selector behind the text `before`. -/
structure OpensAt (css before : String) (quote : Char) (behind : List Char) : Prop where
  isQuote : IsQuote quote
  text : css.toList = before.toList ++ quote :: behind
  boundary : Boundary css.toList (quote :: behind)

/-- **A string is one token if it is closed, and else it is the error.** Behind an opening quote a
string is read, with the value of its pieces, exactly if pieces and the closing quote stand there,
and the next token is looked for right behind this quote. A selector has no tokens exactly if a
string opens in it that is not closed. The error gives the position of its opening quote, and what
stands before has tokens. -/
theorem tokenize_strings :
    (∀ (position : Nat) (quote : Char) (s : List Char), IsQuote quote →
      (∀ value rest, front position quote s = .ok (.string value, rest) ↔
        ∃ ps, Closes quote s ps rest ∧ value = .ofList (valueOf ps)) ∧
      ∀ ps rest, Closes quote s ps rest → tokens position (quote :: s) =
        (tokens (position + utf8Length (quote :: textOf ps ++ [quote])) rest).map
          (⟨.string (.ofList (valueOf ps)), position⟩ :: ·)) ∧
    (∀ (css : String) (e : Error), tokenize css = .error e ↔
      ∃ before quote behind, OpensAt css before quote behind ∧
        (¬ ∃ ps rest, Closes quote behind ps rest) ∧
        e = .unterminatedString before.utf8ByteSize) ∧
    ∀ css before quote behind, OpensAt css before quote behind →
      ∃ ts, tokenize before = .ok ts := by
  refine ⟨fun position quote s hquote => ⟨fun value rest => front_eq_string_iff hquote, ?_⟩,
    fun css e => ?_, ?_⟩
  · intro ps rest hcloses
    have hfront : front position quote s = .ok (.string (.ofList (valueOf ps)), rest) :=
      (front_eq_string_iff hquote).mpr ⟨ps, hcloses, rfl⟩
    obtain ⟨rfl, _⟩ := hcloses
    -- The next token is looked for behind the closing quote, so this belongs to the text taken.
    have hsplit : textOf ps ++ quote :: rest = (textOf ps ++ [quote]) ++ rest := by simp
    rw [hsplit] at hfront ⊢
    exact tokens_of_front_append hfront
  · rw [tokenize, tokens_eq_error_iff]
    constructor
    · rintro ⟨before, quote, behind, hs, hquote, hboundary, hopen, rfl⟩
      refine ⟨.ofList before, quote, behind, ⟨hquote, ?_, hboundary⟩, hopen, ?_⟩
      · rw [String.toList_ofList, hs]
      · rw [utf8ByteSize_ofList, Nat.zero_add]
    · rintro ⟨before, quote, behind, ⟨hquote, htext, hboundary⟩, hopen, rfl⟩
      refine ⟨before.toList, quote, behind, htext, hquote, hboundary, hopen, ?_⟩
      rw [Nat.zero_add, ← utf8ByteSize_ofList, String.ofList_toList]
  · rintro css before quote behind ⟨_, htext, hboundary⟩
    -- What stands before the quote is settled by the selector and what stands behind.
    obtain ⟨before', htext', hbefore⟩ := hboundary.exists_before
    rw [htext, List.append_cancel_right_eq] at htext'
    rw [tokenize, htext']
    exact (hbefore 0).1

/-- A string with an escaped quote of its own kind, the other quote as digits with a space behind
them, and a line feed that leaves no trace; and an open string behind a character of two bytes. -/
theorem tokenize_strings_apostrophe :
    let ps : List Piece := [.plain 't', .escaped (.char '\''), .plain 's',
      .escaped (.code ['2', '2'] (some ' ')), .lineFeed, .plain 'x']
    IsQuote '\'' ∧ Closes '\'' "t\\'s\\22 \\\nx'.b".toList ps ".b".toList ∧
      front 3 '\'' "t\\'s\\22 \\\nx'.b".toList = .ok (.string "t's\"x", ".b".toList) ∧
      OpensAt "[é='\"" "[é=" '\'' ['"'] ∧ (¬ ∃ ps rest, Closes '\'' ['"'] ps rest) ∧
      tokenize "[é='\"" = .error (.unterminatedString 4) ∧ ∃ ts, tokenize "[é=" = .ok ts := by
  intro ps
  have hquote : IsQuote '\'' := .inr rfl
  have hcloses : Closes '\'' "t\\'s\\22 \\\nx'.b".toList ps ".b".toList := by
    have hspace : isBlank ' ' := by decide
    have hdigits : ∀ d ∈ ['2', '2'], d.isHexDigit := List.all_eq_true.mp (by decide)
    exact ⟨by decide, ⟨by decide, by decide⟩, ⟨by decide, by decide⟩, ⟨by decide, by decide⟩,
      ⟨by decide, by decide, hdigits, hspace⟩, trivial, ⟨by decide, by decide⟩, trivial⟩
  have hopens : OpensAt "[é='\"" "[é=" '\'' ['"'] := by
    refine ⟨hquote, by decide, ?_⟩
    have hbracket : front 0 '[' ['é', '=', '\'', '"']
        = .ok (.delim '[', ['é', '=', '\'', '"']) := by
      decide +kernel
    have hname : front 0 'é' ['=', '\'', '"'] = .ok (.ident "é", ['=', '\'', '"']) := by
      decide +kernel
    have hequals : front 0 '=' ['\'', '"'] = .ok (.delim '=', ['\'', '"']) := by decide +kernel
    exact .behind hbracket (.behind hname (.behind hequals (.here _)))
  have hopen : ¬ ∃ ps rest, Closes '\'' ['"'] ps rest :=
    (quoted?_eq_none_iff hquote).mp (by decide +kernel)
  obtain ⟨hstring, herror, hbefore⟩ := tokenize_strings
  refine ⟨hquote, hcloses, ?_, hopens, hopen, ?_, hbefore _ _ _ _ hopens⟩
  · exact ((hstring 3 '\'' _ hquote).1 _ _).mpr ⟨ps, hcloses, by decide⟩
  · exact (herror _ _).mpr ⟨_, _, _, hopens, hopen, by decide⟩

end XPathLocator.Css
