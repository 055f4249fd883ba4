import XPathLocator.Proofs.Css.Escape

/-!
# `XPathLocator.Proofs.Css.Piece`: names and strings as they are written

What is written in a name or a string are pieces, each a character for itself, an escape, or in a
string a line feed behind a backslash, which leaves no trace. `Piece.InName` and `Piece.InString`
say which pieces may stand there. An escape must end where the next piece starts, so they speak of
what follows as well, and `EachBefore` says it of every piece in front of the ones behind it.

`name_pieces` reads a name from its pieces. A string may be unclosed, so there the pieces are a
condition: `quoted?_eq_some_iff` says that the lexer finds a string exactly where pieces with a
closing quote stand.
-/

set_option autoImplicit false

namespace XPathLocator.Css

open Text (isBlank)

/-- A piece of a name or of a string. -/
inductive Piece
  /-- A character for itself. -/
  | plain (c : Char)
  /-- A backslash and an escape. -/
  | escaped (e : Escape)
  /-- A backslash and a line feed. -/
  | lineFeed

namespace Piece

/-- The characters of a piece. -/
def text : Piece → List Char
  | .plain c => [c]
  | .escaped e => '\\' :: e.text
  | .lineFeed => ['\\', '\n']

/-- What a piece denotes, at most one character. -/
def value : Piece → List Char
  | .plain c => [c]
  | .escaped e => [e.value]
  | .lineFeed => []

/-- The characters of pieces, one behind the other. -/
def textOf (ps : List Piece) : List Char :=
  ps.flatMap text

/-- What pieces denote together. -/
def valueOf (ps : List Piece) : List Char :=
  ps.flatMap value

/-- The text of pieces is that of the first one and that of the others. -/
theorem textOf_cons (p : Piece) (ps : List Piece) : textOf (p :: ps) = p.text ++ textOf ps :=
  List.flatMap_cons

/-- The value of pieces is that of the first one and that of the others. -/
theorem valueOf_cons (p : Piece) (ps : List Piece) : valueOf (p :: ps) = p.value ++ valueOf ps :=
  List.flatMap_cons

/-- Each piece stands, as `P` says, in front of those behind it and the text `rest`. -/
def EachBefore (P : List Char → Piece → Prop) (rest : List Char) : List Piece → Prop
  | [] => True
  | p :: ps => P (textOf ps ++ rest) p ∧ EachBefore P rest ps

/-- The pieces of a name: its characters, if they are no white space, and escapes. -/
def InName (behind : List Char) : Piece → Prop
  | .plain c => isNameChar c ∧ isBlank c = false
  | .escaped e => e.EndsAt behind
  | .lineFeed => False

/-- The pieces of a string: any characters but its quote and the backslash, escapes, and line feeds
behind a backslash. -/
def InString (quote : Char) (behind : List Char) : Piece → Prop
  | .plain c => c ≠ quote ∧ c ≠ '\\'
  | .escaped e => e.EndsAt behind
  | .lineFeed => True

end Piece

open Piece (textOf valueOf EachBefore InName InString)

/-- The first character of an escape is no line feed, so the backslash starts one. -/
theorem Escape.EndsAt.text_eq_cons {e : Escape} {rest : List Char} (h : e.EndsAt rest) :
    ∃ c s, e.text = c :: s ∧ c ≠ '\n' := by
  cases e with
  | char c => exact ⟨c, [], rfl, h.2⟩
  | code digits stop =>
      obtain ⟨hne, _, hdigits, _⟩ := h
      cases digits with
      | nil => exact absurd rfl hne
      | cons c more =>
          refine ⟨c, more ++ stop.toList, rfl, ?_⟩
          rintro rfl
          exact absurd (hdigits '\n' List.mem_cons_self) (by decide)

/-! ### Names -/

/-- Where no name starts, none is read. -/
theorem name_of_startsName_eq_false {s : List Char} (h : startsName s = false) :
    name s = ([], s) := by
  cases s with
  | nil => rw [name]
  | cons c r =>
      rw [startsName, Bool.or_eq_false_iff] at h
      rw [name, if_neg (by simp [h.1]), if_neg (by simp [h.2])]

/-- A backslash in front of an escape starts it. -/
theorem startsEscape_text {e : Escape} {behind : List Char} (h : e.EndsAt behind)
    (rest : List Char) : startsEscape ('\\' :: (e.text ++ rest)) := by
  obtain ⟨c, s, htext, hc⟩ := h.text_eq_cons
  rw [htext]
  simp [startsEscape, hc]

/-- **A name is read from its pieces**, in front of a text that goes on with none. -/
theorem name_pieces {ps : List Piece} {rest : List Char} (h : EachBefore InName rest ps)
    (hrest : startsName rest = false) : name (textOf ps ++ rest) = (valueOf ps, rest) := by
  induction ps with
  | nil => exact name_of_startsName_eq_false hrest
  | cons p ps ih =>
      obtain ⟨hp, hps⟩ := h
      rw [Piece.textOf_cons, Piece.valueOf_cons, List.append_assoc]
      cases p with
      | plain c =>
          show name (c :: (textOf ps ++ rest)) = (c :: valueOf ps, rest)
          rw [name, if_pos hp.1, ih hps]
      | escaped e =>
          show name ('\\' :: (e.text ++ (textOf ps ++ rest))) = (e.value :: valueOf ps, rest)
          rw [name, if_neg (by decide), if_pos (startsEscape_text hp _), escape_text hp, ih hps]
      | lineFeed => exact hp.elim

/-! ### Strings -/

/-- A string is read up to its closing quote, -/
theorem quoted?_pieces {quote : Char} (hquote : quote ≠ '\\') {ps : List Piece} {rest : List Char}
    (h : EachBefore (InString quote) (quote :: rest) ps) :
    quoted? quote (textOf ps ++ quote :: rest) = some (valueOf ps, rest) := by
  induction ps with
  | nil =>
      show quoted? quote (quote :: rest) = some ([], rest)
      rw [quoted?.eq_def]
      simp
  | cons p ps ih =>
      obtain ⟨hp, hps⟩ := h
      rw [Piece.textOf_cons, Piece.valueOf_cons, List.append_assoc]
      generalize htail : textOf ps ++ quote :: rest = tail at hp ih
      cases p with
      | plain c =>
          show quoted? quote (c :: tail) = some (c :: valueOf ps, rest)
          rw [quoted?.eq_def]
          simp only
          rw [if_neg hp.1, if_neg hp.2, ih hps]
          rfl
      | escaped e =>
          obtain ⟨c, s, htext, hc⟩ := Escape.EndsAt.text_eq_cons hp
          have hescape := escape_text hp
          rw [htext] at hescape
          show quoted? quote ('\\' :: (e.text ++ tail)) = some (e.value :: valueOf ps, rest)
          rw [htext, List.cons_append, quoted?, if_neg hquote.symm, if_pos rfl]
          rw [List.cons_append] at hescape
          simp only
          rw [if_neg hc, hescape, ih hps]
          rfl
      | lineFeed =>
          show quoted? quote ('\\' :: '\n' :: tail) = some (valueOf ps, rest)
          rw [quoted?, if_neg hquote.symm, if_pos rfl]
          exact ih hps

/-- and it is made of pieces that end there. -/
theorem exists_pieces_of_quoted? {quote : Char} {s value rest : List Char}
    (h : quoted? quote s = some (value, rest)) :
    ∃ ps, s = textOf ps ++ quote :: rest ∧ EachBefore (InString quote) (quote :: rest) ps ∧
      valueOf ps = value := by
  -- One case for each piece, and the closing quote; where there is none, nothing is read.
  fun_induction quoted? quote s generalizing value with
  | case1 => cases h
  | case2 r =>
      cases h
      exact ⟨[], rfl, trivial, rfl⟩
  | case3 => cases h
  | case4 s hne ih =>
      obtain ⟨ps, rfl, hps, rfl⟩ := ih h
      exact ⟨.lineFeed :: ps, rfl, ⟨trivial, hps⟩, rfl⟩
  | case5 c s hc hne ih =>
      obtain ⟨⟨cs, rest'⟩, hmore, heq⟩ := Option.map_eq_some_iff.mp h
      cases heq
      obtain ⟨e, tail, hsplit, hends⟩ := exists_escape hc s
      have hescape := escape_text hends
      rw [← hsplit] at hescape
      rw [hescape] at hmore ih
      obtain ⟨ps, rfl, hps, rfl⟩ := ih hmore
      refine ⟨.escaped e :: ps, ?_, ⟨hends, hps⟩, ?_⟩
      · rw [hsplit, Piece.textOf_cons, List.append_assoc]
        rfl
      · rw [hescape]
        rfl
  | case6 c s hne hc ih =>
      obtain ⟨⟨cs, rest'⟩, hmore, heq⟩ := Option.map_eq_some_iff.mp h
      cases heq
      obtain ⟨ps, rfl, hps, rfl⟩ := ih hmore
      exact ⟨.plain c :: ps, rfl, ⟨⟨hne, hc⟩, hps⟩, rfl⟩

/-- **A string is found exactly where pieces and a closing quote stand.** -/
theorem quoted?_eq_some_iff {quote : Char} (hquote : quote ≠ '\\') {s value rest : List Char} :
    quoted? quote s = some (value, rest) ↔
      ∃ ps, s = textOf ps ++ quote :: rest ∧ EachBefore (InString quote) (quote :: rest) ps ∧
        valueOf ps = value := by
  constructor
  · exact exists_pieces_of_quoted?
  · rintro ⟨ps, rfl, hps, rfl⟩
    exact quoted?_pieces hquote hps

end XPathLocator.Css
