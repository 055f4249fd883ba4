import XPathLocator.Css.Compiler
import XPathLocator.Proofs.Css.Lexeme

/-!
# `XPathLocator.Proofs.Css.Identifier`: an identifier in any of its spellings

A name has many spellings, since any of its characters may be escaped in several ways. What
they have in common is that the lexer reads them as one identifier, and this is all that is
known of a spelling here. A spelling stays one in front of punctuation, since a digit or a space
that could belong to its last escape is no punctuation (`kinds?_append_punctuation`), and behind a
`#` it is the same name (`kinds?_hash`).

So selectors can be put together from a spelling and punctuation, and their tokens are the
name and the punctuation. There is one theorem for each such selector: for the name alone, for
the name with simple selectors behind it, for a class, an identifier and a negated name.
-/

set_option autoImplicit false

namespace XPathLocator.Css

open Text (isBlank AllBlank)
open Token (Kind)

variable {s : List Char} {e n : String}

/-! ### Spellings -/

/-- The text of one token that is an identifier is a name to the end. -/
theorem name_of_kinds? (h : kinds? s = some [.ident n]) :
    startsIdent s ∧ name s = (n.toList, []) := by
  cases s with
  | nil =>
      rw [kinds?_nil] at h
      cases h
  | cons c r =>
      rw [kinds?_cons] at h
      cases hfront : front 0 c r with
      | error error =>
          rw [hfront] at h
          cases h
      | ok x =>
          obtain ⟨k, rest⟩ := x
          rw [hfront] at h
          have hmore : (kinds? rest).map (k :: ·) = some [.ident n] := h
          obtain ⟨ks, hks, heq⟩ := Option.map_eq_some_iff.mp hmore
          cases heq
          obtain ⟨hstarts, hname⟩ := front_eq_ident hfront
          -- Every token takes a character, so no text is left without one.
          have hrest : rest = [] := by
            cases rest with
            | nil => rfl
            | cons d u =>
                rw [kinds?_cons] at hks
                obtain ⟨y, _, hy⟩ := Option.bind_eq_some_iff.mp hks
                obtain ⟨js, _, hjs⟩ := Option.map_eq_some_iff.mp hy
                cases hjs
          exact ⟨hstarts, by rw [hname, hrest]⟩

/-- Every name has a spelling: all its characters may be escaped. -/
theorem tokenize_escaped (h : n ≠ "") :
    tokenize (.ofList (escaped n.toList)) = .ok [⟨.ident n, 0⟩] := by
  have hend : startsName [] = false := rfl
  obtain ⟨r, htext, hfront⟩ := front_ident h hend 0
  rw [List.append_nil] at htext
  rw [tokenize, String.toList_ofList, htext, tokens_of_front hfront, tokens_nil]
  rfl

/-- A spelling of a name has one token, the name. -/
theorem kinds?_of_tokenize (h : tokenize e = .ok [⟨.ident n, 0⟩]) :
    kinds? e.toList = some [.ident n] := by
  rw [tokenize] at h
  rw [kinds?, kindsAt?, h]
  rfl

/-! ### Names and punctuation -/

/-- Punctuation in front of a text is one more token. -/
theorem kinds?_punctuation {d : Char} (hd : isPunctuation d) (u : List Char) :
    kinds? (d :: u) = (kinds? u).map (.delim d :: ·) := by
  rw [kinds?_cons, front_punctuation hd]
  rfl

/-- A hash sign in front of a name makes a hash of it. -/
theorem kinds?_hash (h : kinds? s = some [.ident n]) : kinds? ('#' :: s) = some [.hash n] := by
  obtain ⟨hstarts, hname⟩ := name_of_kinds? h
  have hfront := (Fronts.hash rfl (startsName_of_startsIdent hstarts)).front_eq_ok 0
  rw [hname, String.ofList_toList] at hfront
  rw [kinds?_cons, hfront]
  show (kinds? []).map _ = _
  rw [kinds?_nil]
  rfl

/-! ### Selectors of one compound -/

/-- A text whose tokens are those of a compound is read as this compound alone. -/
theorem parse_of_compoundKinds {text : String} {ks : List Kind} {c : Compound}
    (hkinds : kinds? text.toList = some ks) (h : CompoundKinds ks c) :
    parse text = .ok [⟨c, []⟩] := by
  have hcomplex : ComplexKinds ks ⟨c, []⟩ := by
    simpa using ComplexKinds.mk h .nil
  refine (parse_eq_ok_iff ..).mpr ⟨ks, hkinds, ?_⟩
  simpa using GroupKinds.one blanks_nil hcomplex blanks_nil

/-- A name alone. -/
theorem parse_ident (h : tokenize e = .ok [⟨.ident n, 0⟩]) : parse e = .ok [⟨⟨some n, []⟩, []⟩] :=
  parse_of_compoundKinds (kinds?_of_tokenize h) (.mk (.ident n) .nil (by simp))

/-- A name with simple selectors behind it, which start with punctuation. -/
theorem parse_ident_append (h : tokenize e = .ok [⟨.ident n, 0⟩]) {d : Char}
    (hd : isPunctuation d) (hpoint : d ≠ '.') {t : String} {u : List Char} (ht : t.toList = d :: u)
    {ks : List Kind} {simples : List Simple} (hkinds : kinds? u = some ks)
    (hsimples : SimplesKinds (.delim d :: ks) simples) :
    parse (e ++ t) = .ok [⟨⟨some n, simples⟩, []⟩] := by
  have hwhole : kinds? (e ++ t).toList = some ([.ident n] ++ .delim d :: ks) := by
    rw [String.toList_append, ht]
    exact kinds?_append_punctuation hd hpoint (kinds?_of_tokenize h) hkinds (by simp [NoBackslash])
  exact parse_of_compoundKinds hwhole (.mk (.ident n) hsimples (by simp))

/-- A class. -/
theorem parse_class (h : tokenize e = .ok [⟨.ident n, 0⟩]) :
    parse ("." ++ e) = .ok [⟨⟨none, [.ofClass n]⟩, []⟩] := by
  have hkinds : kinds? ("." ++ e).toList = some [.delim '.', .ident n] := by
    rw [String.toList_append]
    show kinds? ('.' :: e.toList) = _
    rw [kinds?_punctuation (by decide), kinds?_of_tokenize h]
    rfl
  exact parse_of_compoundKinds hkinds (.mk .none (.ofClass n .nil) (by simp))

/-- An identifier of an element. -/
theorem parse_id (h : tokenize e = .ok [⟨.ident n, 0⟩]) :
    parse ("#" ++ e) = .ok [⟨⟨none, [.id n]⟩, []⟩] := by
  have hkinds : kinds? ("#" ++ e).toList = some [.hash n] := by
    rw [String.toList_append]
    show kinds? ('#' :: e.toList) = _
    exact kinds?_hash (kinds?_of_tokenize h)
  exact parse_of_compoundKinds hkinds (.mk .none (.id n .nil) (by simp))

/-- A negated name. -/
theorem parse_not (h : tokenize e = .ok [⟨.ident n, 0⟩]) :
    parse (":not(" ++ e ++ ")") = .ok [⟨⟨none, [.not (some n) []]⟩, []⟩] := by
  have hnot : kinds? "not".toList = some [.ident "not"] := by decide +kernel
  have hclose : kinds? (e.toList ++ [')']) = some [.ident n, .delim ')'] :=
    kinds?_append_punctuation (by decide) (by decide) (kinds?_of_tokenize h) kinds?_nil
      (by simp [NoBackslash])
  have hopen : kinds? ("not".toList ++ '(' :: (e.toList ++ [')']))
      = some [.ident "not", .delim '(', .ident n, .delim ')'] :=
    kinds?_append_punctuation (by decide) (by decide) hnot hclose (by simp [NoBackslash])
  have hkinds : kinds? (":not(" ++ e ++ ")").toList =
      some [.delim ':', .ident "not", .delim '(', .ident n, .delim ')'] := by
    rw [String.toList_append, String.toList_append]
    show kinds? (':' :: ("not".toList ++ '(' :: (e.toList ++ [')']))) = _
    rw [kinds?_punctuation (by decide), hopen]
    rfl
  have hsimples : SimplesKinds [.delim ':', .ident "not", .delim '(', .ident n, .delim ')']
      [.not (some n) []] :=
    .not (by decide +kernel) blanks_nil (.ident n) .nil (by simp) blanks_nil .nil
  exact parse_of_compoundKinds hkinds (.mk .none hsimples (by simp))

/-- A compound alone is compiled to its step, behind the axis on which every selector starts. -/
theorem compile_of_parse (compiler : Compiler) {text : String} {c : Compound}
    (h : parse text = .ok [⟨c, []⟩]) :
    compiler.compile text =
      (compiler.compound c).map fun step => Compiler.defaultAxis ++ step.render := by
  rw [Compiler.compile, Compiler.compileFrom, h]
  show compiler.group _ [⟨c, []⟩] = _
  rw [Compiler.group, List.mapM_cons, List.mapM_nil, Compiler.complex]
  cases compiler.compound c <;> rfl

end XPathLocator.Css
