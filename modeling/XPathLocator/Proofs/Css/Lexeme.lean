import Mathlib.Data.String.Basic
import XPathLocator.Proofs.Css.Boundary
import XPathLocator.Proofs.Css.Margin

/-!
# `XPathLocator.Proofs.Css.Lexeme`: the texts of tokens

A lexeme is a token together with its text. `Lexed` says of a list of lexemes that each is read in
front of the ones behind it, so their texts make up the whole text and their tokens are those of
the text (`tokens_eq_ok_iff`). Positions are no part of a lexeme. They are the lengths of what
stands before (`Lexeme.tokensAt`).

So to cut a text at a token is to cut a list. What stands behind the cut is read as before, and what
stands before it too, since nothing goes on into a text that was cut off (`Lexed.of_append`).
`tokenize_cut` says what follows for the tokens of a selector.
-/

set_option autoImplicit false

namespace XPathLocator.Css

open Text (isBlank utf8Length)
open Token (Kind)

/-- A token and its text. -/
structure Lexeme where
  text : List Char
  kind : Kind

namespace Lexeme

/-- The text of lexemes, one behind the other. -/
def textOf (ls : List Lexeme) : List Char :=
  ls.flatMap Lexeme.text

/-- The tokens of lexemes, the first of which stands at the given position. -/
def tokensAt (position : Nat) : List Lexeme → List Token
  | [] => []
  | l :: ls => ⟨l.kind, position⟩ :: tokensAt (position + utf8Length l.text) ls

/-- The text of lexemes is that of the first one and that of the others. -/
theorem textOf_cons (l : Lexeme) (ls : List Lexeme) : textOf (l :: ls) = l.text ++ textOf ls :=
  List.flatMap_cons

/-- The text of two lists of lexemes, one behind the other. -/
theorem textOf_append (ls ms : List Lexeme) : textOf (ls ++ ms) = textOf ls ++ textOf ms :=
  List.flatMap_append

/-- The tokens of lexemes behind others are further on by the length of the text of these. -/
theorem tokensAt_append (position : Nat) (ls ms : List Lexeme) :
    tokensAt position (ls ++ ms)
      = tokensAt position ls ++ tokensAt (position + utf8Length (textOf ls)) ms := by
  induction ls generalizing position with
  | nil => rfl
  | cons l ls ih =>
      rw [List.cons_append, tokensAt, ih, tokensAt, textOf_cons, Text.utf8Length_append,
        Nat.add_assoc]
      rfl

/-- Each lexeme has one token. -/
theorem length_tokensAt (position : Nat) (ls : List Lexeme) :
    (tokensAt position ls).length = ls.length := by
  induction ls generalizing position with
  | nil => rfl
  | cons l ls ih => rw [tokensAt, List.length_cons, ih, List.length_cons]

/-- Where lexemes are put together, so are their tokens. -/
theorem take_tokensAt (position : Nat) (ls ms : List Lexeme) :
    (tokensAt position (ls ++ ms)).take ls.length = tokensAt position ls := by
  rw [tokensAt_append, ← length_tokensAt position ls, List.take_left]

/-- Behind the tokens of the first lexemes stand those of the others. -/
theorem drop_tokensAt (position : Nat) (ls ms : List Lexeme) :
    (tokensAt position (ls ++ ms)).drop ls.length
      = tokensAt (position + utf8Length (textOf ls)) ms := by
  rw [tokensAt_append, ← length_tokensAt position ls, List.drop_left]

/-- A lexeme between others has its token in the same place, at the length of what stands before. -/
theorem getElem?_tokensAt (position : Nat) (ls : List Lexeme) (l : Lexeme) (ms : List Lexeme) :
    (tokensAt position (ls ++ l :: ms))[ls.length]?
      = some ⟨l.kind, position + utf8Length (textOf ls)⟩ := by
  rw [← List.head?_drop, drop_tokensAt]
  rfl

/-- The tokens of lexemes have their kinds. -/
theorem map_kind_tokensAt (position : Nat) (ls : List Lexeme) :
    (tokensAt position ls).map Token.kind = ls.map Lexeme.kind := by
  induction ls generalizing position with
  | nil => rfl
  | cons l ls ih => rw [tokensAt, List.map_cons, ih, List.map_cons]

end Lexeme

open Lexeme (textOf tokensAt)

/-- Each lexeme is read in front of those behind it. -/
inductive Lexed : List Lexeme → Prop
  | nil : Lexed []
  | cons {c : Char} {w : List Char} {k : Kind} {ls : List Lexeme}
      (h : ∀ position, front position c (w ++ textOf ls) = .ok (k, textOf ls))
      (more : Lexed ls) : Lexed (⟨c :: w, k⟩ :: ls)

/-- Lexemes that are read in front of each other are read from their text. -/
theorem tokens_of_lexed {ls : List Lexeme} (h : Lexed ls) (position : Nat) :
    tokens position (textOf ls) = .ok (tokensAt position ls) := by
  induction h generalizing position with
  | nil => exact tokens_nil position
  | @cons c w k ls hfront more ih =>
      rw [Lexeme.textOf_cons, List.cons_append, tokens_of_front_append (hfront position), ih]
      rfl

/-- **The tokens of a text are those of its lexemes.** -/
theorem tokens_eq_ok_iff {position : Nat} {s : List Char} {ts : List Token} :
    tokens position s = .ok ts ↔ ∃ ls, Lexed ls ∧ textOf ls = s ∧ tokensAt position ls = ts := by
  constructor
  · intro h
    -- The lexer is at the end, or it finds an error, or it goes on behind a token.
    induction position, s using tokens.induct generalizing ts with
    | case1 position =>
        rw [tokens_nil] at h
        cases h
        exact ⟨[], .nil, rfl, rfl⟩
    | case2 position c r e he =>
        rw [tokens_of_front_error he] at h
        cases h
    | case3 position c r k rest hk ih =>
        rw [tokens_of_front hk, map_eq_ok_iff] at h
        obtain ⟨more, hmore, rfl⟩ := h
        obtain ⟨ls, hls, rfl, rfl⟩ := ih hmore
        obtain ⟨w, rfl, hsame⟩ := front_behind hk
        have hself : StopsLike (textOf ls) (textOf ls) := .of_isPrefix (List.prefix_refl _)
        refine ⟨⟨c :: w, k⟩ :: ls, .cons (hsame _ hself fun _ => id) hls, rfl, ?_⟩
        rw [tokensAt, ← List.cons_append, Text.utf8Length_append, Nat.add_sub_cancel]
  · rintro ⟨ls, hls, rfl, rfl⟩
    exact tokens_of_lexed hls position

/-! ### Cuts -/

/-- A lexeme is read as before in front of another text that stops it. -/
theorem Lexed.front_of_stopsLike {c : Char} {w u t : List Char} {k : Kind}
    (h : ∀ position, front position c (w ++ u) = .ok (k, u)) (ht : StopsLike u t)
    (hopen : k = .delim '\\' → startsEscape ('\\' :: t) → startsEscape ('\\' :: u))
    (position : Nat) : front position c (w ++ t) = .ok (k, t) := by
  obtain ⟨w', hw, hsame⟩ := front_behind (h position)
  rw [List.append_cancel_right hw]
  exact hsame t ht hopen position

/-- What stands behind some lexemes can be cut off, -/
theorem Lexed.of_append {ls ms : List Lexeme} (h : Lexed (ls ++ ms)) : Lexed ls := by
  induction ls with
  | nil => exact .nil
  | cons l ls ih =>
      cases h with
      | cons hfront more =>
          have hcut : textOf ls <+: textOf (ls ++ ms) := by
            rw [Lexeme.textOf_append]
            exact List.prefix_append _ _
          refine .cons (Lexed.front_of_stopsLike hfront (.of_isPrefix hcut) fun _ h => ?_) (ih more)
          exact startsEscape_of_isPrefix (List.cons_prefix_cons.mpr ⟨rfl, hcut⟩) h

/-- and what stands before some lexemes too. -/
theorem Lexed.of_append_right {ls ms : List Lexeme} (h : Lexed (ls ++ ms)) : Lexed ms := by
  induction ls with
  | nil => exact h
  | cons l ls ih =>
      cases h with
      | cons _ more => exact ih more

/-- Every lexeme has a text. -/
theorem Lexed.text_ne_nil {ls : List Lexeme} (h : Lexed ls) : ∀ l ∈ ls, l.text ≠ [] := by
  induction h with
  | nil => simp
  | cons _ _ ih => exact List.forall_mem_cons.mpr ⟨List.cons_ne_nil _ _, ih⟩

/-! ### Punctuation -/

/-- A text has tokens of given kinds exactly if it is the text of lexemes of these kinds. -/
theorem kinds?_eq_some_iff {s : List Char} {ks : List Kind} :
    kinds? s = some ks ↔ ∃ ls, Lexed ls ∧ textOf ls = s ∧ ls.map Lexeme.kind = ks := by
  constructor
  · intro h
    rw [kinds?, kindsAt?] at h
    cases hts : tokens 0 s with
    | error e => rw [hts] at h; cases h
    | ok ts =>
        obtain ⟨ls, hls, rfl, rfl⟩ := tokens_eq_ok_iff.mp hts
        rw [hts] at h
        cases h
        exact ⟨ls, hls, rfl, (Lexeme.map_kind_tokensAt 0 ls).symm⟩
  · rintro ⟨ls, hls, rfl, rfl⟩
    rw [kinds?, kindsAt?, tokens_of_lexed hls, ← Lexeme.map_kind_tokensAt 0 ls]
    rfl

/-- No token is a backslash that escapes nothing. -/
def NoBackslash (ks : List Kind) : Prop :=
  .delim '\\' ∉ ks

/-- No tokens, no backslash. -/
theorem noBackslash_nil : NoBackslash [] :=
  List.not_mem_nil

/-- Two lists of tokens have no backslash if neither of them has one. -/
theorem noBackslash_append {ks js : List Kind} :
    NoBackslash (ks ++ js) ↔ NoBackslash ks ∧ NoBackslash js := by
  simp [NoBackslash]

/-- One token and others have no backslash if neither it nor they have one. -/
theorem noBackslash_cons {k : Kind} {ks : List Kind} :
    NoBackslash (k :: ks) ↔ k ≠ .delim '\\' ∧ NoBackslash ks := by
  simp [NoBackslash, eq_comm]

/-- Without an open backslash, lexemes are read as before in front of punctuation. A point is left
out, since a number may go on with one. -/
theorem Lexed.append_punctuation {d : Char} (hd : isPunctuation d) (hpoint : d ≠ '.')
    {ls ms : List Lexeme} (hls : Lexed ls) (hms : Lexed ms)
    (hopen : NoBackslash (ls.map Lexeme.kind)) : Lexed (ls ++ ⟨[d], .delim d⟩ :: ms) := by
  induction hls with
  | nil => exact .cons (front_punctuation hd _) hms
  | @cons c w k ls hfront more ih =>
      rw [List.map_cons, noBackslash_cons] at hopen
      have hrest : textOf ls ≠ ['\\'] := by
        intro h
        have hkinds := kinds?_eq_some_iff.mpr ⟨ls, more, h, rfl⟩
        rw [kinds?_backslash, Option.some_inj] at hkinds
        exact hopen.2 (hkinds ▸ List.mem_singleton.mpr rfl)
      have htext : textOf (ls ++ ⟨[d], .delim d⟩ :: ms) = textOf ls ++ d :: textOf ms :=
        Lexeme.textOf_append _ _
      refine .cons (fun position => ?_) (ih hopen.2)
      rw [List.append_eq, htext]
      have hstops : StopsLike (textOf ls) (textOf ls ++ d :: textOf ms) :=
        .append_punctuation hd hpoint hrest _
      exact Lexed.front_of_stopsLike hfront hstops (fun hk => absurd hk hopen.1) position

/-- **Punctuation keeps tokens apart**, unless there is a backslash that it would be read with. -/
theorem kinds?_append_punctuation {d : Char} (hd : isPunctuation d) (hpoint : d ≠ '.')
    {s t : List Char} {ks js : List Kind} (hs : kinds? s = some ks) (ht : kinds? t = some js)
    (hopen : NoBackslash ks) : kinds? (s ++ d :: t) = some (ks ++ .delim d :: js) := by
  obtain ⟨ls, hls, rfl, rfl⟩ := kinds?_eq_some_iff.mp hs
  obtain ⟨ms, hms, rfl, rfl⟩ := kinds?_eq_some_iff.mp ht
  refine kinds?_eq_some_iff.mpr ⟨_, hls.append_punctuation hd hpoint hms hopen, ?_, ?_⟩
  · exact Lexeme.textOf_append _ _
  · rw [List.map_append, List.map_cons]

/-! ### Positions -/

/-- A token so many bytes further on. -/
def Token.shift (bytes : Nat) (t : Token) : Token :=
  { t with position := bytes + t.position }

/-- To move the position of a text is to move those of its tokens. -/
theorem map_shift_tokensAt (bytes position : Nat) (ls : List Lexeme) :
    (tokensAt position ls).map (Token.shift bytes) = tokensAt (bytes + position) ls := by
  induction ls generalizing position with
  | nil => rfl
  | cons l ls ih => rw [tokensAt, List.map_cons, ih, tokensAt, Nat.add_assoc]; rfl

/-- Every character takes a byte at least. -/
theorem utf8Length_pos {s : List Char} (h : s ≠ []) : 0 < utf8Length s := by
  cases s with
  | nil => exact absurd rfl h
  | cons c s => exact Nat.add_pos_left c.utf8Size_pos _

/-- No token stands before the text that it is read from. -/
theorem le_position_of_mem_tokensAt {position : Nat} {ls : List Lexeme} :
    ∀ t ∈ tokensAt position ls, position ≤ t.position := by
  induction ls generalizing position with
  | nil => simp [tokensAt]
  | cons l ls ih =>
      rw [tokensAt, List.forall_mem_cons]
      exact ⟨Nat.le_refl _, fun t ht => Nat.le_trans (Nat.le_add_right _ _) (ih t ht)⟩

/-- Positions ascend, as no text of a lexeme is empty. -/
theorem Lexed.pairwise_position {ls : List Lexeme} (h : Lexed ls) (position : Nat) :
    (tokensAt position ls).Pairwise (·.position < ·.position) := by
  have htexts := h.text_ne_nil
  clear h
  induction ls generalizing position with
  | nil => exact .nil
  | cons l ls ih =>
      rw [List.forall_mem_cons] at htexts
      refine .cons (fun t ht => ?_) (ih _ htexts.2)
      have hpos := utf8Length_pos htexts.1
      have hle := le_position_of_mem_tokensAt t ht
      show position < t.position
      omega

/-- The length of a string in bytes is that of its characters. -/
theorem utf8ByteSize_ofList (s : List Char) : (String.ofList s).utf8ByteSize = utf8Length s := by
  rw [String.utf8ByteSize_ofList]
  induction s with
  | nil => rfl
  | cons c s ih => rw [String.utf8Len_cons, ih, Text.utf8Length_cons, Nat.add_comm]

/-! ### Selectors -/

/-- The texts of lexemes as strings. -/
def Lexeme.strings (ls : List Lexeme) : List String :=
  ls.map fun l => .ofList l.text

/-- The texts of lexemes, joined, are the text that they are read from. -/
theorem join_strings (ls : List Lexeme) :
    String.join (Lexeme.strings ls) = .ofList (textOf ls) := by
  rw [← String.toList_inj, String.toList_join, String.toList_ofList, Lexeme.strings,
    List.flatMap_map]
  simp only [String.toList_ofList]
  rfl

/-- Lexemes are read from their text as a string. -/
theorem tokenize_ofList {ls : List Lexeme} (h : Lexed ls) :
    tokenize (.ofList (textOf ls)) = .ok (tokensAt 0 ls) := by
  rw [tokenize, String.toList_ofList]
  exact tokens_of_lexed h 0

/-- Each lexeme is read as its token also when it stands alone. -/
theorem Lexed.tokenize_text {ls : List Lexeme} (h : Lexed ls) (position : Nat) :
    List.Forall₂ (fun text t => tokenize text = .ok [⟨t.kind, 0⟩])
      (Lexeme.strings ls) (tokensAt position ls) := by
  induction h generalizing position with
  | nil => exact .nil
  | @cons c w k ls hfront more ih =>
      have hwhole : Lexed ([⟨c :: w, k⟩] ++ ls) := .cons hfront more
      have htoken := tokenize_ofList hwhole.of_append
      rw [Lexeme.textOf_cons, textOf, List.flatMap_nil, List.append_nil] at htoken
      exact .cons htoken (ih _)

/-- Between two lexemes a text is cut in two, and neither half is read in another way. -/
theorem Lexed.tokenize_halves {as bs : List Lexeme} (h : Lexed (as ++ bs)) :
    tokenize (String.join (Lexeme.strings as)) = .ok (tokensAt 0 as) ∧
      ∃ us, tokenize (String.join (Lexeme.strings bs)) = .ok us ∧
        ∀ position, us.map (Token.shift position) = tokensAt position bs := by
  refine ⟨?_, tokensAt 0 bs, ?_, fun position => map_shift_tokensAt position 0 bs⟩
  · rw [join_strings, tokenize_ofList h.of_append]
  · rw [join_strings, tokenize_ofList h.of_append_right]

/-- **A selector can be cut at any of its tokens.** Its text is made of the texts of its tokens,
each of which is read as its token also when it stands alone. The position of a token is the length
in bytes of what stands before it. And where the text is cut in front of a token, the half before
the cut has the tokens before it, and the half behind has the others, with positions that count from
the cut. -/
theorem tokenize_cut {css : String} {ts : List Token} (h : tokenize css = .ok ts) :
    (∀ t ∈ ts.head?, t.position = 0) ∧ ts.Pairwise (·.position < ·.position) ∧
      ∃ texts : List String, String.join texts = css ∧
        List.Forall₂ (fun text t => tokenize text = .ok [⟨t.kind, 0⟩]) texts ts ∧
        ∀ i (hi : i < ts.length),
          let before := String.join (texts.take i)
          let behind := String.join (texts.drop i)
          before ++ behind = css ∧ before.utf8ByteSize = ts[i].position ∧
            tokenize before = .ok (ts.take i) ∧
            ∃ us, tokenize behind = .ok us ∧ us.map (Token.shift ts[i].position) = ts.drop i := by
  obtain ⟨ls, hls, htext, rfl⟩ := tokens_eq_ok_iff.mp h
  have hjoin : String.join (Lexeme.strings ls) = css := by
    rw [join_strings, htext, String.ofList_toList]
  refine ⟨?_, hls.pairwise_position 0, Lexeme.strings ls, hjoin, hls.tokenize_text 0,
    fun i hi => ?_⟩
  · cases ls with
    | nil => simp [tokensAt]
    | cons l ls => simp [tokensAt]
  have hi' : i < ls.length := by rwa [Lexeme.length_tokensAt] at hi
  obtain ⟨as, l, bs, rfl, rfl⟩ : ∃ as l bs, ls = as ++ l :: bs ∧ as.length = i :=
    ⟨ls.take i, ls[i], ls.drop (i + 1), by simp, by simp; omega⟩
  obtain ⟨_, hget⟩ := List.getElem?_eq_some_iff.mp (Lexeme.getElem?_tokensAt 0 as l bs)
  obtain ⟨hbefore, us, hus, hshift⟩ := hls.tokenize_halves
  -- The texts and the tokens are cut at the same place as the lexemes are.
  have htake : (Lexeme.strings (as ++ l :: bs)).take as.length = Lexeme.strings as := by
    simp [Lexeme.strings]
  have hdrop : (Lexeme.strings (as ++ l :: bs)).drop as.length = Lexeme.strings (l :: bs) := by
    simp [Lexeme.strings]
  simp only [htake, hdrop, hget, Lexeme.take_tokensAt, Lexeme.drop_tokensAt, Nat.zero_add]
  refine ⟨?_, ?_, hbefore, us, hus, hshift _⟩
  · rw [← hjoin, join_strings, join_strings, join_strings, Lexeme.textOf_append,
      String.ofList_append]
  · rw [join_strings, utf8ByteSize_ofList]

/-- An escape that takes in the space behind it, between a character of two bytes and a bracket: the
space is not cut off. -/
theorem tokenize_cut_escape :
    let ts : List Token := [⟨.ident "é", 0⟩, ⟨.hash "1", 2⟩, ⟨.delim '>', 7⟩]
    tokenize "é#\\31 >" = .ok ts ∧ ∃ before behind us, before ++ behind = "é#\\31 >" ∧
      before.utf8ByteSize = 7 ∧ tokenize before = .ok [⟨.ident "é", 0⟩, ⟨.hash "1", 2⟩] ∧
      tokenize behind = .ok us ∧ us.map (Token.shift 7) = [⟨.delim '>', 7⟩] := by
  intro ts
  have htokens : tokenize "é#\\31 >" = .ok ts := by decide +kernel
  obtain ⟨_, _, texts, _, _, hcut⟩ := tokenize_cut htokens
  obtain ⟨hjoin, hsize, hbefore, us, hbehind, hshift⟩ := hcut 2 (by decide)
  exact ⟨htokens, _, _, us, hjoin, hsize, hbefore, hbehind, hshift⟩

end XPathLocator.Css
