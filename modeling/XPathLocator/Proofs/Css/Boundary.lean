import XPathLocator.Proofs.Css.Trailing
import XPathLocator.Proofs.Text.Digits

/-!
# `XPathLocator.Proofs.Css.Boundary`: where a token ends

What stands behind a token decides where the token ends, and nothing else about it: put another
text there, and the same token is read, unless it goes on into that text. `StopsLike u t` says
when it does not. No token that ends in front of `u` goes on into `t`, because `t` starts with
a character that `u` starts with too, or with one that is a token by itself.

`Fronts.behind` says this of tokens. The other lemmas say it of the parts of a token, one for
each function of the lexer: each of them takes a piece of the text, and takes the same piece
in front of another text.

One token looks further than the others. A backslash is a character of its own only if no
escape starts with it, and any character but a line feed would make it one.
-/

set_option autoImplicit false

namespace XPathLocator.Css

open Text (isBlank run_append)
open Token (Kind)

/-! ### Texts that end a token -/

/-- The second text starts as the first one does, or with punctuation, or it is empty. -/
def StartsLike (u t : List Char) : Prop :=
  ∀ c ∈ t.head?, isPunctuation c ∨ u.head? = some c

/-- No name, number or white space that ends in front of the first text goes on into the second. -/
structure StopsLike (u t : List Char) : Prop where
  head : StartsLike u t
  escape : startsEscape t → startsEscape u
  point : ∀ r, t = '.' :: r → r.head?.any Char.isDigit →
    ∃ s, u = '.' :: s ∧ s.head?.any Char.isDigit

variable {u t : List Char}

/-- A class without punctuation that the first text does not start with. -/
theorem StartsLike.any_head {p : Char → Bool} (h : StartsLike u t)
    (hp : ∀ c, isPunctuation c → p c = false) (hu : u.head?.any p = false) :
    t.head?.any p = false := by
  cases ht : t.head? with
  | none => rfl
  | some c =>
      rcases h c ht with hc | hc
      · exact hp c hc
      · rwa [hc] at hu

/-- The start of a text starts as the text does. -/
theorem StartsLike.of_isPrefix (h : t <+: u) : StartsLike u t := by
  intro c hc
  obtain ⟨v, rfl⟩ := h
  rw [List.head?_append, hc]
  exact .inr rfl

/-- Behind the same text, two texts start alike. -/
theorem StartsLike.append_left (h : StartsLike u t) (w : List Char) :
    StartsLike (w ++ u) (w ++ t) := by
  cases w with
  | nil => exact h
  | cons c w => exact fun d hd => .inr hd

/-- Punctuation is no white space. -/
theorem isPunctuation_blank {c : Char} (h : isPunctuation c) : isBlank c = false :=
  (isPunctuation_iff.mp h).1

/-- Punctuation is no digit. -/
theorem isPunctuation_digit {c : Char} (h : isPunctuation c) : c.isDigit = false :=
  (isPunctuation_iff.mp h).2.2.1

/-- Punctuation is no backslash. -/
theorem isPunctuation_ne_backslash {c : Char} (h : isPunctuation c) : c ≠ '\\' :=
  (isPunctuation_iff.mp h).2.2.2.2.2.2.2

/-- Punctuation is not part of a name. -/
theorem isPunctuation_nameChar {c : Char} (h : isPunctuation c) : isNameChar c = false := by
  obtain ⟨_, hstart, hdigit, _, _, _, hhyphen, _⟩ := isPunctuation_iff.mp h
  simp [isNameChar, hstart, hdigit, hhyphen]

/-- Hexadecimal digits are name characters. -/
theorem isNameChar_of_isHexDigit {c : Char} (h : c.isHexDigit) : isNameChar c := by
  have hrange := isHexDigit_range h
  have hletter : c.isAlpha ∨ c.isDigit := by
    rw [Text.isAlpha_iff_toNat, Char.isDigit_iff_toNat]
    change _ ∨ 48 ≤ c.toNat ∧ c.toNat ≤ 57
    omega
  rcases hletter with hletter | hletter <;> simp [isNameChar, isNameStart, hletter]

/-- Punctuation is no hexadecimal digit. -/
theorem isPunctuation_hexDigit {c : Char} (h : isPunctuation c) : c.isHexDigit = false := by
  rw [Bool.eq_false_iff]
  intro hhex
  exact absurd (isNameChar_of_isHexDigit hhex) (by simp [isPunctuation_nameChar h])

/-- Where no name starts, none starts in a text that stops like it. -/
theorem StopsLike.startsName (h : StopsLike u t) (hu : startsName u = false) :
    startsName t = false := by
  cases t with
  | nil => rfl
  | cons c r =>
      rcases h.head c rfl with hc | hc
      · exact startsName_eq_false r (isPunctuation_nameChar hc) (isPunctuation_ne_backslash hc)
      · obtain ⟨s, rfl⟩ : ∃ s, u = c :: s := by
          cases u with
          | nil => cases hc
          | cons d s => exact ⟨s, by rw [Option.some.inj hc]⟩
        rw [Css.startsName, Bool.or_eq_false_iff] at hu ⊢
        exact ⟨hu.1, Bool.eq_false_iff.mpr fun hescape => by simp [h.escape hescape] at hu⟩

/-- An escape that starts in the beginning of a text starts in the text. -/
theorem startsEscape_of_isPrefix (h : t <+: u) (ht : startsEscape t) : startsEscape u := by
  obtain ⟨v, rfl⟩ := h
  cases t with
  | nil => cases ht
  | cons c r =>
      cases r with
      | nil => simp [startsEscape_cons] at ht
      | cons d r =>
          rw [List.cons_append, startsEscape_cons]
          rwa [startsEscape_cons] at ht

/-- What is left of a text is ended like the text, since it only ends earlier. -/
theorem StopsLike.of_isPrefix (h : t <+: u) : StopsLike u t := by
  refine ⟨.of_isPrefix h, startsEscape_of_isPrefix h, ?_⟩
  rintro r rfl hdigit
  obtain ⟨v, rfl⟩ := h
  refine ⟨r ++ v, rfl, ?_⟩
  cases r with
  | nil => cases hdigit
  | cons d r => exact hdigit

/-- Punctuation behind a text ends what the end of the text does, except for an open
backslash. -/
theorem StopsLike.append_punctuation {d : Char} (hd : isPunctuation d) (hpoint : d ≠ '.')
    (hu : u ≠ ['\\']) (v : List Char) : StopsLike u (u ++ d :: v) := by
  cases u with
  | nil =>
      refine ⟨fun c hc => .inl (Option.some.inj hc ▸ hd), fun h => ?_, ?_⟩
      · rw [List.nil_append, startsEscape_cons, Bool.and_eq_true, beq_iff_eq] at h
        exact absurd h.1 (isPunctuation_ne_backslash hd)
      · rintro r ⟨⟩
        exact absurd rfl hpoint
  | cons c u =>
      refine ⟨fun e he => .inr he, fun h => ?_, ?_⟩
      · have hopen : c ≠ '\\' ∨ u ≠ [] := by
          by_contra hnot
          obtain ⟨rfl, rfl⟩ : c = '\\' ∧ u = [] := by simpa using hnot
          exact hu rfl
        rwa [List.cons_append, startsEscape_append c u hopen] at h
      · rintro r ⟨⟩ hdigit
        refine ⟨u, rfl, ?_⟩
        cases u with
        | nil =>
            have hnot : d.isDigit = true := hdigit
            rw [isPunctuation_digit hd] at hnot
            cases hnot
        | cons e u => exact hdigit

/-! ### Escapes, names, strings and numbers -/

/-- Where an escape ends, it ends in front of a text that starts alike. -/
theorem Escape.EndsAt.of_startsLike {e : Escape} (h : e.EndsAt u) (ht : StartsLike u t) :
    e.EndsAt t := by
  cases e with
  | char c => exact h
  | code digits stop =>
      obtain ⟨hne, hlength, hdigits, hstop⟩ := h
      refine ⟨hne, hlength, hdigits, ?_⟩
      cases stop with
      | some b => exact hstop
      | none =>
          refine ⟨ht.any_head (fun _ => isPunctuation_blank) hstop.1, hstop.2.imp_right ?_⟩
          exact ht.any_head fun _ => isPunctuation_hexDigit

/-- An escape takes a piece of the text, and the same piece in front of a text that starts like
what is left. -/
theorem escape_behind {c : Char} (hc : c ≠ '\n') (r : List Char) :
    ∃ w, r = w ++ (escape (c :: r)).2 ∧ ∀ t, StartsLike (escape (c :: r)).2 t →
      escape (c :: (w ++ t)) = ((escape (c :: r)).1, t) := by
  obtain ⟨e, rest, hsplit, hends⟩ := exists_escape hc r
  obtain ⟨d, w, htext, _⟩ := hends.text_eq_cons
  rw [htext, List.cons_append] at hsplit
  obtain ⟨rfl, rfl⟩ := List.cons.inj hsplit
  have hread : ∀ t, e.EndsAt t → escape (c :: (w ++ t)) = (e.value, t) := by
    intro t ht
    rw [← List.cons_append, ← htext]
    exact escape_text ht
  rw [hread rest hends]
  exact ⟨w, rfl, fun t ht => hread t (hends.of_startsLike ht)⟩

/-- Behind a name no name starts. -/
theorem startsName_rest (s : List Char) : startsName (name s).2 = false := by
  fun_induction name s with
  | case1 => rfl
  | case2 c r hc cs rest h ih => rwa [h] at ih
  | case3 c r hc he cs rest h ih => rwa [h] at ih
  | case4 c r hc he => simp [startsName, hc, he]

/-- Where no name goes on, no digit stands. -/
theorem any_head_of_startsName {s : List Char} (h : startsName s = false) :
    s.head?.any Char.isDigit = false := by
  cases s with
  | nil => rfl
  | cons c r =>
      simp only [startsName, isNameChar, Bool.or_eq_false_iff] at h
      exact h.1.1.2

/-- A name takes a piece of the text, and the same piece in front of a text that stops it. -/
theorem name_behind (s : List Char) :
    ∃ w, s = w ++ (name s).2 ∧ ∀ t, StopsLike (name s).2 t → name (w ++ t) = ((name s).1, t) := by
  fun_induction name s with
  | case1 =>
      exact ⟨[], rfl, fun t ht => name_of_startsName_eq_false (ht.startsName rfl)⟩
  | case2 c r hc cs rest h ih =>
      rw [h] at ih
      obtain ⟨w, rfl, hname⟩ := ih
      refine ⟨c :: w, rfl, fun t ht => ?_⟩
      rw [List.cons_append, name, if_pos hc, hname t ht]
  | case3 c r hc he cs rest h ih =>
      rw [h] at ih
      cases r with
      | nil => simp [startsEscape_cons] at he
      | cons d r =>
          have hd : d ≠ '\n' := by
            rintro rfl
            simp [startsEscape_cons] at he
          -- The piece of the escape and the piece of the name behind it. What follows the escape
          -- starts alike, so the escape ends there too.
          obtain ⟨w, hw, hescape⟩ := escape_behind hd r
          obtain ⟨v, hv, hname⟩ := ih
          refine ⟨c :: d :: (w ++ v), ?_, fun t ht => ?_⟩
          · rw [List.cons_append, List.cons_append, List.append_assoc, ← hv, ← hw]
          · rw [hv] at hescape
            have hstart : startsEscape (c :: d :: (w ++ (v ++ t))) := by
              rwa [startsEscape_cons] at he ⊢
            rw [List.cons_append, List.cons_append, List.append_assoc, name, if_neg hc,
              if_pos hstart, hescape _ (ht.head.append_left v), hname t ht]
  | case4 c r hc he =>
      refine ⟨[], rfl, fun t ht => name_of_startsName_eq_false (ht.startsName ?_)⟩
      simp [startsName, hc, he]

/-- The pieces of a string are pieces of it in front of any text. -/
theorem eachBefore_inString_append {quote : Char} {ps : List Piece} (u t : List Char)
    (h : Piece.EachBefore (Piece.InString quote) (quote :: u) ps) :
    Piece.EachBefore (Piece.InString quote) (quote :: t) ps := by
  induction ps with
  | nil => trivial
  | cons p ps ih =>
      refine ⟨?_, ih h.2⟩
      cases p with
      | plain c => exact h.1
      | lineFeed => trivial
      | escaped e =>
          -- The closing quote is there, so both texts start with the same character.
          have hlike : StartsLike (quote :: u) (quote :: t) := fun c hc => .inr hc
          exact Escape.EndsAt.of_startsLike h.1 (hlike.append_left _)

/-- A string ends with its closing quote, whatever stands behind. -/
theorem quoted?_behind {quote : Char} (hquote : quote ≠ '\\') {s value rest : List Char}
    (h : quoted? quote s = some (value, rest)) :
    ∃ w, s = w ++ rest ∧ ∀ t, quoted? quote (w ++ t) = some (value, t) := by
  obtain ⟨ps, rfl, hps, rfl⟩ := exists_pieces_of_quoted? h
  refine ⟨Piece.textOf ps ++ [quote], by simp, fun t => ?_⟩
  rw [List.append_assoc, List.singleton_append]
  exact quoted?_pieces hquote (eachBefore_inString_append rest t hps)

/-- Digits, in front of a text that neither goes on with them nor with a point and digits. -/
theorem number_digits {ds : List Char} (hds : ∀ c ∈ ds, c.isDigit)
    (hhead : t.head?.any Char.isDigit = false)
    (hpoint : ∀ r, t = '.' :: r → r.head?.any Char.isDigit = false) :
    number (ds ++ t) = (ds, t) := by
  obtain ⟨htake, hdrop⟩ := run_append hds hhead
  rw [number, htake, hdrop]
  split
  · next r =>
    rw [Text.takeWhile_of_head (hpoint r rfl)]
  · rfl

/-- Digits and a point with digits behind it, in front of a text that goes on with no digit. -/
theorem number_point {ds : List Char} (hds : ∀ c ∈ ds, c.isDigit) {e : Char} {es : List Char}
    (hes : ∀ c ∈ e :: es, c.isDigit) (hhead : t.head?.any Char.isDigit = false) :
    number (ds ++ '.' :: (e :: es ++ t)) = (ds ++ '.' :: e :: es, t) := by
  obtain ⟨htake, hdrop⟩ := run_append (w := '.' :: (e :: es ++ t)) hds rfl
  obtain ⟨htake', hdrop'⟩ := run_append hes hhead
  rw [number, htake, hdrop]
  simp only [htake', hdrop']

/-- A number takes a piece of the text, and the same piece in front of a text that stops it. -/
theorem number_behind (s : List Char) :
    ∃ w, s = w ++ (number s).2 ∧
      ∀ t, StopsLike (number s).2 t → number (w ++ t) = ((number s).1, t) := by
  have hsplit : s = s.takeWhile Char.isDigit ++ s.dropWhile Char.isDigit :=
    List.takeWhile_append_dropWhile.symm
  have hds : ∀ c ∈ s.takeWhile Char.isDigit, c.isDigit := fun c hc => List.mem_takeWhile_imp hc
  have hrest := Text.head_dropWhile Char.isDigit s
  generalize s.takeWhile Char.isDigit = ds at hsplit hds
  generalize s.dropWhile Char.isDigit = u at hsplit hrest
  subst hsplit
  by_cases hpoint : ∃ r, u = '.' :: r ∧ r.head?.any Char.isDigit
  · obtain ⟨r, rfl, hr⟩ := hpoint
    -- The digits behind the point are there, so they are taken, and what is left is behind them.
    have hsplit : r = r.takeWhile Char.isDigit ++ r.dropWhile Char.isDigit :=
      List.takeWhile_append_dropWhile.symm
    have hes : ∀ c ∈ r.takeWhile Char.isDigit, c.isDigit := fun c hc => List.mem_takeWhile_imp hc
    have hhead := Text.head_dropWhile Char.isDigit r
    generalize r.takeWhile Char.isDigit = es at hsplit hes
    generalize r.dropWhile Char.isDigit = v at hsplit hhead
    subst hsplit
    cases es with
    | nil =>
        rw [List.nil_append, hhead] at hr
        cases hr
    | cons e es =>
        rw [number_point hds hes hhead]
        refine ⟨ds ++ '.' :: e :: es, by simp, fun t ht => ?_⟩
        rw [List.append_assoc]
        exact number_point hds hes (ht.head.any_head (fun _ => isPunctuation_digit) hhead)
  · have hnot : ∀ r, u = '.' :: r → r.head?.any Char.isDigit = false := fun r hr =>
      Bool.eq_false_iff.mpr fun hdigit => hpoint ⟨r, hr, hdigit⟩
    rw [number_digits hds hrest hnot]
    refine ⟨ds, rfl, fun t ht => number_digits hds ?_ fun r hr => ?_⟩
    · exact ht.head.any_head (fun _ => isPunctuation_digit) hrest
    · exact Bool.eq_false_iff.mpr fun hdigit => hpoint (ht.point r hr hdigit)

/-! ### Tokens -/

/-- A character that starts no identifier starts none in front of another text, if a backslash
stays one. -/
theorem StopsLike.startsIdent {c : Char} (h : StopsLike u t) (hdigit : c.isDigit = false)
    (hopen : c = '\\' → startsEscape ('\\' :: t) → startsEscape ('\\' :: u))
    (hu : startsIdent (c :: u) = false) : startsIdent (c :: t) = false := by
  by_cases hc : c = '-'
  · subst hc
    rw [startsIdent_hyphen, Bool.and_eq_false_iff] at hu ⊢
    rcases hu with hu | hu
    · exact .inl (h.startsName hu)
    · -- A digit stands behind the hyphen, which is there in front of the other text too, or
      -- punctuation is.
      cases t with
      | nil => exact .inl rfl
      | cons d r =>
          rcases h.head d rfl with hd | hd
          · exact .inl (startsName_eq_false r (isPunctuation_nameChar hd)
              (isPunctuation_ne_backslash hd))
          · rw [hd] at hu
            exact .inr hu
  · rw [startsIdent_of_ne _ hc hdigit, Css.startsName, Bool.or_eq_false_iff] at hu ⊢
    refine ⟨hu.1, Bool.eq_false_iff.mpr fun hescape => ?_⟩
    have hbackslash : c = '\\' := by
      rw [startsEscape_cons, Bool.and_eq_true, beq_iff_eq] at hescape
      exact hescape.1
    subst hbackslash
    rw [hopen rfl hescape] at hu
    cases hu.2

/-- A piece that leaves less than there was starts with the first character. -/
theorem exists_eq_cons {c : Char} {r w rest : List Char} (h : c :: r = w ++ rest)
    (hlength : rest.length < (c :: r).length) : ∃ v, w = c :: v ∧ r = v ++ rest := by
  cases w with
  | nil =>
      rw [List.nil_append] at h
      rw [h] at hlength
      exact absurd hlength (Nat.lt_irrefl _)
  | cons d v =>
      obtain ⟨rfl, hr⟩ := List.cons.inj h
      exact ⟨v, rfl, hr⟩

/-- A name that is an identifier is one in front of another text that stops it. -/
theorem startsIdent_behind {c : Char} {r w : List Char} (hstarts : startsIdent (c :: r))
    (hr : r = w ++ (name (c :: r)).2) (ht : StopsLike (name (c :: r)).2 t)
    (hname : (name (c :: (w ++ t))).1 = (name (c :: r)).1) : startsIdent (c :: (w ++ t)) := by
  have hhead : (w ++ t).head?.any Char.isDigit = r.head?.any Char.isDigit := by
    rw [hr]
    cases w with
    | cons d w => rfl
    | nil =>
        -- Nothing of `r` is part of the name, so `r` starts with no name character.
        have hrest : (name (c :: r)).2.head?.any Char.isDigit = false :=
          any_head_of_startsName (startsName_rest _)
        exact (ht.head.any_head (fun _ => isPunctuation_digit) hrest).trans hrest.symm
  rwa [startsIdent_congr (not_isDigit_of_startsIdent hstarts) hname hhead]

/-- **The token in front takes a piece of the text**, and the same piece in front of another text
that stops it. -/
theorem Fronts.behind {c : Char} {r rest : List Char} {k : Kind} (h : Fronts c r k rest) :
    ∃ w, r = w ++ rest ∧ ∀ t, StopsLike rest t →
      (k = .delim '\\' → startsEscape ('\\' :: t) → startsEscape ('\\' :: rest)) →
      Fronts c (w ++ t) k t := by
  cases h with
  | blank head =>
      refine ⟨r.takeWhile isBlank, List.takeWhile_append_dropWhile.symm, fun t ht _ => ?_⟩
      have hhead := ht.head.any_head (fun _ => isPunctuation_blank) (Text.head_dropWhile isBlank r)
      have hall : ∀ d ∈ r.takeWhile isBlank, isBlank d := fun d hd => List.mem_takeWhile_imp hd
      have htoken := Fronts.blank (r := r.takeWhile isBlank ++ t) head
      rwa [(run_append hall hhead).2] at htoken
  | string head closed =>
      obtain ⟨w, rfl, hsame⟩ := quoted?_behind head.ne_backslash closed
      exact ⟨w, rfl, fun t _ _ => .string head (hsame t)⟩
  | hash head starts =>
      obtain ⟨w, hw, hname⟩ := name_behind r
      refine ⟨w, hw, fun t ht _ => ?_⟩
      have htoken := Fronts.hash (r := w ++ t) head
        (by rwa [startsName_congr (s := w ++ t) (t := r) (by rw [hname t ht])])
      rwa [hname t ht] at htoken
  | number head =>
      obtain ⟨_, hw, hnumber⟩ := number_behind (c :: r)
      obtain ⟨w, rfl, hr⟩ := exists_eq_cons hw (number_length_lt head r)
      refine ⟨w, hr, fun t ht _ => ?_⟩
      have htoken := Fronts.number (r := w ++ t) head
      rwa [← List.cons_append, hnumber t ht] at htoken
  | ident head starts =>
      obtain ⟨_, hw, hname⟩ := name_behind (c :: r)
      obtain ⟨w, rfl, hr⟩ := exists_eq_cons hw (name_length_lt (startsName_of_startsIdent starts))
      refine ⟨w, hr, fun t ht _ => ?_⟩
      have hsame : name (c :: (w ++ t)) = ((name (c :: r)).1, t) := hname t ht
      have htoken := Fronts.ident head (startsIdent_behind starts hr ht (by rw [hsame]))
      rwa [hsame] at htoken
  | delim blank quote digit hash ident =>
      refine ⟨[], rfl, fun t ht hopen => ?_⟩
      exact .delim blank quote digit (fun hc => ht.startsName (hash hc))
        (ht.startsIdent digit (fun hc => hopen (by rw [hc])) ident)

/-- It does not matter where the text stands. -/
theorem front_behind {position : Nat} {c : Char} {r rest : List Char} {k : Kind}
    (h : front position c r = .ok (k, rest)) :
    ∃ w, r = w ++ rest ∧ ∀ t, StopsLike rest t →
      (k = .delim '\\' → startsEscape ('\\' :: t) → startsEscape ('\\' :: rest)) →
      ∀ position', front position' c (w ++ t) = .ok (k, t) := by
  obtain ⟨w, hw, hsame⟩ := (fronts_of_front h).behind
  exact ⟨w, hw, fun t ht hopen => (hsame t ht hopen).front_eq_ok⟩

end XPathLocator.Css
