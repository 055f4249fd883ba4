import XPathLocator.Proofs.Css.Spelling
import XPathLocator.Proofs.Text.Trim

/-!
# `XPathLocator.Proofs.Css.Trailing`: white space behind a text

What the lexer reads in front of a text is mostly the same with white space behind the
text. An escape may take one character of the white space for the end of its digits and a
string may not end before it, but neither is another value for that. There is one
exception: a name may go on. Some white space is made of name characters, and an open
backslash makes any character one. Then the name ends in that white space, and it reached
the end of the text before, or an open backslash there (`GoesOn`).

`front_append` says this of tokens. The other lemmas say it of the parts of a token, one
for each function of the lexer.
-/

set_option autoImplicit false

namespace XPathLocator.Css

open Text (isBlank AllBlank takeWhile_append_of_head dropWhile_append_of_head)
open Token (Kind)

/-! ### Names -/

/-- White space does not start with a character that is something else. -/
theorem head_not_of_allBlank {p : Char → Bool} (hp : ∀ c, isBlank c → p c = false)
    {w : List Char} (hw : AllBlank w) : w.head?.any p = false := by
  cases w with
  | nil => rfl
  | cons c w => exact hp c (hw c List.mem_cons_self)

/-- Where no digit follows, an escape is the same, but for one white-space character behind
its last digit. -/
theorem escape_append_of_head (c : Char) (r : List Char) {w : List Char}
    (hw : w.head?.any Char.isHexDigit = false) :
    ∃ v, (v = w ∨ v = dropBlank w) ∧
      escape (c :: (r ++ w)) = ((escape (c :: r)).1, (escape (c :: r)).2 ++ v) := by
  rw [escape, escape]
  split
  · have hmore : ((r ++ w).take 5).takeWhile Char.isHexDigit =
        (r.take 5).takeWhile Char.isHexDigit := by
      rw [List.take_append, takeWhile_append_of_head]
      cases 5 - r.length with
      | zero => rfl
      | succ k => rwa [List.head?_take, if_neg (Nat.succ_ne_zero k)]
    simp only [hmore]
    have hlength : ((r.take 5).takeWhile Char.isHexDigit).length ≤ r.length :=
      Nat.le_trans (List.takeWhile_prefix _).length_le (List.take_prefix _ _).length_le
    rw [List.drop_append_of_le_length hlength]
    generalize r.drop ((r.take 5).takeWhile Char.isHexDigit).length = s
    -- The escape reaches into `w` only where it reached the end before.
    cases s with
    | nil => exact ⟨_, .inr rfl, rfl⟩
    | cons d s =>
        refine ⟨w, .inl rfl, ?_⟩
        rw [List.cons_append, dropBlank, dropBlank]
        split <;> rfl
  · exact ⟨w, .inl rfl, rfl⟩

/-- With white space behind its text an escape has the same value, and takes at most the end of its
digits from it. -/
theorem escape_append (c : Char) (r : List Char) {w : List Char} (hw : AllBlank w) :
    ∃ v, AllBlank v ∧ escape (c :: (r ++ w)) = ((escape (c :: r)).1, (escape (c :: r)).2 ++ v) := by
  obtain ⟨v, hv, hescape⟩ := escape_append_of_head c r
    (head_not_of_allBlank (fun _ => not_isHexDigit_of_isBlank) hw)
  refine ⟨v, ?_, hescape⟩
  rcases hv with rfl | rfl
  · exact hw
  · cases w with
    | nil => exact hw
    | cons d w =>
        rw [dropBlank, if_pos (hw d List.mem_cons_self)]
        exact fun e he => hw e (List.mem_cons_of_mem _ he)

/-- White space behind a backslash is what the escape stands for. -/
theorem escape_blank {c : Char} (r : List Char) (hc : isBlank c) : escape (c :: r) = (c, r) := by
  rw [escape, not_isHexDigit_of_isBlank hc]
  rfl

/-- White space behind a text starts an escape only with an open backslash. -/
theorem startsEscape_append (c : Char) (r : List Char) {w : List Char} (h : c ≠ '\\' ∨ r ≠ []) :
    startsEscape (c :: (r ++ w)) = startsEscape (c :: r) := by
  rw [startsEscape_cons, startsEscape_cons]
  cases r with
  | nil => simp [h.resolve_right (by simp)]
  | cons d r => rfl

/-- Of white space, a name takes white space and leaves white space. -/
theorem name_blank {w : List Char} (hw : AllBlank w) :
    AllBlank (name w).1 ∧ AllBlank (name w).2 := by
  induction w with
  | nil =>
      rw [name]
      exact ⟨hw, hw⟩
  | cons c w ih =>
      rw [Text.AllBlank, List.forall_mem_cons] at hw
      obtain ⟨htaken, hleft⟩ := ih hw.2
      have hescape : startsEscape (c :: w) = false := by
        rw [startsEscape_cons, Bool.and_eq_false_iff]
        refine .inl (beq_eq_false_iff_ne.mpr ?_)
        rintro rfl
        exact absurd hw.1 (by decide)
      rw [name]
      split
      · exact ⟨List.forall_mem_cons.mpr ⟨hw.1, htaken⟩, hleft⟩
      · rw [if_neg (by simp [hescape])]
        exact ⟨by simp [Text.AllBlank], List.forall_mem_cons.mpr hw⟩

/-- A name and what is left behind it: the name ends in white space, and nothing but white
space is left. -/
def TakesBlank (x : List Char × List Char) : Prop :=
  x.1.getLast?.any isBlank ∧ AllBlank x.2

/-- A name that ends in white space still does with a character in front of it. -/
theorem TakesBlank.cons {cs rest : List Char} (c : Char) (h : TakesBlank (cs, rest)) :
    TakesBlank (c :: cs, rest) := by
  refine ⟨?_, h.2⟩
  cases cs with
  | nil => exact absurd h.1 (by simp)
  | cons d cs =>
      show ((c :: d :: cs).getLast?).any isBlank
      rw [List.getLast?_cons_cons]
      exact h.1

/-- A name may start with white space that is part of it. -/
theorem takesBlank_cons_of_blank {c : Char} {cs rest : List Char} (hc : isBlank c)
    (hcs : AllBlank cs) (hrest : AllBlank rest) : TakesBlank (c :: cs, rest) := by
  refine ⟨?_, hrest⟩
  have hall : AllBlank (c :: cs) := List.forall_mem_cons.mpr ⟨hc, hcs⟩
  cases hlast : (c :: cs).getLast? with
  | none => simp at hlast
  | some d => exact hall d (List.mem_of_getLast? hlast)

/-- White space is escaped by an open backslash. -/
theorem takesBlank_of_open {w : List Char} (hw : AllBlank w) (h : startsEscape ('\\' :: w)) :
    TakesBlank (name ('\\' :: w)) := by
  match w, hw, h with
  | d :: w, hw, h =>
      rw [Text.AllBlank, List.forall_mem_cons] at hw
      obtain ⟨htaken, hleft⟩ := name_blank hw.2
      rw [name, if_neg (by decide), if_pos h, escape_blank w hw.1]
      exact takesBlank_cons_of_blank hw.1 htaken hleft

/-- White space is either no name or the start of one that ends in it. -/
theorem name_of_blank {w : List Char} (hw : AllBlank w) :
    name w = ([], w) ∨ TakesBlank (name w) := by
  cases hstart : startsName w with
  | false => exact .inl (name_of_startsName_eq_false hstart)
  | true =>
      obtain ⟨htaken, hleft⟩ := name_blank hw
      cases hcs : (name w).1 with
      | nil => exact absurd (String.ofList_eq_empty_iff.mpr hcs) (ofList_name_ne_empty hstart)
      | cons c cs =>
          rw [hcs, Text.AllBlank, List.forall_mem_cons] at htaken
          have hcons := takesBlank_cons_of_blank htaken.1 htaken.2 hleft
          rw [← hcs] at hcons
          exact .inr hcons

/-- A name that ends in white space has a character. -/
theorem TakesBlank.ne_nil {x : List Char × List Char} (h : TakesBlank x) : x.1 ≠ [] := by
  intro hnil
  have hlast := h.1
  rw [hnil] at hlast
  cases hlast

/-- The name in front of a text goes on into the white space behind the text: all of the text
is read by then, or all but an open backslash. -/
structure GoesOn (u w : List Char) : Prop where
  takes : TakesBlank (name (u ++ w))
  ne : (name (u ++ w)).1 ≠ (name u).1
  rest : (name u).2 = [] ∨ (name u).2 = ['\\']

/-- One more character in front of both names. -/
theorem GoesOn.cons {u w u' w' : List Char} {c : Char} (h : GoesOn u w)
    (hu : name u' = (c :: (name u).1, (name u).2))
    (huw : name (u' ++ w') = (c :: (name (u ++ w)).1, (name (u ++ w)).2)) : GoesOn u' w' := by
  refine ⟨huw ▸ h.takes.cons c, ?_, by rw [hu]; exact h.rest⟩
  rw [hu, huw]
  exact fun heq => h.ne (List.cons_inj_right c |>.mp heq)

/-- White space behind a text is no part of the name in front, or the name goes on into it. -/
theorem name_append (u : List Char) {w : List Char} (hw : AllBlank w) :
    (∃ v, AllBlank v ∧ name (u ++ w) = ((name u).1, (name u).2 ++ v)) ∨ GoesOn u w := by
  fun_induction name u generalizing w with
  | case1 =>
      refine (name_of_blank hw).imp (fun h => ⟨w, hw, h⟩) fun htakes => ⟨htakes, ?_, ?_⟩
      · rw [name]
        exact htakes.ne_nil
      · exact .inl (by rw [name])
  | case2 c r hc cs rest h ih =>
      rw [List.cons_append, name, if_pos hc]
      rcases ih hw with ⟨v, hv, hname⟩ | hon
      · exact .inl ⟨v, hv, by rw [hname, h]⟩
      · refine .inr (hon.cons (c := c) ?_ ?_)
        · rw [name, if_pos hc]
        · rw [List.cons_append, name, if_pos hc]
  | case3 c r hc he cs rest h ih =>
      -- An escape may take one white-space character for its end, so the rest of the name has `v`
      -- behind it and not `w`.
      cases r with
      | nil => simp [startsEscape_cons] at he
      | cons d r =>
          have hstart := startsEscape_append c (d :: r) (w := w) (.inr (List.cons_ne_nil _ _))
          obtain ⟨v, hv, hescape⟩ := escape_append d r hw
          have hread : name (c :: d :: r ++ w) = ((escape (d :: r)).1 ::
              (name ((escape (d :: r)).2 ++ v)).1, (name ((escape (d :: r)).2 ++ v)).2) := by
            rw [List.cons_append, name, if_neg hc, if_pos (hstart ▸ he), List.cons_append, hescape]
          rcases ih hv with ⟨v', hv', hname⟩ | hon
          · exact .inl ⟨v', hv', by rw [hread, hname, h]⟩
          · refine .inr (hon.cons (c := (escape (d :: r)).1) ?_ hread)
            rw [name, if_neg hc, if_pos he]
  | case4 c r hc he =>
      -- No name starts here, and none does with white space behind, unless this is an open
      -- backslash. That escapes the white space.
      by_cases hopen : c ≠ '\\' ∨ r ≠ []
      · have hstart := startsEscape_append c r (w := w) hopen
        exact .inl ⟨w, hw, by rw [List.cons_append, name, if_neg hc, if_neg (hstart ▸ he)]⟩
      · obtain ⟨rfl, rfl⟩ : c = '\\' ∧ r = [] := by simpa using hopen
        have hname : name ['\\'] = ([], ['\\']) := by rw [name, if_neg hc, if_neg he]
        cases hstart : startsEscape ('\\' :: w) with
        | true =>
            have htakes : TakesBlank (name (['\\'] ++ w)) := takesBlank_of_open hw hstart
            exact .inr ⟨htakes, by rw [hname]; exact htakes.ne_nil, .inr (by rw [hname])⟩
        | false =>
            refine .inl ⟨w, hw, ?_⟩
            show name ('\\' :: w) = _
            rw [name, if_neg hc, if_neg (by simp [hstart])]
            rfl

/-! ### Strings and numbers -/

/-- White space closes no string. -/
theorem quoted?_blank {quote : Char} (hquote : isBlank quote = false) {w : List Char}
    (hw : AllBlank w) : quoted? quote w = none := by
  induction w with
  | nil => rw [quoted?]
  | cons c w ih =>
      rw [Text.AllBlank, List.forall_mem_cons] at hw
      have hc : c ≠ quote ∧ c ≠ '\\' := by
        refine ⟨?_, ?_⟩ <;> rintro rfl
        · rw [hquote] at hw
          cases hw.1
        · exact absurd hw.1 (by decide)
      rw [quoted?.eq_def]
      simp only
      rw [if_neg hc.1, if_neg hc.2, ih hw.2]
      rfl

/-- Nor does it with a backslash in front. -/
theorem quoted?_open {quote : Char} (hquote : isBlank quote = false) (hne : ¬ '\\' = quote)
    {w : List Char} (hw : AllBlank w) : quoted? quote ('\\' :: w) = none := by
  cases w with
  | nil => rw [quoted?, if_neg hne, if_pos rfl]
  | cons c w =>
      rw [Text.AllBlank, List.forall_mem_cons] at hw
      rw [quoted?, if_neg hne, if_pos rfl]
      simp only
      rw [escape_blank w hw.1, quoted?_blank hquote hw.2]
      split <;> rfl

/-- With white space behind its text a string has the same value, since it ends in its quote. -/
theorem quoted?_append {quote : Char} (hquote : isBlank quote = false) (u : List Char)
    {w : List Char} (hw : AllBlank w) :
    ∃ v, AllBlank v ∧ quoted? quote (u ++ w) = (quoted? quote u).map fun x => (x.1, x.2 ++ v) := by
  fun_induction quoted? quote u generalizing w with
  | case1 => exact ⟨w, hw, quoted?_blank hquote hw⟩
  | case2 r => exact ⟨w, hw, by rw [List.cons_append, quoted?.eq_def]; simp⟩
  | case3 hne => exact ⟨w, hw, quoted?_open hquote hne hw⟩
  | case4 t hne ih =>
      obtain ⟨v, hv, h⟩ := ih hw
      refine ⟨v, hv, ?_⟩
      rw [← h, List.cons_append, List.cons_append, quoted?, if_neg hne, if_pos rfl]
      rfl
  | case5 d t hne hd ih =>
      obtain ⟨v, hv, hescape⟩ := escape_append d t hw
      obtain ⟨v', hv', h⟩ := ih hv
      refine ⟨v', hv', ?_⟩
      rw [List.cons_append, List.cons_append, quoted?, if_neg hne, if_pos rfl]
      simp only
      rw [if_neg hd, hescape, h]
      simp [Function.comp_def]
  | case6 c r hne hc ih =>
      obtain ⟨v, hv, h⟩ := ih hw
      refine ⟨v, hv, ?_⟩
      rw [List.cons_append, quoted?.eq_def]
      simp only
      rw [if_neg hne, if_neg hc, h]
      simp [Function.comp_def]

/-- Digits without a point behind them. -/
theorem number_eq_digits {u : List Char} (h : ∀ r, u.dropWhile Char.isDigit ≠ '.' :: r) :
    number u = (u.takeWhile Char.isDigit, u.dropWhile Char.isDigit) := by
  rw [number]
  split
  · next r hr => exact absurd hr (h r)
  · rfl

/-- With white space behind its text a number is the same. A dot at its end starts no fraction
there. -/
theorem number_append (u : List Char) {w : List Char} (hw : AllBlank w) :
    number (u ++ w) = ((number u).1, (number u).2 ++ w) := by
  have hdigit : w.head?.any Char.isDigit = false :=
    head_not_of_allBlank (fun _ => not_isDigit_of_isBlank) hw
  have htake := takeWhile_append_of_head u hdigit
  have hdrop := dropWhile_append_of_head u hdigit
  by_cases hpoint : ∃ r, u.dropWhile Char.isDigit = '.' :: r
  · obtain ⟨r, hr⟩ := hpoint
    rw [number, number, htake, hdrop, hr]
    simp only [List.cons_append]
    rw [takeWhile_append_of_head r hdigit, dropWhile_append_of_head r hdigit]
    cases r.takeWhile Char.isDigit <;> rfl
  · have hu : ∀ r, u.dropWhile Char.isDigit ≠ '.' :: r := fun r hr => hpoint ⟨r, hr⟩
    -- A point behind the digits would have to be one of the white-space characters.
    have huw : ∀ r, (u ++ w).dropWhile Char.isDigit ≠ '.' :: r := by
      intro r hr
      rw [hdrop] at hr
      cases hrest : u.dropWhile Char.isDigit with
      | nil =>
          rw [hrest, List.nil_append] at hr
          exact absurd (hw '.' (by simp [hr])) (by decide)
      | cons c s =>
          rw [hrest] at hr
          cases hr
          exact hu _ hrest
    rw [number_eq_digits hu, number_eq_digits huw, htake, hdrop]

/-! ### Tokens -/

/-- A name starts where there is one to read. -/
theorem startsName_iff (s : List Char) : startsName s ↔ (name s).1 ≠ [] := by
  refine ⟨fun h hnil => ofList_name_ne_empty h (String.ofList_eq_empty_iff.mpr hnil), fun h => ?_⟩
  by_contra hstart
  rw [name_of_startsName_eq_false (by simpa using hstart)] at h
  exact h rfl

/-- Where the name is the same, it starts in both texts or in neither. -/
theorem startsName_congr {s t : List Char} (h : (name s).1 = (name t).1) :
    startsName s = startsName t := by
  rw [Bool.eq_iff_iff, startsName_iff, startsName_iff, h]

/-- A name that goes on into white space is a name. -/
theorem GoesOn.starts {u w : List Char} (h : GoesOn u w) : startsName (u ++ w) := by
  rw [startsName_iff]
  exact h.takes.ne_nil

/-- Two texts with the same name in front start an identifier or do not, if a digit stands behind
a hyphen in both or in neither. -/
theorem startsIdent_congr {c : Char} {r s : List Char} (hdigit : c.isDigit = false)
    (hname : (name (c :: r)).1 = (name (c :: s)).1)
    (hhead : r.head?.any Char.isDigit = s.head?.any Char.isDigit) :
    startsIdent (c :: r) = startsIdent (c :: s) := by
  by_cases hc : c = '-'
  · subst hc
    have hhyphen : ∀ s, (name ('-' :: s)).1 = '-' :: (name s).1 := fun s => by
      rw [name, if_pos (by decide)]
    rw [hhyphen, hhyphen, List.cons.injEq] at hname
    rw [startsIdent_hyphen, startsIdent_hyphen, startsName_congr hname.2, hhead]
  · rw [startsIdent_of_ne _ hc hdigit, startsIdent_of_ne _ hc hdigit, startsName_congr hname]

/-- White space behind a text starts no identifier in front, where the name stays the same. -/
theorem startsIdent_append {c : Char} (r : List Char) {w : List Char} (hdigit : c.isDigit = false)
    (h : (name (c :: (r ++ w))).1 = (name (c :: r)).1) (hw : AllBlank w) :
    startsIdent (c :: (r ++ w)) = startsIdent (c :: r) := by
  refine startsIdent_congr hdigit h ?_
  cases r with
  | nil =>
      cases w with
      | nil => rfl
      | cons d w => simp [not_isDigit_of_isBlank (hw d List.mem_cons_self)]
  | cons d r => rfl

/-- An identifier starts in a text whatever stands behind it. -/
theorem startsIdent_mono {c : Char} {r : List Char} (h : startsIdent (c :: r)) (w : List Char) :
    startsIdent (c :: (r ++ w)) := by
  have hescape : ∀ {d s}, startsEscape (d :: s) → startsEscape (d :: (s ++ w)) := by
    intro d s hs
    rw [startsEscape_append d s (.inr ?_)]
    · exact hs
    · rintro rfl
      simp [startsEscape_cons] at hs
  simp only [startsIdent] at h ⊢
  split at h
  · next hc =>
    rw [if_pos hc]
    cases r with
    | nil => exact absurd h (by simp [startsEscape])
    | cons d r =>
        rw [Bool.or_eq_true] at h ⊢
        exact h.imp_right hescape
  · next hc =>
    rw [if_neg hc]
    rw [Bool.or_eq_true] at h ⊢
    exact h.imp_right hescape

/-- Where white space makes an identifier of a text that starts none, the text is a character
of its own, with nothing behind it or an open backslash. -/
theorem GoesOn.rest_of_delim {c : Char} {r w : List Char} (h : GoesOn (c :: r) w)
    (hdigit : c.isDigit = false) (hlong : startsIdent (c :: (r ++ w)))
    (hshort : startsIdent (c :: r) = false) : r = [] ∨ r = ['\\'] := by
  by_cases hc : c = '-'
  · subst hc
    rw [startsIdent_hyphen, Bool.and_eq_true] at hlong
    have hstart : startsName r = false := by
      rw [startsIdent_hyphen, Bool.and_eq_false_iff] at hshort
      refine hshort.resolve_right fun hhead => ?_
      cases r with
      | nil => cases hhead
      | cons d r => simp_all
    have hrest := h.rest
    rw [name, if_pos (by decide), name_of_startsName_eq_false hstart] at hrest
    exact hrest
  · rw [startsIdent_of_ne r hc hdigit] at hshort
    have hrest := h.rest
    rw [name_of_startsName_eq_false hshort] at hrest
    rcases hrest with hnil | hopen
    · cases hnil
    · cases hopen
      exact .inl rfl

/-- A name or a `#` and a name that ends in white space. -/
def EndsBlank : Kind → Prop
  | .ident n | .hash n => n.toList.getLast?.any isBlank
  | _ => False

/-- The token in front of a text is a name that ends in the white space behind the text.
Without the white space another token is there, and nothing behind it or an open backslash. -/
inductive FrontGoesOn (position : Nat) (c : Char) (r w : List Char) : Prop
  | intro {k j : Kind} {v rest : List Char}
      (long : front position c (r ++ w) = .ok (k, v)) (hv : AllBlank v) (hk : EndsBlank k)
      (short : front position c r = .ok (j, rest)) (hrest : rest = [] ∨ rest = ['\\'])
      (hj : j ≠ .blank) (hne : j ≠ k)

/-- With white space behind its text a hash is the same, or its name goes on. -/
theorem front_hash_append (position : Nat) (r : List Char) {w : List Char} (hw : AllBlank w) :
    (∃ v, AllBlank v ∧
      front position '#' (r ++ w) = (front position '#' r).map fun x => (x.1, x.2 ++ v)) ∨
    FrontGoesOn position '#' r w := by
  rcases name_append r hw with ⟨v, hv, h⟩ | hon
  · rw [front_hash, front_hash, startsName_congr (s := r ++ w) (t := r) (by rw [h]), h]
    split
    · exact .inl ⟨v, hv, rfl⟩
    · exact .inl ⟨w, hw, rfl⟩
  · have hlong := front_hash position (r ++ w)
    rw [if_pos hon.starts] at hlong
    have hends : EndsBlank (.hash (.ofList (name (r ++ w)).1)) := by
      simpa [EndsBlank] using hon.takes.1
    have hshort := front_hash position r
    cases hstart : startsName r with
    | true =>
        rw [if_pos hstart] at hshort
        refine .inr (.intro hlong hon.takes.2 hends hshort hon.rest (by simp) ?_)
        simpa [String.ofList_inj] using hon.ne.symm
    | false =>
        rw [hstart] at hshort
        have hrest := hon.rest
        rw [name_of_startsName_eq_false hstart] at hrest
        exact .inr (.intro hlong hon.takes.2 hends hshort hrest (by simp) (by simp))

/-- With white space behind its text a name or a delimiter is the same, or the name goes on. -/
theorem front_word_append (position : Nat) {c : Char} (r : List Char) {w : List Char}
    (hw : AllBlank w) (hblank : isBlank c = false) (hquote : ¬ IsQuote c) (hhash : c ≠ '#')
    (hdigit : c.isDigit = false) :
    (∃ v, AllBlank v ∧
      front position c (r ++ w) = (front position c r).map fun x => (x.1, x.2 ++ v)) ∨
    FrontGoesOn position c r w := by
  have hlong := front_word position hblank hquote hhash hdigit (r ++ w)
  have hshort := front_word position hblank hquote hhash hdigit r
  rcases name_append (c :: r) hw with ⟨v, hv, h⟩ | hon
  · rw [List.cons_append] at h
    rw [hlong, hshort, startsIdent_append r hdigit (by rw [h]) hw, h]
    split
    · exact .inl ⟨v, hv, rfl⟩
    · exact .inl ⟨w, hw, rfl⟩
  · have hends : EndsBlank (.ident (.ofList (name (c :: (r ++ w))).1)) := by
      simpa [EndsBlank] using hon.takes.1
    by_cases hident : startsIdent (c :: (r ++ w))
    · rw [if_pos hident] at hlong
      cases hstart : startsIdent (c :: r) with
      | true =>
          rw [if_pos hstart] at hshort
          refine .inr (.intro hlong hon.takes.2 hends hshort hon.rest (by simp) ?_)
          simpa [String.ofList_inj] using hon.ne.symm
      | false =>
          rw [hstart] at hshort
          have hrest := hon.rest_of_delim hdigit hident hstart
          exact .inr (.intro hlong hon.takes.2 hends hshort hrest (by simp) (by simp))
    · rw [hlong, hshort, if_neg hident, if_neg fun h => hident (startsIdent_mono h w)]
      exact .inl ⟨w, hw, rfl⟩

/-- White space behind a text is no part of the token in front, or the token is a name that
goes on into it. -/
theorem front_append (position : Nat) (c : Char) (r : List Char) {w : List Char}
    (hw : AllBlank w) :
    (∃ v, AllBlank v ∧
      front position c (r ++ w) = (front position c r).map fun x => (x.1, x.2 ++ v)) ∨
    FrontGoesOn position c r w := by
  by_cases hblank : isBlank c
  · rw [front, front, if_pos hblank, if_pos hblank, List.dropWhile_append]
    split
    · next hnil =>
      have hall : w.dropWhile isBlank = [] := List.dropWhile_eq_nil_iff.mpr hw
      exact .inl ⟨[], by simp [Text.AllBlank], by rw [hall, List.isEmpty_iff.mp hnil]; rfl⟩
    · exact .inl ⟨w, hw, rfl⟩
  by_cases hquote : IsQuote c
  · have hc : isBlank c = false := by simpa using hblank
    obtain ⟨v, hv, h⟩ := quoted?_append hc r hw
    refine .inl ⟨v, hv, ?_⟩
    rw [front_quote position hquote, front_quote position hquote, h]
    cases quoted? c r <;> rfl
  by_cases hhash : c = '#'
  · subst hhash
    exact front_hash_append position r hw
  by_cases hdigit : c.isDigit
  · have h := number_append (c :: r) hw
    rw [List.cons_append] at h
    exact .inl ⟨w, hw, by rw [front_digit position hdigit, front_digit position hdigit, h]; rfl⟩
  exact front_word_append position r hw (by simpa using hblank) hquote hhash (by simpa using hdigit)

end XPathLocator.Css
