import XPathLocator.Proofs.Css.Quoted

/-!
# `XPathLocator.Proofs.Css.Separator`: where white space is a token

Two classes of characters meet beyond ASCII. White space there separates where a token may start,
and inside a name it is a name character like any other. `Bare` says, token by token, what a text
without backslashes and quotes is split into, and where each token ends. A name ends in front of the
first character that is none of its own, so white space that follows a name and is not part of it is
ASCII.

`tokenize_separators` puts this together for the characters of a selector. Each of them has the kind
of the token it is part of (`Lexeme.marks`). The kind of a white-space character depends on the one
character before it, and only beyond ASCII.
-/

set_option autoImplicit false

namespace XPathLocator.Css

open Text (isBlank)
open Token (Kind)
open Lexeme (textOf tokensAt)

/-- A text without backslashes and quotes. -/
def Unquoted (s : List Char) : Prop :=
  ∀ c ∈ s, c ≠ '\\' ∧ ¬ IsQuote c

/-- A name that stands for itself or behind a `#`. -/
def Token.Kind.IsName : Kind → Prop
  | .ident _ | .hash _ => True
  | _ => False

namespace Lexeme

/-- The characters of lexemes, each with the kind of its token. -/
def marks (ls : List Lexeme) : List (Char × Kind) :=
  ls.flatMap fun l => l.text.map (·, l.kind)

end Lexeme

/-- A character of a name, or one that a name may start with though it is no letter. -/
def LeadsName (m : Char × Kind) : Prop :=
  m.2.IsName ∨ m.1 = '#' ∨ m.1 = '-'

/-- Behind `m` a character is part of white space as it should: if it is white space, and does not
go on with a name. -/
def Follows (m m' : Char × Kind) : Prop :=
  m'.2 = .blank ↔ isBlank m'.1 ∧ ¬ (0x80 ≤ m'.1.toNat ∧ LeadsName m)

variable {s : List Char} {next : Option Char} {l : Lexeme}

/-! ### Characters -/

/-- Beyond ASCII every character starts a name. -/
theorem isNameStart_of_le {c : Char} (h : 0x80 ≤ c.toNat) : isNameStart c := by
  simp [isNameStart, h]

/-- White space in a name is none of ASCII. -/
theorem le_of_isBlank_of_isNameChar {c : Char} (hblank : isBlank c) (hname : isNameChar c) :
    0x80 ≤ c.toNat := by
  have hsmall : ∀ n : Fin 0x80, isBlank (Char.ofNat n) → isNameChar (Char.ofNat n) = false := by
    decide
  by_contra hlt
  have hc : Char.ofNat c.toNat = c := Char.ofNat_toNat c
  have hnot := hsmall ⟨c.toNat, by omega⟩
  rw [hc, hname] at hnot
  cases hnot hblank

/-- A character that is no part of a name starts none. -/
theorem any_isNameStart_eq_false (h : next.any isNameChar = false) :
    next.any isNameStart = false := by
  cases next with
  | none => rfl
  | some c =>
      rw [Option.any_some] at h ⊢
      rw [isNameChar, Bool.or_eq_false_iff, Bool.or_eq_false_iff] at h
      exact h.1.1

/-! ### Names and numbers -/

/-- Without backslashes a name starts exactly at a name character. -/
theorem startsName_of_noBackslash (h : '\\' ∉ s) : startsName s = s.head?.any isNameChar := by
  cases s with
  | nil => rfl
  | cons c r =>
      have hc : c ≠ '\\' := fun hc => h (hc ▸ List.mem_cons_self)
      simp [startsName, startsEscape_cons, hc]

/-- Without a backslash a name is a run of name characters. -/
theorem name_of_noBackslash (h : '\\' ∉ s) :
    name s = (s.takeWhile isNameChar, s.dropWhile isNameChar) := by
  induction s with
  | nil =>
      rw [name]
      rfl
  | cons c r ih =>
      cases hc : isNameChar c with
      | true =>
          have hr : '\\' ∉ r := fun hr => h (List.mem_cons_of_mem _ hr)
          rw [name, if_pos hc, ih hr, List.takeWhile_cons_of_pos hc, List.dropWhile_cons_of_pos hc]
      | false =>
          have hstart := startsName_of_noBackslash h
          rw [List.head?_cons, Option.any_some, hc] at hstart
          rw [name_of_startsName_eq_false hstart, List.takeWhile_cons_of_neg (by simp [hc]),
            List.dropWhile_cons_of_neg (by simp [hc])]

/-- Where a hyphen starts no identifier, no letter stands behind it. -/
theorem any_isNameStart_of_hyphen (h : startsIdent ('-' :: s) = false) :
    s.head?.any isNameStart = false := by
  cases s with
  | nil => rfl
  | cons d r =>
      rw [startsIdent, if_pos rfl, Bool.or_eq_false_iff] at h
      have hd := h.1
      rw [List.head?_cons, Option.any_some, Bool.or_eq_false_iff] at hd
      exact hd.1

/-- A number takes digits and points. -/
theorem number_chars (s : List Char) :
    s = (number s).1 ++ (number s).2 ∧ ∀ c ∈ (number s).1, c.isDigit ∨ c = '.' := by
  have hwhole : ∀ t : List Char, ∀ c ∈ t.takeWhile Char.isDigit, c.isDigit ∨ c = '.' :=
    fun t c hc => .inl (List.mem_takeWhile_imp hc)
  have hsplit : s = s.takeWhile Char.isDigit ++ s.dropWhile Char.isDigit :=
    List.takeWhile_append_dropWhile.symm
  rw [number]
  split
  · next r hr =>
    rw [hr] at hsplit
    split
    · exact ⟨hsplit, hwhole s⟩
    · next d ds hds =>
      refine ⟨?_, ?_⟩
      · have hmore : d :: ds ++ r.dropWhile Char.isDigit = r := by
          rw [← hds, List.takeWhile_append_dropWhile]
        rw [List.append_assoc, List.cons_append, hmore, ← hsplit]
      · intro c hc
        rcases List.mem_append.mp hc with hc | hc
        · exact hwhole s c hc
        · rcases List.mem_cons.mp hc with rfl | hc
          · exact .inr rfl
          · exact hwhole r c (hds ▸ hc)
  · exact ⟨hsplit, hwhole s⟩

/-! ### Tokens -/

/-- A lexeme of a text without backslashes and quotes, and what it does not go on with: `next` is the
character behind it, if there is one. -/
inductive Bare (next : Option Char) : Lexeme → Prop
  | blank {c : Char} {w : List Char} (all : ∀ d ∈ c :: w, isBlank d)
      (ends : next.any isBlank = false) : Bare next ⟨c :: w, .blank⟩
  | ident {c : Char} {w : List Char} (head : isBlank c = false) (all : ∀ d ∈ c :: w, isNameChar d)
      (ends : next.any isNameChar = false) : Bare next ⟨c :: w, .ident (.ofList (c :: w))⟩
  | hash {w : List Char} (all : ∀ d ∈ w, isNameChar d) (ends : next.any isNameChar = false) :
      Bare next ⟨'#' :: w, .hash (.ofList w)⟩
  | number {w : List Char} {n : String} (all : ∀ c ∈ w, c.isDigit ∨ c = '.') :
      Bare next ⟨w, .number n⟩
  | delim {c : Char} (head : isBlank c = false)
      (ends : c = '#' ∨ c = '-' → next.any isNameStart = false) : Bare next ⟨[c], .delim c⟩

/-- What the lexer reads, token by token. -/
theorem Fronts.bare {c : Char} {r rest : List Char} {k : Kind} (hu : Unquoted (c :: r))
    (h : Fronts c r k rest) : ∃ w, r = w ++ rest ∧ Bare rest.head? ⟨c :: w, k⟩ := by
  obtain ⟨⟨hbackslash, hquote⟩, hr⟩ := List.forall_mem_cons.mp hu
  have hrest : '\\' ∉ r := fun hmem => (hr _ hmem).1 rfl
  have hwhole : '\\' ∉ c :: r := fun hmem => (hu _ hmem).1 rfl
  cases h with
  | blank head =>
      refine ⟨r.takeWhile isBlank, List.takeWhile_append_dropWhile.symm, .blank ?_ ?_⟩
      · exact List.forall_mem_cons.mpr ⟨head, fun d hd => List.mem_takeWhile_imp hd⟩
      · exact Text.head_dropWhile isBlank r
  | string head => exact absurd head hquote
  | hash head starts =>
      subst head
      rw [name_of_noBackslash hrest]
      refine ⟨r.takeWhile isNameChar, List.takeWhile_append_dropWhile.symm, .hash ?_ ?_⟩
      · exact fun d hd => List.mem_takeWhile_imp hd
      · exact Text.head_dropWhile isNameChar r
  | number head =>
      obtain ⟨hsplit, hall⟩ := number_chars (c :: r)
      obtain ⟨w, hw, hr⟩ := exists_eq_cons hsplit (number_length_lt head r)
      rw [hw] at hall
      exact ⟨w, hr, .number hall⟩
  | ident head starts =>
      -- The first character is one of the name, as nothing else could start it.
      have hname := startsName_of_startsIdent starts
      rw [startsName_of_noBackslash hwhole] at hname
      have hfirst : isNameChar c := hname
      rw [name_of_noBackslash hwhole, List.takeWhile_cons_of_pos hfirst,
        List.dropWhile_cons_of_pos hfirst]
      refine ⟨r.takeWhile isNameChar, List.takeWhile_append_dropWhile.symm, .ident head ?_ ?_⟩
      · exact List.forall_mem_cons.mpr ⟨hfirst, fun d hd => List.mem_takeWhile_imp hd⟩
      · exact Text.head_dropWhile isNameChar r
  | delim blank quote digit hash ident =>
      refine ⟨[], rfl, .delim blank ?_⟩
      rintro (rfl | rfl)
      · have hstarts := hash rfl
        rw [startsName_of_noBackslash hrest] at hstarts
        exact any_isNameStart_eq_false hstarts
      · exact any_isNameStart_of_hyphen ident

/-- A lexeme of a text without backslashes and quotes ends by what stands behind it. -/
theorem Lexed.bare {as bs : List Lexeme} (h : Lexed (as ++ l :: bs))
    (hu : Unquoted (textOf (as ++ l :: bs))) : Bare (textOf bs).head? l := by
  have hcut := h.of_append_right
  cases hcut with
  | @cons c w k _ hfront _ =>
      have hrest : Unquoted (c :: (w ++ textOf bs)) := fun d hd =>
        hu d (by rw [Lexeme.textOf_append]; exact List.mem_append_right _ hd)
      obtain ⟨w', hw, hbare⟩ := (fronts_of_front (hfront 0)).bare hrest
      rwa [List.append_cancel_right hw]

/-! ### White space -/

/-- The characters of a number are no white space. -/
theorem isBlank_eq_false_of_number {c : Char} (h : c.isDigit ∨ c = '.') : isBlank c = false := by
  rw [Bool.eq_false_iff]
  intro hblank
  rcases h with hdigit | rfl
  · rw [not_isDigit_of_isBlank hblank] at hdigit
    cases hdigit
  · exact absurd hblank (by decide)

/-- Behind white space no name goes on. -/
theorem not_leadsName_blank {c : Char} (h : isBlank c) : ¬ LeadsName (c, .blank) := by
  rintro (hk | rfl | rfl)
  · exact hk
  · exact absurd h (by decide)
  · exact absurd h (by decide)

/-- The first character of a lexeme is white space exactly if the lexeme is. -/
theorem Bare.kind_eq_blank_iff (h : Bare next l) {c : Char} (hc : c ∈ l.text.head?) :
    l.kind = .blank ↔ isBlank c := by
  cases h with
  | blank all => simp [all c (List.mem_of_mem_head? hc)]
  | ident head =>
      cases hc
      simp [head]
  | hash =>
      cases hc
      simp [show isBlank '#' = false by decide]
  | number all => simp [isBlank_eq_false_of_number (all c (List.mem_of_mem_head? hc))]
  | delim head =>
      cases hc
      simp [head]

/-- Each of the others is white space with the lexeme, unless it goes on with a name. -/
theorem Bare.follows (h : Bare next l) {c d : Char} (hc : c ∈ l.text) (hd : d ∈ l.text.tail) :
    Follows (c, l.kind) (d, l.kind) := by
  -- A name character that is white space is beyond ASCII.
  have hname : ∀ {k : Kind}, k.IsName → k ≠ .blank → isNameChar d → Follows (c, k) (d, k) := by
    intro k hk hne hchar
    refine iff_of_false hne ?_
    rintro ⟨hblank, hnot⟩
    exact hnot ⟨le_of_isBlank_of_isNameChar hblank hchar, .inl hk⟩
  cases h with
  | blank all =>
      have hnot := not_leadsName_blank (all c hc)
      exact iff_of_true rfl ⟨all d (List.mem_of_mem_tail hd), fun hleads => hnot hleads.2⟩
  | ident _ all => exact hname trivial (by simp) (all d (List.mem_of_mem_tail hd))
  | hash all => exact hname trivial (by simp) (all d hd)
  | number all =>
      have hblank := isBlank_eq_false_of_number (all d (List.mem_of_mem_tail hd))
      exact iff_of_false (by simp) (by simp [hblank])
  | delim => cases hd

/-- Where a name could go on, no letter follows. -/
theorem Bare.next_eq_false (h : Bare next l) {c : Char} (hc : c ∈ l.text)
    (hleads : LeadsName (c, l.kind)) : next.any isNameStart = false := by
  cases h with
  | blank all => exact absurd hleads (not_leadsName_blank (all c hc))
  | ident _ _ ends => exact any_isNameStart_eq_false ends
  | hash _ ends => exact any_isNameStart_eq_false ends
  | number all =>
      have hnumber := all c hc
      rcases hleads with hk | rfl | rfl
      · exact hk.elim
      · exact absurd hnumber (by decide)
      · exact absurd hnumber (by decide)
  | delim _ ends =>
      rw [List.mem_singleton] at hc
      subst hc
      exact ends (hleads.resolve_left id)

/-- The first character behind a lexeme is white space with its own lexeme, unless it is a letter
that would have gone on with a name. -/
theorem Bare.follows_next {next' : Option Char} {l' : Lexeme} (h : Bare l'.text.head? l)
    (h' : Bare next' l') {c d : Char} (hc : c ∈ l.text) (hd : d ∈ l'.text.head?) :
    Follows (c, l.kind) (d, l'.kind) := by
  have hfirst := h'.kind_eq_blank_iff hd
  have hnot : ¬ (0x80 ≤ d.toNat ∧ LeadsName (c, l.kind)) := by
    rintro ⟨hle, hleads⟩
    have hletter := h.next_eq_false hc hleads
    rw [Option.mem_def.mp hd, Option.any_some, isNameStart_of_le hle] at hletter
    cases hletter
  exact hfirst.trans (and_iff_left hnot).symm

variable {ls : List Lexeme}

/-- The first character of a text is that of its first lexeme. -/
theorem head?_textOf_cons {l : Lexeme} (ls : List Lexeme) (h : l.text ≠ []) :
    (textOf (l :: ls)).head? = l.text.head? := by
  rw [Lexeme.textOf_cons, List.head?_append_of_ne_nil _ h]

/-- Neighbours among the lexemes of a text. -/
theorem Lexed.bare_pair (h : Lexed ls) (hu : Unquoted (textOf ls)) :
    ls.IsChain fun l l' => Bare l'.text.head? l ∧ ∃ next, Bare next l' := by
  rw [List.isChain_iff_forall_rel_of_append_cons_cons]
  rintro l l' as bs rfl
  have hbehind : Bare (textOf (l' :: bs)).head? l := h.bare hu
  have hne : l'.text ≠ [] := h.text_ne_nil l' (by simp)
  rw [head?_textOf_cons bs hne] at hbehind
  have hsplit : as ++ l :: l' :: bs = (as ++ [l]) ++ l' :: bs := by simp
  rw [hsplit] at h hu
  exact ⟨hbehind, _, h.bare hu⟩

/-- **White space goes by the character before it.** -/
theorem Lexed.follows_marks (h : Lexed ls) (hu : Unquoted (textOf ls)) :
    (Lexeme.marks ls).IsChain Follows := by
  have hne : [] ∉ ls.map fun l => l.text.map (·, l.kind) := by
    intro hmem
    obtain ⟨l, hl, htext⟩ := List.mem_map.mp hmem
    exact h.text_ne_nil l hl (List.map_eq_nil_iff.mp htext)
  rw [Lexeme.marks, List.flatMap_def, List.isChain_flatten hne]
  constructor
  · -- Inside one lexeme all characters are of its kind.
    intro m hm
    obtain ⟨l, hl, rfl⟩ := List.mem_map.mp hm
    obtain ⟨as, bs, rfl⟩ := List.append_of_mem hl
    rw [List.isChain_map, List.isChain_iff_forall_rel_of_append_cons_cons]
    intro c d u v htext
    have hc : c ∈ l.text := by simp [htext]
    have hd : d ∈ l.text.tail := by
      rw [htext]
      cases u <;> simp
    exact (h.bare hu).follows hc hd
  · -- From one lexeme to the next it is the last character and the first.
    rw [List.isChain_map]
    refine (h.bare_pair hu).imp ?_
    rintro l l' ⟨hl, next, hl'⟩ x hx y hy
    rw [List.getLast?_map, Option.mem_map] at hx
    rw [List.head?_map, Option.mem_map] at hy
    obtain ⟨c, hc, rfl⟩ := hx
    obtain ⟨d, hd, rfl⟩ := hy
    exact hl.follows_next hl' (List.mem_of_getLast? hc) hd

/-- The kind of a character goes by its class and the character before it. Nothing stands before the
first one, so no name has reached it. -/
theorem Lexed.kind_eq_blank_iff (h : Lexed ls) (hu : Unquoted (textOf ls)) {c : Char} {k : Kind}
    {us vs : List (Char × Kind)} (hmarks : Lexeme.marks ls = us ++ (c, k) :: vs) :
    k = .blank ↔ isBlank c ∧ ¬ (0x80 ≤ c.toNat ∧ ∃ m ∈ us.getLast?, LeadsName m) := by
  have hchain := h.follows_marks hu
  rw [hmarks] at hchain
  rcases us.eq_nil_or_concat with rfl | ⟨us, m, rfl⟩
  · cases h with
    | nil => cases hmarks
    | @cons d w j ls hfront more =>
        have hwhole : Lexed ([] ++ ⟨d :: w, j⟩ :: ls) := .cons hfront more
        have hbare := hwhole.bare hu
        obtain ⟨heq, _⟩ := List.cons.inj hmarks
        cases heq
        simp [hbare.kind_eq_blank_iff rfl]
  · have hfollows : Follows m (c, k) := by
      rw [List.concat_eq_append, List.append_assoc, List.singleton_append] at hchain
      exact List.isChain_iff_forall_rel_of_append_cons_cons.mp hchain rfl
    simpa [Follows] using hfollows

/-- Two lexemes of white space are no neighbours. -/
theorem Lexed.isChain_not_blank (h : Lexed ls) (hu : Unquoted (textOf ls)) :
    ls.IsChain fun l l' => ¬ (l.kind = .blank ∧ l'.kind = .blank) := by
  refine (h.bare_pair hu).imp ?_
  rintro l ⟨text, kind⟩ ⟨hl, next, hl'⟩ ⟨hk, hk'⟩
  cases hk'
  cases hl' with
  | @blank c w all _ =>
      have hblank := all c List.mem_cons_self
      cases hl with
      | blank _ ends =>
          rw [List.head?_cons, Option.any_some, hblank] at ends
          cases ends
      | ident | hash | number | delim => cases hk

/-! ### Selectors -/

/-- White space in a name is none of ASCII. -/
theorem Bare.le_of_isBlank (h : Bare next l) {n : String}
    (hn : l.kind = .ident n ∨ l.kind = .hash n) {c : Char} (hc : c ∈ n.toList)
    (hblank : isBlank c) : 0x80 ≤ c.toNat := by
  refine le_of_isBlank_of_isNameChar hblank ?_
  cases h with
  | ident _ all =>
      obtain rfl := Kind.ident.inj (hn.resolve_right (by simp))
      exact all c (by simpa using hc)
  | hash all =>
      obtain rfl := Kind.hash.inj (hn.resolve_left (by simp))
      exact all c (by simpa using hc)
  | blank | number | delim => simp at hn

/-- A text without backslashes and quotes has tokens, since only an open quote has none. -/
theorem tokenize_of_unquoted {css : String} (h : Unquoted css.toList) :
    ∃ ls, Lexed ls ∧ textOf ls = css.toList ∧ tokenize css = .ok (tokensAt 0 ls) := by
  cases htokens : tokenize css with
  | error e =>
      obtain ⟨before, quote, behind, htext, hquote, _⟩ := tokens_eq_error_iff.mp htokens
      exact absurd hquote (h quote (by simp [htext])).2
  | ok ts =>
      obtain ⟨ls, hls, htext, rfl⟩ := tokens_eq_ok_iff.mp htokens
      exact ⟨ls, hls, htext, rfl⟩

/-- **Without backslashes and quotes, white space separates unless it goes on with a name.** Every
such selector has tokens. A character is part of white space exactly if it is white space and does
not stand, beyond ASCII, behind a character of a name, a `#` or a hyphen, where it is a name
character. Each run of white space is one token, and a name has no white space of ASCII in it. -/
theorem tokenize_separators {css : String} (h : Unquoted css.toList) :
    ∃ ls : List Lexeme, tokenize css = .ok (tokensAt 0 ls) ∧ textOf ls = css.toList ∧
      (∀ l ∈ ls, l.text ≠ []) ∧
      (∀ us c k vs, Lexeme.marks ls = us ++ (c, k) :: vs →
        (k = .blank ↔ isBlank c ∧ ¬ (0x80 ≤ c.toNat ∧ ∃ m ∈ us.getLast?, LeadsName m))) ∧
      (ls.IsChain fun l l' => ¬ (l.kind = .blank ∧ l'.kind = .blank)) ∧
      ∀ l ∈ ls, ∀ n, l.kind = .ident n ∨ l.kind = .hash n →
        ∀ c ∈ n.toList, isBlank c → 0x80 ≤ c.toNat := by
  obtain ⟨ls, hls, htext, htokens⟩ := tokenize_of_unquoted h
  rw [← htext] at h
  refine ⟨ls, htokens, htext, hls.text_ne_nil, ?_, hls.isChain_not_blank h, ?_⟩
  · intro us c k vs hmarks
    exact hls.kind_eq_blank_iff h hmarks
  · intro l hl n hn c hc hblank
    obtain ⟨as, bs, rfl⟩ := List.append_of_mem hl
    exact (hls.bare h).le_of_isBlank hn hc hblank

/-- A no-break space behind a letter is part of the name, and the one behind the bracket is a token,
as the space in front of it is. -/
theorem tokenize_separators_no_break_space :
    Unquoted "é\u00A0 >\u00A0b".toList ∧ ∃ ls, textOf ls = "é\u00A0 >\u00A0b".toList ∧
      tokensAt 0 ls = [⟨.ident "é\u00A0", 0⟩, ⟨.blank, 4⟩, ⟨.delim '>', 5⟩, ⟨.blank, 6⟩,
        ⟨.ident "b", 8⟩] ∧
      ∀ us c k vs, Lexeme.marks ls = us ++ (c, k) :: vs →
        (k = .blank ↔ isBlank c ∧ ¬ (0x80 ≤ c.toNat ∧ ∃ m ∈ us.getLast?, LeadsName m)) := by
  have h : Unquoted "é\u00A0 >\u00A0b".toList := by simp [Unquoted, IsQuote]
  obtain ⟨ls, htokens, htext, _, hmarks, _⟩ := tokenize_separators h
  have hread : tokenize "é\u00A0 >\u00A0b" = .ok [⟨.ident "é\u00A0", 0⟩, ⟨.blank, 4⟩,
      ⟨.delim '>', 5⟩, ⟨.blank, 6⟩, ⟨.ident "b", 8⟩] := by decide +kernel
  rw [hread] at htokens
  exact ⟨h, ls, htext, (Except.ok.inj htokens).symm, hmarks⟩

/-- White space does not separate wherever it stands: here it is part of a name. -/
theorem tokenize_joins_no_break_space :
    Unquoted "a\u00A0b".toList ∧ '\u00A0' ∈ "a\u00A0b".toList ∧ isBlank '\u00A0' ∧
      tokenize "a\u00A0b" = .ok [⟨.ident "a\u00A0b", 0⟩] :=
  ⟨by simp [Unquoted, IsQuote], by decide, by decide, by decide +kernel⟩

end XPathLocator.Css
