import Mathlib.Data.List.Chain
import XPathLocator.Proofs.Css.Front
import XPathLocator.Proofs.Except
import XPathLocator.Proofs.Text.Digits

/-!
# `XPathLocator.Proofs.Css.Spelling`: text that has given tokens

`Token.Kind.text` spells a token so that nothing in it is special: every character of a
name or a string is escaped, by its hexadecimal code point and one space where there is
such an escape. Only the character zero has none and stands behind its backslash itself.

Two tokens next to each other read as they were spelled unless the second continues the
first: a name goes on with a name, and white space with white space. `tokens_text` is the
round trip for all lists without such neighbours, and `named_of_tokens` says what the
lexer promises of the names it gives.
-/

set_option autoImplicit false

namespace XPathLocator.Css

open Text (isBlank utf8Length)
open Token (Kind)

/-! ### Escapes -/

/-- What stands behind the backslash of an escape. The space ends the digits, and is part
of the escape. -/
def escapeBody (c : Char) : List Char :=
  if c = '\x00' then [c] else Nat.toDigits 16 c.toNat ++ [' ']

/-- A text with every character escaped. -/
def escaped (cs : List Char) : List Char :=
  cs.flatMap fun c => '\\' :: escapeBody c

/-- The digit for a number below sixteen is a hexadecimal digit. -/
theorem isHexDigit_digitChar {n : Nat} (h : n < 16) : n.digitChar.isHexDigit := by
  revert n
  decide

/-- The value of a digit is the number that it is the digit for. -/
theorem hexValue_digitChar {n : Nat} (h : n < 16) : hexValue n.digitChar = n := by
  revert n
  decide

/-- The digits of a code point can stand in an escape. -/
theorem isHexDigit_of_mem_toDigits {n : Nat} {d : Char} (h : d ∈ Nat.toDigits 16 n) :
    d.isHexDigit := by
  obtain ⟨k, hk, rfl⟩ := Text.exists_of_mem_toDigits h
  exact isHexDigit_digitChar hk

/-- The digits of a number have its value. Induction on the number, a digit at a time. -/
theorem foldl_toDigits (n : Nat) :
    (Nat.toDigits 16 n).foldl (fun n d => n * 16 + hexValue d) 0 = n := by
  induction n using Nat.base_induction 16 (by decide) with
  | single m hm =>
      rw [Nat.toDigits_of_lt_base hm, List.foldl_cons, List.foldl_nil, hexValue_digitChar hm,
        Nat.zero_mul, Nat.zero_add]
  | digit m k hk hm ih =>
      rw [← Nat.toDigits_append_toDigits (by decide) hm hk, Nat.toDigits_of_lt_base hk,
        List.foldl_append, ih, List.foldl_cons, List.foldl_nil, hexValue_digitChar hk,
        Nat.mul_comm]

/-- The digits of a code point are read as its character, unless that is zero. -/
theorem ofHex_toDigits {c : Char} (h : c ≠ '\x00') : ofHex (Nat.toDigits 16 c.toNat) = c := by
  have hzero : c.toNat ≠ 0 := fun hzero => h (Char.toNat_inj.mp hzero)
  rw [ofHex, foldl_toDigits]
  show (if c.toNat ≠ 0 ∧ c.toNat.isValidChar then Char.ofNat c.toNat else replacement) = c
  rw [if_pos ⟨hzero, c.valid⟩, Char.ofNat_toNat]

/-- Six digits are enough for every code point. -/
theorem length_toDigits_le (c : Char) : (Nat.toDigits 16 c.toNat).length ≤ 6 := by
  rw [Nat.length_toDigits_le_iff (by decide) (by decide)]
  have hlt : c.toNat < 0x110000 := by
    rcases c.valid with h | ⟨_, h⟩
    · exact Nat.lt_trans h (by decide)
    · exact h
  exact Nat.lt_trans hlt (by decide)

/-- The escape that is written for a character. -/
def escapeOf (c : Char) : Escape :=
  if c = '\x00' then .char c else .code (Nat.toDigits 16 c.toNat) (some ' ')

/-- The escape for a character is written as it is spelled. -/
theorem text_escapeOf (c : Char) : (escapeOf c).text = escapeBody c := by
  rw [escapeOf, escapeBody]
  split <;> rfl

/-- It ends wherever it stands, and it denotes the character. -/
theorem endsAt_escapeOf (c : Char) (rest : List Char) : (escapeOf c).EndsAt rest := by
  rw [escapeOf]
  split
  · next hzero =>
    rw [hzero]
    exact ⟨by decide, by decide⟩
  · have hspace : isBlank ' ' := by decide
    exact ⟨Nat.toDigits_ne_nil, length_toDigits_le c, fun _ => isHexDigit_of_mem_toDigits, hspace⟩

/-- The escape for a character stands for it. -/
theorem value_escapeOf (c : Char) : (escapeOf c).value = c := by
  rw [escapeOf]
  split
  · rfl
  · next hzero =>
    rw [Escape.value_code fun _ => isHexDigit_of_mem_toDigits]
    exact ofHex_toDigits hzero

/-- A text with every character escaped, as pieces. -/
def escapedPieces (cs : List Char) : List Piece :=
  cs.map fun c => .escaped (escapeOf c)

/-- An escaped text is the text of its escapes. -/
theorem textOf_escapedPieces (cs : List Char) : Piece.textOf (escapedPieces cs) = escaped cs := by
  rw [Piece.textOf, escapedPieces, List.flatMap_map, escaped]
  simp only [Piece.text, text_escapeOf]

/-- The escapes of a text stand for its characters. -/
theorem valueOf_escapedPieces (cs : List Char) : Piece.valueOf (escapedPieces cs) = cs := by
  rw [Piece.valueOf, escapedPieces, List.flatMap_map]
  simp only [Piece.value, value_escapeOf, List.flatMap_singleton']

/-- What holds of each escape, whatever follows it, holds of the escapes of a text. -/
theorem eachBefore_escapedPieces {P : List Char → Piece → Prop}
    (hP : ∀ behind c, P behind (.escaped (escapeOf c))) (rest cs : List Char) :
    Piece.EachBefore P rest (escapedPieces cs) := by
  induction cs with
  | nil => trivial
  | cons c cs ih => exact ⟨hP _ c, ih⟩

/-- A line feed is escaped like any other character. -/
theorem escapeBody_eq_cons (c : Char) : ∃ d s, escapeBody c = d :: s ∧ d ≠ '\n' := by
  rw [← text_escapeOf]
  exact (endsAt_escapeOf c []).text_eq_cons

/-- A name is read back, whatever stands behind it that no name starts with. -/
theorem name_escaped {rest : List Char} (h : startsName rest = false) (cs : List Char) :
    name (escaped cs ++ rest) = (cs, rest) := by
  have hpieces : Piece.EachBefore Piece.InName rest (escapedPieces cs) :=
    eachBefore_escapedPieces (fun behind c => endsAt_escapeOf c behind) rest cs
  have hread := name_pieces hpieces h
  rwa [textOf_escapedPieces, valueOf_escapedPieces] at hread

/-- A string is read back, whatever stands behind its closing quote. -/
theorem quoted?_escaped (cs rest : List Char) :
    quoted? '"' (escaped cs ++ '"' :: rest) = some (cs, rest) := by
  have hpieces : Piece.EachBefore (Piece.InString '"') ('"' :: rest) (escapedPieces cs) :=
    eachBefore_escapedPieces (fun behind c => endsAt_escapeOf c behind) _ cs
  have hread := quoted?_pieces (by decide) hpieces
  rwa [textOf_escapedPieces, valueOf_escapedPieces] at hread

/-! ### Tokens -/

/-- The text of a token. -/
def Token.Kind.text : Kind → List Char
  | .ident name => escaped name.toList
  | .hash name => '#' :: escaped name.toList
  | .string value => '"' :: (escaped value.toList ++ ['"'])
  | .number digits => digits.toList
  | .delim c => [c]
  | .blank => [' ']

/-- Whether a character is a token by itself, whatever stands behind it. -/
def isPunctuation (c : Char) : Bool :=
  !(isBlank c || isNameStart c || c.isDigit || c ∈ ['"', '\'', '#', '-', '\\'])

/-- Punctuation is every character that no other token can start with. -/
theorem isPunctuation_iff {c : Char} : isPunctuation c ↔
    isBlank c = false ∧ isNameStart c = false ∧ c.isDigit = false ∧
      c ≠ '"' ∧ c ≠ '\'' ∧ c ≠ '#' ∧ c ≠ '-' ∧ c ≠ '\\' := by
  simp [isPunctuation, and_assoc]

/-- A token that has a text of its own. Names are not empty, and numbers are left out
since a name says the same. -/
def Token.Kind.Spelled : Kind → Prop
  | .ident name | .hash name => name ≠ ""
  | .string _ | .blank => True
  | .number _ => False
  | .delim c => isPunctuation c

/-- Whether two tokens may stand next to each other without being read as one. -/
def Token.Kind.apart : Kind → Kind → Bool
  | .ident _, .ident _ | .hash _, .ident _ | .blank, .blank => false
  | _, _ => true

/-- A token ends where this text starts. -/
def Token.Kind.EndsAt (rest : List Char) : Kind → Prop
  | .ident _ | .hash _ => startsName rest = false
  | .blank => rest.head?.any isBlank = false
  | _ => True

/-- An escaped name starts with a backslash that is an escape. -/
theorem escaped_eq_cons {name : String} (h : name ≠ "") :
    ∃ d s, escaped name.toList = '\\' :: d :: s ∧ d ≠ '\n' := by
  cases hcs : name.toList with
  | nil => exact absurd (String.toList_eq_nil_iff.mp hcs) h
  | cons c cs =>
      obtain ⟨d, s, hbody, hd⟩ := escapeBody_eq_cons c
      exact ⟨d, s ++ escaped cs, by simp [escaped, hbody], hd⟩

/-- An escaped name is read as that name, in front of what cannot go on with it. -/
theorem front_ident {name : String} (h : name ≠ "") {rest : List Char}
    (hrest : startsName rest = false) (position : Nat) :
    ∃ r, escaped name.toList ++ rest = '\\' :: r ∧
      front position '\\' r = .ok (.ident name, rest) := by
  obtain ⟨d, s, hname, hd⟩ := escaped_eq_cons h
  have hread := name_escaped hrest name.toList
  rw [hname] at hread
  refine ⟨d :: (s ++ rest), by rw [hname]; rfl, ?_⟩
  have hstarts : startsIdent ('\\' :: d :: (s ++ rest)) := by
    simp [startsIdent, startsEscape, hd]
  have hfront := (Fronts.ident (by decide) hstarts).front_eq_ok position
  simp only [List.cons_append] at hread
  rwa [hread, String.ofList_toList] at hfront

/-- Punctuation is read as a delimiter, in front of anything. -/
theorem front_punctuation {c : Char} (h : isPunctuation c) (rest : List Char) (position : Nat) :
    front position c rest = .ok (.delim c, rest) := by
  obtain ⟨hblank, hstart, hdigit, hdouble, hsingle, hhash, hhyphen, hbackslash⟩ :=
    isPunctuation_iff.mp h
  have hident : startsIdent (c :: rest) = false := by
    simp [startsIdent, startsEscape, hstart, hhyphen, hbackslash]
  exact (Fronts.delim hblank (by simp [IsQuote, hdouble, hsingle]) hdigit
    (fun hc => absurd hc hhash) hident).front_eq_ok position

/-- The text of a token is read as that token. -/
theorem front_text {k : Kind} (h : k.Spelled) {rest : List Char} (hrest : k.EndsAt rest)
    (position : Nat) :
    ∃ c r, k.text ++ rest = c :: r ∧ front position c r = .ok (k, rest) := by
  cases k with
  | ident name =>
      obtain ⟨r, hr, hfront⟩ := front_ident h hrest position
      exact ⟨_, r, hr, hfront⟩
  | hash name =>
      refine ⟨'#', escaped name.toList ++ rest, rfl, ?_⟩
      obtain ⟨d, s, hname, hd⟩ := escaped_eq_cons h
      have hstarts : startsName (escaped name.toList ++ rest) := by
        simp [hname, startsName, startsEscape, hd]
      have hfront := (Fronts.hash rfl hstarts).front_eq_ok position
      rwa [name_escaped hrest, String.ofList_toList] at hfront
  | string value =>
      refine ⟨'"', escaped value.toList ++ '"' :: rest, by simp [Token.Kind.text], ?_⟩
      have hclosed := quoted?_escaped value.toList rest
      have hfront := (Fronts.string (.inl rfl) hclosed).front_eq_ok position
      rwa [String.ofList_toList] at hfront
  | number digits => exact h.elim
  | delim c =>
      exact ⟨c, rest, rfl, front_punctuation h rest position⟩
  | blank =>
      refine ⟨' ', rest, rfl, ?_⟩
      have hfront := (Fronts.blank (r := rest) (show isBlank ' ' by decide)).front_eq_ok position
      rwa [Text.dropWhile_of_head hrest] at hfront

/-- Only a name starts like the rest of a name. -/
theorem startsName_text_eq_false {next : Kind} (hnext : next.Spelled)
    (h : ∀ name, next ≠ .ident name) (rest : List Char) :
    startsName (next.text ++ rest) = false := by
  cases next with
  | ident name => exact absurd rfl (h name)
  | number digits => exact hnext.elim
  | hash | string | blank => exact startsName_eq_false _ (by decide) (by decide)
  | delim c =>
      obtain ⟨_, hstart, hdigit, _, _, _, hhyphen, hc⟩ := isPunctuation_iff.mp hnext
      exact startsName_eq_false _ (by simp [isNameChar, hstart, hdigit, hhyphen]) hc

/-- Only white space starts like white space. -/
theorem head_text_not_blank {next : Kind} (hnext : next.Spelled) (h : next ≠ .blank)
    (rest : List Char) : (next.text ++ rest).head?.any isBlank = false := by
  cases next with
  | ident name =>
      obtain ⟨d, s, hname, _⟩ := escaped_eq_cons hnext
      rw [Token.Kind.text, hname]
      show isBlank '\\' = false
      decide
  | number digits => exact hnext.elim
  | hash name =>
      show isBlank '#' = false
      decide
  | string value =>
      show isBlank '"' = false
      decide
  | delim c => exact (isPunctuation_iff.mp hnext).1
  | blank => exact absurd rfl h

/-- Where a token may follow, the one before it ends. -/
theorem endsAt_of_apart {k next : Kind} (hnext : next.Spelled) (h : k.apart next)
    (rest : List Char) : k.EndsAt (next.text ++ rest) := by
  cases k with
  | ident name | hash name =>
      exact startsName_text_eq_false hnext (by rintro _ rfl; cases h) rest
  | string | number | delim => trivial
  | blank => exact head_text_not_blank hnext (by rintro rfl; cases h) rest

/-- Tokens that are read as they are spelled. -/
structure Legible (ks : List Kind) : Prop where
  spelled : ∀ k ∈ ks, k.Spelled
  apart : ks.IsChain fun k next => k.apart next

/-- No tokens are legible. -/
theorem Legible.nil : Legible [] :=
  ⟨by simp, .nil⟩

/-- A token is legible in front of others if it is spelled by itself, and apart from the next one.
-/
theorem Legible.cons {k : Kind} {ks : List Kind} (hk : k.Spelled)
    (hnext : ∀ next ∈ ks.head?, k.apart next) (h : Legible ks) : Legible (k :: ks) :=
  ⟨List.forall_mem_cons.mpr ⟨hk, h.spelled⟩, h.apart.cons hnext⟩

/-- Without the first token the others are still legible. -/
theorem Legible.tail {k : Kind} {ks : List Kind} (h : Legible (k :: ks)) : Legible ks :=
  ⟨fun _ hk => h.spelled _ (List.mem_cons_of_mem _ hk), List.isChain_of_isChain_cons h.apart⟩

/-- In front of legible tokens, a token ends where its text does. -/
theorem Legible.endsAt {k : Kind} {ks : List Kind} (h : Legible (k :: ks)) :
    k.EndsAt (ks.flatMap Token.Kind.text) := by
  cases ks with
  | nil => cases k <;> trivial
  | cons next ks =>
      rw [List.flatMap_cons]
      exact endsAt_of_apart (h.spelled next (by simp)) (List.isChain_cons_cons.mp h.apart).1 _

/-- **Legible tokens are read back.** -/
theorem tokens_text {ks : List Kind} (h : Legible ks) (position : Nat) :
    ∃ ts, tokens position (ks.flatMap Token.Kind.text) = .ok ts ∧ ts.map Token.kind = ks := by
  induction ks generalizing position with
  | nil => exact ⟨[], tokens_nil position, rfl⟩
  | cons k ks ih =>
      obtain ⟨c, r, hcons, hfront⟩ := front_text (h.spelled k List.mem_cons_self) h.endsAt position
      obtain ⟨ts, hts, hkinds⟩ := ih h.tail _
      rw [List.flatMap_cons, hcons, tokens_of_front hfront, hts]
      exact ⟨⟨k, position⟩ :: ts, rfl, congrArg (k :: ·) hkinds⟩

/-! ### Names -/

/-- A token whose name, if it has one, is not empty. -/
def Token.Kind.Named : Kind → Prop
  | .ident name | .hash name => name ≠ ""
  | _ => True

/-- Where a name starts, it has a character. -/
theorem ofList_name_ne_empty {s : List Char} (h : startsName s) :
    String.ofList (name s).1 ≠ "" := by
  have hcons : ∃ c cs, (name s).1 = c :: cs := by
    cases s with
    | nil => cases h
    | cons c r =>
        rw [name]
        split
        · exact ⟨_, _, rfl⟩
        · split
          · exact ⟨_, _, rfl⟩
          · next hc he => simp [startsName, hc, he] at h
  obtain ⟨c, cs, hcs⟩ := hcons
  rw [hcs]
  exact fun h => List.cons_ne_nil _ _ (String.ofList_eq_empty_iff.mp h)

/-- No name that the lexer reads is empty. -/
theorem named_of_front {position : Nat} {c : Char} {r rest : List Char} {k : Kind}
    (h : front position c r = .ok (k, rest)) : k.Named := by
  cases fronts_of_front h with
  | hash _ starts => exact ofList_name_ne_empty starts
  | ident _ starts => exact ofList_name_ne_empty (startsName_of_startsIdent starts)
  | blank | string | number | delim => trivial

/-- **The lexer gives no empty names.** -/
theorem named_of_tokens (position : Nat) (s : List Char) :
    ∀ {ts : List Token}, tokens position s = .ok ts → ∀ t ∈ ts, t.kind.Named := by
  -- The lexer is at the end, or it finds an error, or it goes on behind a token.
  induction position, s using tokens.induct with
  | case1 position =>
      intro ts h
      rw [tokens_nil] at h
      cases h
      simp
  | case2 position c r e he =>
      intro ts h
      rw [tokens_of_front_error he] at h
      cases h
  | case3 position c r k rest hk ih =>
      intro ts h
      rw [tokens_of_front hk, map_eq_ok_iff] at h
      obtain ⟨more, hmore, rfl⟩ := h
      exact List.forall_mem_cons.mpr ⟨named_of_front hk, ih hmore⟩

end XPathLocator.Css
