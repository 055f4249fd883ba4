import XPathLocator.Proofs.Css.Piece

/-!
# `XPathLocator.Proofs.Css.Front`: the token in front of a text

`front` tries one kind of token after the other. `Fronts` has a rule for each kind, which says what
the text must be like and not what has been tried before. The order is left in one rule only: an
identifier starts with no white space, since beyond ASCII a character can be both.

`front_eq_ok_iff` says that the lexer reads by these rules, wherever the text stands. What a token
promises is proved by cases on them.
-/

set_option autoImplicit false

namespace XPathLocator.Css

open Text (isBlank)
open Token (Kind)

/-! ### Characters -/

/-- The two quotes. -/
def IsQuote (c : Char) : Prop :=
  c = '"' ∨ c = '\''

/-- The test of the lexer is for the two quotes. -/
theorem isQuote_iff {c : Char} : (c = '"' || c = '\'') = true ↔ IsQuote c := by
  rw [Bool.or_eq_true, decide_eq_true_eq, decide_eq_true_eq, IsQuote]

/-- A backslash is no quote. -/
theorem IsQuote.ne_backslash {quote : Char} (h : IsQuote quote) : quote ≠ '\\' := by
  rcases h with rfl | rfl <;> decide

/-- White space is no digit. -/
theorem not_isDigit_of_isBlank {c : Char} (h : isBlank c) : c.isDigit = false := by
  have hhex := not_isHexDigit_of_isBlank h
  simp only [Char.isHexDigit, Bool.or_eq_false_iff] at hhex
  exact hhex.1.1

/-- A digit starts no name. -/
theorem not_isNameStart_of_isDigit {c : Char} (h : c.isDigit) : isNameStart c = false := by
  -- Digits are looked for among all characters up to the last of them.
  have hsmall : ∀ n : Fin 58, (Char.ofNat n).isDigit → isNameStart (Char.ofNat n) = false := by
    decide
  have hlt : c.toNat < 58 := by
    have hrange : 48 ≤ c.toNat ∧ c.toNat ≤ 57 := by
      simpa [Char.isDigit, UInt32.le_iff_toNat_le] using h
    omega
  have hc : Char.ofNat c.toNat = c := Char.ofNat_toNat c
  have hsame := hsmall ⟨c.toNat, hlt⟩
  rw [hc] at hsame
  exact hsame h

/-! ### Where names and identifiers start -/

/-- An escape starts with a backslash and a character other than a line feed. -/
theorem startsEscape_cons (c : Char) (r : List Char) :
    startsEscape (c :: r) = (c == '\\' && r.head?.any (· ≠ '\n')) := by
  by_cases hc : c = '\\'
  · subst hc
    cases r <;> rfl
  · rw [startsEscape]
    · simp [hc]
    · rintro d r ⟨⟩
      exact hc rfl

/-- Where no name character and no backslash stands, no name starts. -/
theorem startsName_eq_false {c : Char} (r : List Char) (h : isNameChar c = false)
    (hc : c ≠ '\\') : startsName (c :: r) = false := by
  simp [startsName, startsEscape, h, hc]

/-- An identifier is a name that starts with no digit and no hyphen, -/
theorem startsIdent_of_ne {c : Char} (r : List Char) (hc : c ≠ '-') (hdigit : c.isDigit = false) :
    startsIdent (c :: r) = startsName (c :: r) := by
  simp [startsIdent, startsName, isNameChar, hc, hdigit]

/-- or a hyphen and a name that starts with no digit. -/
theorem startsIdent_hyphen (r : List Char) :
    startsIdent ('-' :: r) = (startsName r && !r.head?.any Char.isDigit) := by
  cases r with
  | nil => rfl
  | cons c r =>
      cases hdigit : c.isDigit with
      | true =>
          have hc : c ≠ '-' ∧ c ≠ '\\' := by
            refine ⟨?_, ?_⟩ <;> rintro rfl <;> exact absurd hdigit (by decide)
          simp [startsIdent, startsEscape_cons, not_isNameStart_of_isDigit hdigit, hdigit, hc]
      | false => simp [startsIdent, startsName, isNameChar, hdigit]

/-- The characters an identifier can start with. -/
theorem head_of_startsIdent {c : Char} {r : List Char} (h : startsIdent (c :: r)) :
    isNameStart c ∨ c = '-' ∨ c = '\\' := by
  rw [startsIdent] at h
  split at h
  · next hc => exact .inr (.inl hc)
  · rw [Bool.or_eq_true, startsEscape_cons, Bool.and_eq_true, beq_iff_eq] at h
    exact h.imp_right fun hescape => .inr hescape.1

/-- No identifier starts with a digit. -/
theorem not_isDigit_of_startsIdent {c : Char} {r : List Char} (h : startsIdent (c :: r)) :
    c.isDigit = false := by
  rw [Bool.eq_false_iff]
  intro hdigit
  rcases head_of_startsIdent h with hstart | rfl | rfl
  · rw [not_isNameStart_of_isDigit hdigit] at hstart
    cases hstart
  · exact absurd hdigit (by decide)
  · exact absurd hdigit (by decide)

/-! ### One kind of token at a time -/

section
variable {c : Char} (position : Nat)

/-- A quote starts a string, or one that is not closed. -/
theorem front_quote (h : IsQuote c) (s : List Char) :
    front position c s =
      match quoted? c s with
      | some (value, rest) => .ok (.string (.ofList value), rest)
      | none => .error (.unterminatedString position) := by
  have hblank : isBlank c = false := by rcases h with rfl | rfl <;> decide
  rw [front, if_neg (by simp [hblank]), if_pos (isQuote_iff.mpr h)]
  rfl

/-- A hash sign starts a hash if a name stands behind it, and is a delimiter otherwise. -/
theorem front_hash (s : List Char) :
    front position '#' s = if startsName s then .ok (.hash (.ofList (name s).1), (name s).2)
      else .ok (.delim '#', s) := by
  have hident : startsIdent ('#' :: s) = false := by
    rw [startsIdent_of_ne s (by decide) (by decide)]
    exact startsName_eq_false s (by decide) (by decide)
  rw [front, if_neg (by decide), if_neg (by decide)]
  cases startsName s with
  | true => rfl
  | false =>
      rw [if_neg (by decide), if_neg (by decide), hident]
      rfl

/-- A digit starts a number. -/
theorem front_digit (hdigit : c.isDigit) (s : List Char) :
    front position c s = .ok (.number (.ofList (number (c :: s)).1), (number (c :: s)).2) := by
  have hblank : ¬ isBlank c := fun h => by simp [not_isDigit_of_isBlank h] at hdigit
  have hquote : ¬ IsQuote c := by
    rintro (rfl | rfl) <;> exact absurd hdigit (by decide)
  have hhash : ¬ (c = '#' && startsName s) = true := by
    rw [Bool.and_eq_true, decide_eq_true_eq]
    rintro ⟨rfl, _⟩
    exact absurd hdigit (by decide)
  rw [front, if_neg hblank, if_neg (mt isQuote_iff.mp hquote), if_neg hhash, if_pos hdigit]
  rfl

/-- What is no white space, no quote, no `#` and no digit starts an identifier or stands for
itself. -/
theorem front_word (hblank : isBlank c = false) (hquote : ¬ IsQuote c) (hhash : c ≠ '#')
    (hdigit : c.isDigit = false) (s : List Char) : front position c s =
      if startsIdent (c :: s) then .ok (.ident (.ofList (name (c :: s)).1), (name (c :: s)).2)
      else .ok (.delim c, s) := by
  rw [front, if_neg (by simp [hblank]), if_neg (mt isQuote_iff.mp hquote),
    if_neg (by simp [hhash]), if_neg (by simp [hdigit])]
  rfl

end

/-! ### The rules -/

/-- The lexer reads a token of this kind at the character `c` with the characters `r`
behind it, and leaves the rest. -/
inductive Fronts (c : Char) (r : List Char) : Kind → List Char → Prop
  | blank (head : isBlank c) : Fronts c r .blank (r.dropWhile isBlank)
  | string {value rest : List Char} (head : IsQuote c)
      (closed : quoted? c r = some (value, rest)) : Fronts c r (.string (.ofList value)) rest
  | hash (head : c = '#') (starts : startsName r) :
      Fronts c r (.hash (.ofList (name r).1)) (name r).2
  | number (head : c.isDigit) :
      Fronts c r (.number (.ofList (number (c :: r)).1)) (number (c :: r)).2
  | ident (head : isBlank c = false) (starts : startsIdent (c :: r)) :
      Fronts c r (.ident (.ofList (name (c :: r)).1)) (name (c :: r)).2
  | delim (blank : isBlank c = false) (quote : ¬ IsQuote c) (digit : c.isDigit = false)
      (hash : c = '#' → startsName r = false) (ident : startsIdent (c :: r) = false) :
      Fronts c r (.delim c) r

variable {position : Nat} {c : Char} {r rest : List Char} {k : Kind}

/-- What the lexer reads, the rules have. The order in which it tries the kinds of tokens gives what
each rule asks of the text. -/
theorem fronts_of_front (h : front position c r = .ok (k, rest)) : Fronts c r k rest := by
  rw [front] at h
  split at h
  · next hblank =>
    cases h
    exact .blank hblank
  next hblank =>
  rw [Bool.not_eq_true] at hblank
  split at h
  · next hquote =>
    split at h
    · next hclosed =>
      cases h
      exact .string (isQuote_iff.mp hquote) hclosed
    · cases h
  next hquote =>
  split at h
  · next hhash =>
    cases h
    rw [Bool.and_eq_true, decide_eq_true_eq] at hhash
    exact .hash hhash.1 hhash.2
  next hhash =>
  split at h
  · next hdigit =>
    cases h
    exact .number hdigit
  next hdigit =>
  rw [Bool.not_eq_true] at hdigit
  split at h
  · next hident =>
    cases h
    exact .ident hblank hident
  · next hident =>
    cases h
    refine .delim hblank (mt isQuote_iff.mpr hquote) hdigit ?_ (by simpa using hident)
    rintro rfl
    simpa using hhash

/-- What the rules have, the lexer reads, wherever the text stands. -/
theorem Fronts.front_eq_ok (h : Fronts c r k rest) (position : Nat) :
    front position c r = .ok (k, rest) := by
  cases h with
  | blank head =>
      rw [front, if_pos head]
      rfl
  | string head closed => rw [front_quote position head, closed]
  | hash head starts =>
      subst head
      rw [front_hash, if_pos starts]
  | number head => exact front_digit position head r
  | ident head starts =>
      -- None of the tokens that are tried before starts with such a character.
      have hchar := head_of_startsIdent starts
      have hquote : ¬ IsQuote c := by
        rintro (rfl | rfl) <;> exact absurd hchar (by decide)
      have hhash : c ≠ '#' := by
        rintro rfl
        exact absurd hchar (by decide)
      rw [front_word position head hquote hhash (not_isDigit_of_startsIdent starts), if_pos starts]
  | delim blank quote digit hash ident =>
      by_cases hc : c = '#'
      · subst hc
        rw [front_hash, if_neg (by simp [hash rfl])]
      · rw [front_word position blank quote hc digit, if_neg (by simp [ident])]

/-- **The lexer reads by the rules**, wherever the text stands. -/
theorem front_eq_ok_iff : front position c r = .ok (k, rest) ↔ Fronts c r k rest :=
  ⟨fronts_of_front, fun h => h.front_eq_ok position⟩

/-- The position is no matter to a token. -/
theorem front_ok_position (p : Nat) (h : front position c r = .ok (k, rest)) :
    front p c r = .ok (k, rest) :=
  (fronts_of_front h).front_eq_ok p

/-- Only a name is read as an identifier. -/
theorem front_eq_ident {n : String} (h : front position c r = .ok (.ident n, rest)) :
    startsIdent (c :: r) ∧ name (c :: r) = (n.toList, rest) := by
  cases fronts_of_front h with
  | ident _ starts => exact ⟨starts, by rw [String.toList_ofList]⟩

end XPathLocator.Css
