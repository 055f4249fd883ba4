import Mathlib.Data.Nat.Digits.Defs
import XPathLocator.Css.Token.Lexer
import XPathLocator.Proofs.Text.Run

/-!
# `XPathLocator.Proofs.Css.Escape`: the forms of an escape

An escape is read greedily. As many hexadecimal digits are taken as there are, up to six, and one
white-space character behind them. So whether some characters are an escape depends on what stands
behind them, and `Escape.EndsAt` says of an escape that it ends where a given text starts.

Every text behind a backslash starts with exactly one escape of this kind. `escape_text` says that
the lexer reads it, and `exists_escape` that there is one to read, unless a line feed or nothing at
all stands behind the backslash.

The character of digits is said here without the lexer: the number they denote, which is written
with the most significant digit first, is a code point, or the character is `U+FFFD`.
-/

set_option autoImplicit false

namespace XPathLocator.Css

open Text (isBlank)

/-! ### Digits -/

/-- The number of a hexadecimal digit of either case. -/
def digitNumber (d : Char) : Nat :=
  "0123456789abcdef".toList.idxOf d.toLower

/-- The number that hexadecimal digits denote. -/
def hexNumber (digits : List Char) : Nat :=
  Nat.ofDigits 16 (digits.reverse.map digitNumber)

/-- The code points of hexadecimal digits. -/
theorem isHexDigit_range {d : Char} (h : d.isHexDigit) :
    (48 ≤ d.toNat ∧ d.toNat ≤ 57 ∨ 97 ≤ d.toNat ∧ d.toNat ≤ 102) ∨
      65 ≤ d.toNat ∧ d.toNat ≤ 70 := by
  simpa [Char.isHexDigit, Char.isDigit, UInt32.le_iff_toNat_le] using h

/-- The value of a digit is the number that it denotes. -/
theorem hexValue_eq_digitNumber {d : Char} (h : d.isHexDigit) : hexValue d = digitNumber d := by
  -- There are few digits, so the two are compared on all characters up to the last one.
  have hsmall : ∀ n : Fin 103, (Char.ofNat n).isHexDigit →
      hexValue (Char.ofNat n) = digitNumber (Char.ofNat n) := by
    decide
  have hlt : d.toNat < 103 := by
    have hrange := isHexDigit_range h
    omega
  have hd : Char.ofNat d.toNat = d := Char.ofNat_toNat d
  have hsame := hsmall ⟨d.toNat, hlt⟩
  rw [hd] at hsame
  exact hsame h

/-- The value that is summed up from digits is the number that they denote. Induction on the digits.
-/
theorem foldl_hexValue {digits : List Char} (h : ∀ d ∈ digits, d.isHexDigit) :
    digits.foldl (fun n d => n * 16 + hexValue d) 0 = hexNumber digits := by
  have hvalues : digits.map hexValue = digits.map digitNumber :=
    List.map_congr_left fun d hd => hexValue_eq_digitNumber (h d hd)
  have hfold : digits.foldl (fun n d => n * 16 + hexValue d) 0
      = (digits.map hexValue).foldl (fun n v => n * 16 + v) 0 := List.foldl_map.symm
  rw [hfold, hvalues, hexNumber, List.map_reverse, Nat.ofDigits_eq_foldr, List.foldr_reverse]
  -- The two differ in the order of their operands only.
  simp only [Nat.cast_id, Nat.add_comm, Nat.mul_comm]

/-- White space is no hexadecimal digit. -/
theorem not_isHexDigit_of_isBlank {c : Char} (h : isBlank c) : c.isHexDigit = false := by
  rw [Bool.eq_false_iff]
  intro hhex
  have hrange := isHexDigit_range hhex
  simp only [isBlank, Text.blankRanges, List.any_cons, List.any_nil, Bool.or_false,
    Bool.or_eq_true, Bool.and_eq_true, decide_eq_true_eq] at h
  omega

/-! ### Escapes -/

/-- What stands behind the backslash of an escape. -/
inductive Escape
  /-- Hexadecimal digits, and the white-space character behind them, if there is one. -/
  | code (digits : List Char) (stop : Option Char)
  /-- A character for itself. -/
  | char (c : Char)

namespace Escape

/-- The characters of an escape. -/
def text : Escape → List Char
  | .code digits stop => digits ++ stop.toList
  | .char c => [c]

/-- The character that an escape denotes. Zero, the surrogates and the numbers beyond the last code
point denote none. -/
def value : Escape → Char
  | .code digits _ =>
    let n := hexNumber digits
    if n = 0 ∨ (0xD800 ≤ n ∧ n ≤ 0xDFFF) ∨ 0x10FFFF < n then '\uFFFD' else Char.ofNat n
  | .char c => c

/-- The escape is one that ends where the text `rest` starts. -/
def EndsAt (rest : List Char) : Escape → Prop
  | .code digits stop =>
    digits ≠ [] ∧ digits.length ≤ 6 ∧ (∀ d ∈ digits, d.isHexDigit) ∧
      match stop with
      | some b => isBlank b
      | none =>
        rest.head?.any isBlank = false ∧
          (digits.length = 6 ∨ rest.head?.any Char.isHexDigit = false)
  | .char c => c.isHexDigit = false ∧ c ≠ '\n'

/-- The value of an escape with digits is the character of their number, whatever ends it. -/
theorem value_code {digits : List Char} (h : ∀ d ∈ digits, d.isHexDigit) (stop : Option Char) :
    (code digits stop).value = ofHex digits := by
  rw [value, ofHex, foldl_hexValue h]
  generalize hexNumber digits = n
  -- The code points are the numbers up to the last one without the surrogates.
  have hvalid : n ≠ 0 ∧ n.isValidChar ↔
      ¬ (n = 0 ∨ (0xD800 ≤ n ∧ n ≤ 0xDFFF) ∨ 0x10FFFF < n) := by
    show n ≠ 0 ∧ (n < 0xD800 ∨ 0xDFFF < n ∧ n < 0x110000) ↔ _
    omega
  simp only [hvalid, ite_not]
  rfl

end Escape

/-- Nothing is dropped where no white space stands. -/
theorem dropBlank_of_head {t : List Char} (h : t.head?.any isBlank = false) : dropBlank t = t := by
  cases t with
  | nil => rfl
  | cons c t => rw [dropBlank, if_neg (by simpa using h)]

/-- At most five digits more are read, as many as there are. -/
theorem takeWhile_take_append {more t : List Char} (hmore : ∀ c ∈ more, c.isHexDigit)
    (hlength : more.length ≤ 5) (ht : more.length = 5 ∨ t.head?.any Char.isHexDigit = false) :
    ((more ++ t).take 5).takeWhile Char.isHexDigit = more := by
  rw [List.take_append, List.take_of_length_le hlength, List.takeWhile_append_of_pos hmore]
  rcases ht with hfull | hhead
  · rw [hfull, Nat.sub_self, List.take_zero, List.takeWhile_nil, List.append_nil]
  · rw [Text.takeWhile_of_head, List.append_nil]
    cases t with
    | nil => rw [List.take_nil]; rfl
    | cons d t =>
        cases 5 - more.length with
        | zero => rfl
        | succ k => exact hhead

/-- A text is the digits that are read and what is left, which starts with no digit unless
there were five. -/
theorem exists_eq_more (r : List Char) :
    ∃ more s, r = more ++ s ∧ (∀ c ∈ more, c.isHexDigit) ∧ more.length ≤ 5 ∧
      (more.length = 5 ∨ s.head?.any Char.isHexDigit = false) := by
  refine ⟨(r.take 5).takeWhile Char.isHexDigit,
    (r.take 5).dropWhile Char.isHexDigit ++ r.drop 5, ?_, fun c hc => List.mem_takeWhile_imp hc,
    Nat.le_trans (List.takeWhile_prefix _).length_le (List.length_take_le 5 r), ?_⟩
  · rw [← List.append_assoc, List.takeWhile_append_dropWhile, List.take_append_drop]
  · have hhead := Text.head_dropWhile Char.isHexDigit (r.take 5)
    cases hrest : (r.take 5).dropWhile Char.isHexDigit with
    | cons d s => exact .inr (by rwa [hrest] at hhead)
    | nil =>
        -- All of the first five are digits, or there were fewer.
        have hall : (r.take 5).takeWhile Char.isHexDigit = r.take 5 := by
          rw [← List.append_nil ((r.take 5).takeWhile _), ← hrest,
            List.takeWhile_append_dropWhile]
        rcases Nat.lt_or_ge r.length 5 with hlt | hge
        · exact .inr (by rw [List.drop_eq_nil_of_le (Nat.le_of_lt hlt)]; rfl)
        · exact .inl (by rw [hall, List.length_take, Nat.min_eq_left hge])

/-- An escape with digits is read up to the sixth one, or up to a character that is none, with one
white-space character behind. -/
theorem escape_digits {c : Char} (hc : c.isHexDigit) {more s : List Char}
    (hmore : ∀ c ∈ more, c.isHexDigit) (hlength : more.length ≤ 5)
    (hs : more.length = 5 ∨ s.head?.any Char.isHexDigit = false) :
    escape (c :: (more ++ s)) = (ofHex (c :: more), dropBlank s) := by
  rw [escape, if_pos hc]
  simp only [takeWhile_take_append hmore hlength hs, List.drop_left]

/-- **An escape is read whole** in front of a text at which it ends. -/
theorem escape_text {e : Escape} {rest : List Char} (h : e.EndsAt rest) :
    escape (e.text ++ rest) = (e.value, rest) := by
  cases e with
  | char c =>
      show escape (c :: rest) = (c, rest)
      rw [escape, if_neg (by simp [h.1])]
  | code digits stop =>
      obtain ⟨hne, hlength, hdigits, hstop⟩ := h
      rw [Escape.value_code hdigits]
      cases digits with
      | nil => exact absurd rfl hne
      | cons c more =>
          have hc := hdigits c List.mem_cons_self
          have hmore : ∀ d ∈ more, d.isHexDigit := fun d hd => hdigits d (List.mem_cons_of_mem _ hd)
          have hfive : more.length ≤ 5 := Nat.le_of_succ_le_succ hlength
          cases stop with
          | some b =>
              -- The white-space character ends the digits and goes with them.
              have hhex : (b :: rest).head?.any Char.isHexDigit = false :=
                not_isHexDigit_of_isBlank hstop
              have htext : (Escape.code (c :: more) (some b)).text ++ rest
                  = c :: (more ++ b :: rest) := by simp [Escape.text]
              rw [htext, escape_digits hc hmore hfive (.inr hhex), dropBlank, if_pos hstop]
          | none =>
              have hhex : more.length = 5 ∨ rest.head?.any Char.isHexDigit = false :=
                hstop.2.imp_left Nat.succ.inj
              have htext : (Escape.code (c :: more) none).text ++ rest = c :: (more ++ rest) := by
                simp [Escape.text]
              rw [htext, escape_digits hc hmore hfive hhex, dropBlank_of_head hstop.1]

/-- **Every text starts with an escape**, but for a line feed. -/
theorem exists_escape {c : Char} (hc : c ≠ '\n') (r : List Char) :
    ∃ (e : Escape) (rest : List Char), c :: r = e.text ++ rest ∧ e.EndsAt rest := by
  by_cases hhex : c.isHexDigit
  · obtain ⟨more, s, rfl, hmore, hlength, hs⟩ := exists_eq_more r
    have hdigits : ∀ d ∈ c :: more, d.isHexDigit := List.forall_mem_cons.mpr ⟨hhex, hmore⟩
    have hsix : (c :: more).length ≤ 6 := Nat.succ_le_succ hlength
    cases hblank : s.head?.any isBlank with
    | false =>
        refine ⟨.code (c :: more) none, s, by simp [Escape.text], ?_⟩
        exact ⟨List.cons_ne_nil _ _, hsix, hdigits, hblank, hs.imp_left (congrArg Nat.succ)⟩
    | true =>
        cases s with
        | nil => cases hblank
        | cons b s =>
            refine ⟨.code (c :: more) (some b), s, by simp [Escape.text], ?_⟩
            exact ⟨List.cons_ne_nil _ _, hsix, hdigits, hblank⟩
  · exact ⟨.char c, r, rfl, by simpa using hhex, hc⟩

end XPathLocator.Css
