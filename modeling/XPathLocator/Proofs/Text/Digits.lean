import Mathlib.Data.Nat.Digits.Lemmas

/-!
# `XPathLocator.Proofs.Text.Digits`: letters, and the digits of a number in a text

Names are made of letters, and what is known of a letter is its code point. Escapes in selectors
and in YAML scalars hold a code point in hexadecimal. What they share is which characters can occur
in it.
-/

set_option autoImplicit false

namespace XPathLocator.Text

/-- The code points of letters. -/
theorem isAlpha_iff_toNat {c : Char} :
    c.isAlpha ↔ 65 ≤ c.toNat ∧ c.toNat ≤ 90 ∨ 97 ≤ c.toNat ∧ c.toNat ≤ 122 := by
  unfold Char.isAlpha Char.isUpper Char.isLower
  simp only [Bool.or_eq_true, Bool.and_eq_true, decide_eq_true_eq, ge_iff_le,
    UInt32.le_iff_toNat_le]
  rfl

/-- A hexadecimal numeral is made of the sixteen digits. Induction on the number, one digit at a
time, the last one first. -/
theorem exists_of_mem_toDigits {n : Nat} :
    ∀ {d : Char}, d ∈ Nat.toDigits 16 n → ∃ k < 16, d = k.digitChar := by
  induction n using Nat.base_induction 16 (by decide) with
  | single m hm =>
      intro d hd
      rw [Nat.toDigits_of_lt_base hm, List.mem_singleton] at hd
      exact ⟨m, hm, hd⟩
  | digit m k hk hm ih =>
      intro d hd
      rw [← Nat.toDigits_append_toDigits (by decide) hm hk, Nat.toDigits_of_lt_base hk,
        List.mem_append, List.mem_singleton] at hd
      rcases hd with hd | rfl
      · exact ih hd
      · exact ⟨k, hk, rfl⟩

end XPathLocator.Text
