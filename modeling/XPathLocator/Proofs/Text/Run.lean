import Mathlib.Data.List.TakeWhile

/-!
# `XPathLocator.Proofs.Text.Run`: runs at the front of a text

Readers take characters from the front of a text as long as these are of one kind. Where the run
ends is settled by the characters up to the first one of another kind. So a text behind it
changes nothing, unless it goes on with the run.
-/

set_option autoImplicit false

namespace XPathLocator.Text

variable {p : Char → Bool} {u w : List Char}

/-- What is left behind a run does not go on with it. -/
theorem head_dropWhile (p : Char → Bool) (cs : List Char) :
    (cs.dropWhile p).head?.any p = false := by
  cases h : (cs.dropWhile p).head? with
  | none => rfl
  | some c =>
      have hc := List.head?_dropWhile_not p cs
      rw [h] at hc
      simpa using hc

/-- A text that does not start with such a character has no run of them. -/
theorem takeWhile_of_head (hw : w.head?.any p = false) : w.takeWhile p = [] := by
  cases w with
  | nil => rfl
  | cons c w => exact List.takeWhile_cons_of_neg (by simpa using hw)

/-- And nothing is dropped of it. -/
theorem dropWhile_of_head (hw : w.head?.any p = false) : w.dropWhile p = w := by
  cases w with
  | nil => rfl
  | cons c w => exact List.dropWhile_cons_of_neg (by simpa using hw)

/-- A run in front is the same with a text behind that does not go on with it. -/
theorem takeWhile_append_of_head (u : List Char) (hw : w.head?.any p = false) :
    (u ++ w).takeWhile p = u.takeWhile p := by
  rw [List.takeWhile_append]
  split
  · next hall =>
    rw [takeWhile_of_head hw, List.append_nil]
    exact ((List.takeWhile_prefix p).eq_of_length hall).symm
  · rfl

/-- What is left behind such a run keeps the text behind. -/
theorem dropWhile_append_of_head (u : List Char) (hw : w.head?.any p = false) :
    (u ++ w).dropWhile p = u.dropWhile p ++ w := by
  rw [List.dropWhile_append]
  split
  · next hnil => rw [dropWhile_of_head hw, List.isEmpty_iff.mp hnil, List.nil_append]
  · rfl

/-- A text of one kind is read whole, up to a character of another kind. -/
theorem run_append (hu : ∀ c ∈ u, p c) (hw : w.head?.any p = false) :
    (u ++ w).takeWhile p = u ∧ (u ++ w).dropWhile p = w := by
  rw [takeWhile_append_of_head u hw, dropWhile_append_of_head u hw,
    List.takeWhile_eq_self_iff.mpr hu, List.dropWhile_eq_nil_iff.mpr hu]
  exact ⟨rfl, rfl⟩

end XPathLocator.Text
