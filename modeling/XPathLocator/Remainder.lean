/-!
# `XPathLocator.Remainder`: what is left of a list once its front is read

A reader takes a list and gives a value and the items it left. A loop of such
readers ends because each step leaves less, so the readers here hand that fact
over together with the items: a `Rest` is never longer than the list it came
from, a `Tail` is strictly shorter. The proofs are erased when the program
runs.
-/

set_option autoImplicit false

namespace XPathLocator

variable {α : Type}

/-- The items left after reading from the front of `s`, perhaps all of them. -/
abbrev Rest (s : List α) := { r : List α // r.length ≤ s.length }

/-- The items left after at least one was read from the front of `s`. -/
abbrev Tail (s : List α) := { r : List α // r.length < s.length }

/-- A strictly shorter remainder is in particular a remainder. -/
def Tail.toRest {s : List α} (r : Tail s) : Rest s :=
  ⟨r.1, Nat.le_of_lt r.2⟩

/-- All of a list is left when nothing of it is read. -/
def Rest.all (s : List α) : Rest s :=
  ⟨s, Nat.le_refl _⟩

/-- What is left behind the first item. -/
def Tail.ofCons (x : α) (s : List α) : Tail (x :: s) :=
  ⟨s, Nat.lt_succ_self _⟩

/-- A remainder of a remainder is a remainder. -/
def Rest.of {s : List α} (r : Rest s) (t : Rest r.1) : Rest s :=
  ⟨t.1, Nat.le_trans t.2 r.2⟩

/-- Reading on behind an item that was read. -/
def Tail.of {s : List α} (r : Tail s) (t : Rest r.1) : Tail s :=
  ⟨t.1, Nat.lt_of_le_of_lt t.2 r.2⟩

/-- Reading an item behind what was passed over. -/
def Rest.tail {s : List α} (r : Rest s) (t : Tail r.1) : Tail s :=
  ⟨t.1, Nat.lt_of_lt_of_le t.2 r.2⟩

/-- Passes over the items of a class. -/
def Rest.dropWhile (p : α → Bool) (s : List α) : Rest s :=
  ⟨s.dropWhile p, (List.dropWhile_suffix p).length_le⟩

end XPathLocator
