import XPathLocator.Proofs.Text.Run
import XPathLocator.Text.Blank

/-!
# `XPathLocator.Proofs.Text.Trim`: what trimming leaves

A text is its trimmed form with blanks on both sides (`exists_eq_trimChars`), and the trimmed
form starts and ends with characters that are no blanks. So trimming again changes nothing.

Where only the end is trimmed, all that matters is the last character (`endsBlank`), and that is
the last one of what was written last (`endsBlank_append`).
-/

set_option autoImplicit false

namespace XPathLocator.Text

/-- Nothing but white space. -/
def AllBlank (cs : List Char) : Prop :=
  ∀ c ∈ cs, isBlank c

/-- What is trimmed from the front is white space. -/
theorem allBlank_takeWhile (cs : List Char) : AllBlank (cs.takeWhile isBlank) :=
  fun _ hc => List.mem_takeWhile_imp hc

/-- The end of a text without the blanks it ends in. -/
theorem exists_eq_trimEndChars (cs : List Char) :
    ∃ w, cs = trimEndChars cs ++ w ∧ AllBlank w := by
  refine ⟨(cs.reverse.takeWhile isBlank).reverse, ?_, fun c hc => ?_⟩
  · rw [trimEndChars, ← List.reverse_append, List.takeWhile_append_dropWhile, List.reverse_reverse]
  · exact allBlank_takeWhile _ c (List.mem_reverse.mp hc)

/-- What is trimmed at the end does not end in white space. -/
theorem last_trimEndChars (cs : List Char) : (trimEndChars cs).getLast?.any isBlank = false := by
  rw [trimEndChars, List.getLast?_reverse]
  exact head_dropWhile isBlank _

/-- White space behind a text that ends in none is all that is cut. -/
theorem trimEndChars_append {u w : List Char} (hu : u.getLast?.any isBlank = false)
    (hw : AllBlank w) : trimEndChars (u ++ w) = u := by
  have hhead : u.reverse.head?.any isBlank = false := by rwa [List.head?_reverse]
  have hall : ∀ c ∈ w.reverse, isBlank c := fun c hc => hw c (List.mem_reverse.mp hc)
  rw [trimEndChars, List.reverse_append, (run_append hall hhead).2, List.reverse_reverse]

/-- The white space at the end of a text is told by the text. -/
theorem append_allBlank_inj {u u' w w' : List Char} (h : u ++ w = u' ++ w')
    (hu : u.getLast?.any isBlank = false) (hu' : u'.getLast?.any isBlank = false)
    (hw : AllBlank w) (hw' : AllBlank w') : u = u' ∧ w = w' := by
  have hsame : u = u' := by
    rw [← trimEndChars_append hu hw, h, trimEndChars_append hu' hw']
  subst hsame
  exact ⟨rfl, List.append_cancel_left h⟩

/-- **A text is its trimmed form with blanks on both sides.** -/
theorem exists_eq_trimChars (cs : List Char) :
    ∃ l w, cs = l ++ (trimChars cs ++ w) ∧ AllBlank l ∧ AllBlank w := by
  obtain ⟨w, hw, hblank⟩ := exists_eq_trimEndChars (cs.dropWhile isBlank)
  refine ⟨cs.takeWhile isBlank, w, ?_, allBlank_takeWhile cs, hblank⟩
  rw [trimChars, ← hw, List.takeWhile_append_dropWhile]

/-- A trimmed text does not end in white space. -/
theorem last_trimChars (cs : List Char) : (trimChars cs).getLast?.any isBlank = false :=
  last_trimEndChars _

/-- A trimmed text does not start with white space. -/
theorem head_trimChars (cs : List Char) : (trimChars cs).head?.any isBlank = false := by
  have hhead := head_dropWhile isBlank cs
  obtain ⟨w, hw, _⟩ := exists_eq_trimEndChars (cs.dropWhile isBlank)
  -- Unless nothing is left, the end is cut behind the first character.
  rw [trimChars]
  cases htrim : trimEndChars (cs.dropWhile isBlank) with
  | nil => rfl
  | cons c r =>
      rw [hw, htrim] at hhead
      exact hhead

/-- Nothing is left of white space, and of nothing else. -/
theorem isEmpty_trim_iff (s : String) : (trim s).isEmpty ↔ AllBlank s.toList := by
  rw [String.isEmpty_iff, trim, String.ofList_eq_empty_iff]
  constructor
  · intro h
    obtain ⟨l, w, hs, hl, hw⟩ := exists_eq_trimChars s.toList
    rw [hs, h]
    exact List.forall_mem_append.mpr ⟨hl, hw⟩
  · intro h
    rw [trimChars, List.dropWhile_eq_nil_iff.mpr h]
    rfl

/-- What starts and ends with no blank is left as it is. -/
theorem trim_eq_self {s : String} (hhead : s.toList.head?.any isBlank = false)
    (hlast : s.toList.getLast?.any isBlank = false) : trim s = s := by
  rw [trim, trimChars, dropWhile_of_head hhead, trimEndChars, dropWhile_of_head,
    List.reverse_reverse, String.ofList_toList]
  rw [List.head?_reverse]
  exact hlast

/-- Trimming changes a text exactly if there is a blank at one of its ends. -/
theorem trim_eq_self_iff {s : String} : trim s = s ↔
    s.toList.head?.any isBlank = false ∧ s.toList.getLast?.any isBlank = false := by
  constructor
  · intro h
    have htrim : s.toList = trimChars s.toList := by
      rw [← String.toList_ofList (l := trimChars s.toList)]
      exact congrArg String.toList h.symm
    rw [htrim]
    exact ⟨head_trimChars _, last_trimChars _⟩
  · rintro ⟨hhead, hlast⟩
    exact trim_eq_self hhead hlast

/-- What trimming leaves stands in the text. -/
theorem trim_isInfix (s : String) : (trim s).toList <:+: s.toList := by
  obtain ⟨l, w, hs, _, _⟩ := exists_eq_trimChars s.toList
  rw [trim, String.toList_ofList]
  exact ⟨l, w, by rw [List.append_assoc, ← hs]⟩

/-- A text that starts with no blank is its trimmed form with blanks behind it. -/
theorem exists_eq_trim_append {s : String} (h : s.toList.head?.any isBlank = false) :
    ∃ w : String, AllBlank w.toList ∧ s = trim s ++ w := by
  obtain ⟨l, w, hs, hl, hw⟩ := exists_eq_trimChars s.toList
  have hnil : l = [] := by
    cases l with
    | nil => rfl
    | cons c l =>
        rw [hs, List.cons_append, List.head?_cons, Option.any_some, hl c List.mem_cons_self] at h
        cases h
  rw [hnil, List.nil_append] at hs
  refine ⟨.ofList w, by rwa [String.toList_ofList], ?_⟩
  rw [trim, ← String.ofList_append, ← hs, String.ofList_toList]

/-- Trimming twice is trimming once. -/
theorem trim_trim (s : String) : trim (trim s) = trim s := by
  have htrim : (trim s).toList = trimChars s.toList := String.toList_ofList
  refine trim_eq_self ?_ ?_
  · rw [htrim]
    exact head_trimChars _
  · rw [htrim]
    exact last_trimChars _

/-! ### The end of a text -/

/-- Whether a text ends in a blank. -/
def endsBlank (s : String) : Bool :=
  s.toList.getLast?.any isBlank

/-- A trimmed text does not end in a blank. -/
theorem endsBlank_trim (s : String) : endsBlank (trim s) = false := by
  rw [endsBlank, trim, String.toList_ofList]
  exact last_trimChars _

/-- Nothing is cut exactly if the text does not end in a blank. -/
theorem trimEnd_eq_self_iff {s : String} : trimEnd s = s ↔ endsBlank s = false := by
  constructor
  · intro h
    rw [← h, endsBlank, trimEnd, String.toList_ofList]
    exact last_trimEndChars _
  · intro h
    rw [trimEnd, trimEndChars, dropWhile_of_head, List.reverse_reverse, String.ofList_toList]
    rw [List.head?_reverse]
    exact h

/-- A text ends as its last part does. -/
theorem endsBlank_append (s : String) {t : String} (h : t ≠ "") :
    endsBlank (s ++ t) = endsBlank t := by
  have hne : t.toList ≠ [] := fun hnil => h (String.toList_eq_nil_iff.mp hnil)
  rw [endsBlank, endsBlank, String.toList_append, List.getLast?_append,
    List.getLast?_eq_some_getLast hne, Option.some_or]

/-- The last part may be missing. -/
theorem endsBlank_append_eq_false {s t : String} (hs : endsBlank s = false)
    (ht : endsBlank t = false) : endsBlank (s ++ t) = false := by
  by_cases h : t = ""
  · rwa [h, String.append_empty]
  · rwa [endsBlank_append s h]

end XPathLocator.Text
