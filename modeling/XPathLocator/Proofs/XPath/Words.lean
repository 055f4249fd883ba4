import Mathlib.Data.List.Infix
import XPathLocator.Proofs.Text.Run
import XPathLocator.Proofs.XPath.Value

/-!
# `XPathLocator.Proofs.XPath.Words`: looking for words in a text

XPath 1.0 cannot ask whether a word is among the words of a text. What it can do is to put one
space between the words, one more at each end, and to look there for the word with a space
on both sides. `occursIn_spaced_iff` says what is found in this way, for any text in the
place of the word: a phrase, which is words with one space between them that follow one another
in the other text (`IsPhrase`). So one word is found exactly if it is one of the words
(`isPhrase_iff_isWord`), but two words are found too.

`textWords` gives the words of a text by recursion. `mem_textWords_iff` says what they are: the
runs of characters that are no white space, each as long as can be (`IsWord`).
-/

set_option autoImplicit false

namespace XPathLocator.XPath

variable {u v w rest s : List Char}

/-! ### Words -/

/-- What can be one word: at least one character, and no white space. -/
structure IsRun (w : List Char) : Prop where
  ne_nil : w ≠ []
  tight : ∀ c ∈ w, isSpace c = false

/-- A word of a text: a run with white space, or an end of the text, on both sides. -/
def IsWord (w s : List Char) : Prop :=
  IsRun w ∧ ∃ before after, s = before ++ w ++ after ∧
    before.getLast?.all isSpace ∧ after.head?.all isSpace

/-- A text that does not start with a word starts with white space, or it is empty. -/
theorem head_any_not_isSpace : rest.head?.any (!isSpace ·) = false ↔ rest.head?.all isSpace := by
  cases rest <;> simp

/-- A text without white space is read whole, up to white space. -/
theorem tight_append (hu : ∀ c ∈ u, isSpace c = false) (hrest : rest.head?.all isSpace) :
    (u ++ rest).takeWhile (!isSpace ·) = u ∧ (u ++ rest).dropWhile (!isSpace ·) = rest :=
  Text.run_append (fun c hc => by simp [hu c hc]) (head_any_not_isSpace.mpr hrest)

/-- No text without white space ends in white space, unless it is empty. -/
theorem eq_nil_of_tight (hu : ∀ c ∈ u, isSpace c = false) (hlast : u.getLast?.all isSpace) :
    u = [] := by
  by_contra hne
  rw [List.getLast?_eq_some_getLast hne, Option.all_some, hu _ (List.getLast_mem hne)] at hlast
  cases hlast

/-- White space in front changes no word. -/
theorem isWord_space {c : Char} (hc : isSpace c) : IsWord w (c :: s) ↔ IsWord w s := by
  constructor
  · rintro ⟨hw, before, after, heq, hbefore, hafter⟩
    refine ⟨hw, ?_⟩
    cases before with
    | nil =>
        -- The word would start with white space.
        obtain ⟨d, r, rfl⟩ := List.exists_cons_of_ne_nil hw.ne_nil
        cases heq
        rw [hw.tight c List.mem_cons_self] at hc
        cases hc
    | cons d before =>
        cases heq
        refine ⟨before, after, rfl, ?_, hafter⟩
        cases before with
        | nil => rfl
        | cons a before => rwa [List.getLast?_cons_cons] at hbefore
  · rintro ⟨hw, before, after, rfl, hbefore, hafter⟩
    refine ⟨hw, c :: before, after, rfl, ?_, hafter⟩
    cases before with
    | nil => simpa using hc
    | cons a before => rwa [List.getLast?_cons_cons]

/-- The words of a text that starts with a run, up to white space, are the run and those
behind it. -/
theorem isWord_append (hu : IsRun u) (hrest : rest.head?.all isSpace) :
    IsWord w (u ++ rest) ↔ w = u ∨ IsWord w rest := by
  constructor
  · rintro ⟨hw, before, after, heq, hbefore, hafter⟩
    rw [List.append_assoc] at heq
    rcases List.append_eq_append_iff.mp heq with ⟨between, rfl, rfl⟩ | ⟨part, rfl, htail⟩
    · -- The word starts behind the run, and then there is something between.
      refine .inr ⟨hw, between, after, by rw [List.append_assoc], ?_, hafter⟩
      cases hbetween : between.getLast? with
      | none => rfl
      | some c =>
          rw [List.getLast?_append, hbetween] at hbefore
          exact hbefore
    · -- The word starts within the run, and this is at its start.
      have hnil : before = [] :=
        eq_nil_of_tight (fun c hc => hu.tight c (List.mem_append_left _ hc)) hbefore
      subst hnil
      rw [List.nil_append] at hu ⊢
      refine .inl ?_
      rw [← (tight_append hw.tight hafter).1, htail, (tight_append hu.tight hrest).1]
  · rintro (rfl | ⟨hw, before, after, rfl, hbefore, hafter⟩)
    · exact ⟨hu, [], rest, by simp, rfl, hrest⟩
    · refine ⟨hw, u ++ before, after, by simp, ?_, hafter⟩
      -- Where nothing is before the word, the rest would start with it and not with white space.
      cases before with
      | nil =>
          obtain ⟨c, r, rfl⟩ := List.exists_cons_of_ne_nil hw.ne_nil
          have hc : isSpace c := by simpa using hrest
          rw [hw.tight c List.mem_cons_self] at hc
          cases hc
      | cons a before =>
          rw [List.getLast?_append, List.getLast?_eq_some_getLast (List.cons_ne_nil a before)]
          rwa [List.getLast?_eq_some_getLast (List.cons_ne_nil a before)] at hbefore

/-- **The words of a text are its runs** between white space. -/
theorem mem_textWords_iff : w ∈ textWords s ↔ IsWord w s := by
  fun_induction textWords s with
  | case1 =>
      refine ⟨fun h => (List.not_mem_nil h).elim, ?_⟩
      rintro ⟨hw, before, after, heq, _, _⟩
      simp [hw.ne_nil] at heq
  | case2 c r hc ih => rw [isWord_space hc, ih]
  | case3 c r hc ih =>
      have hrun : IsRun (c :: r.takeWhile (!isSpace ·)) := by
        refine ⟨List.cons_ne_nil _ _, fun d hd => ?_⟩
        rcases List.mem_cons.mp hd with rfl | hd
        · simpa using hc
        · simpa using List.mem_takeWhile_imp hd
      have hsplit := isWord_append (w := w) hrun (head_any_not_isSpace.mp (Text.head_dropWhile _ r))
      rw [List.cons_append, List.takeWhile_append_dropWhile] at hsplit
      rw [List.mem_cons, ih, hsplit]

/-- The words of a text are runs of characters. -/
theorem isRun_of_mem_textWords (h : w ∈ textWords s) : IsRun w :=
  (mem_textWords_iff.mp h).1

/-- A run in front of white space is the first word. -/
theorem textWords_append (hu : IsRun u) (hrest : rest.head?.all isSpace) :
    textWords (u ++ rest) = u :: textWords rest := by
  obtain ⟨hne, htight⟩ := hu
  cases u with
  | nil => exact absurd rfl hne
  | cons c r =>
      have hc : ¬ isSpace c = true := by simp [htight c List.mem_cons_self]
      have hr : ∀ d ∈ r, isSpace d = false := fun d hd => htight d (List.mem_cons_of_mem _ hd)
      obtain ⟨htake, hdrop⟩ := tight_append hr hrest
      rw [List.cons_append, textWords, if_neg hc, htake, hdrop]

/-- A run by itself is one word. -/
theorem textWords_run (hu : IsRun u) : textWords u = [u] := by
  have happend : textWords (u ++ []) = u :: textWords [] := textWords_append hu rfl
  rwa [List.append_nil, textWords] at happend

/-! ### Words with spaces between them -/

/-- Words with a space behind each of them. -/
def spaced (ws : List (List Char)) : List Char :=
  ws.flatMap (· ++ [' '])

/-- Without words there is nothing to put spaces behind. -/
@[simp]
theorem spaced_nil : spaced [] = [] :=
  rfl

/-- The first word has a space behind it, and so have the others. -/
@[simp]
theorem spaced_cons (w : List Char) (ws : List (List Char)) :
    spaced (w :: ws) = w ++ ' ' :: spaced ws := by
  simp [spaced]

/-- Words with spaces between them, and one more at the end, have a space behind each. -/
theorem intercalate_append_space {ws : List (List Char)} (h : ws ≠ []) :
    [' '].intercalate ws ++ [' '] = spaced ws := by
  induction ws with
  | nil => exact absurd rfl h
  | cons w ws ih =>
      cases ws with
      | nil => simp
      | cons w' ws => simp [List.append_assoc, ih]

/-- One space between words keeps them apart. -/
theorem textWords_intercalate {ws : List (List Char)} (h : ∀ w ∈ ws, IsRun w) :
    textWords ([' '].intercalate ws) = ws := by
  induction ws with
  | nil => simp [textWords]
  | cons w ws ih =>
      have hw := h w List.mem_cons_self
      cases ws with
      | nil => simpa using textWords_run hw
      | cons w' ws =>
          have hspace : isSpace ' ' := by decide
          rw [List.intercalate_cons_cons, List.append_assoc, textWords_append hw rfl,
            List.singleton_append, textWords, if_pos hspace,
            ih fun u hu => h u (List.mem_cons_of_mem _ hu)]

/-- `normalize-space` puts one space between the words of a text. -/
theorem toList_normalizeSpace (s : String) :
    (normalizeSpace s).toList = [' '].intercalate (textWords s.toList) := by
  simp [normalizeSpace, Function.comp_def]

/-- A text in normal form is its words with one space between them. -/
theorem normalizeSpace_eq_iff {s : String} :
    normalizeSpace s = s ↔ s.toList = [' '].intercalate (textWords s.toList) := by
  rw [← String.toList_inj, toList_normalizeSpace, eq_comm]

/-! ### Looking for words -/

/-- A text occurs in another one exactly if it is a part of its characters. -/
theorem occursIn_iff (part s : String) : occursIn part s ↔ part.toList <:+: s.toList := by
  simp only [occursIn, List.any_eq_true, List.mem_tails, List.isPrefixOf_iff_prefix]
  rw [List.infix_iff_prefix_suffix]
  constructor
  · rintro ⟨t, hsuffix, hprefix⟩
    exact ⟨t, hprefix, hsuffix⟩
  · rintro ⟨t, hprefix, hsuffix⟩
    exact ⟨t, hsuffix, hprefix⟩

/-- Nothing that starts with a character outside a text starts within the text. -/
theorem cons_infix_append_iff {c : Char} (hc : c ∉ w) :
    c :: v <:+: w ++ rest ↔ c :: v <:+: rest := by
  induction w with
  | nil => rfl
  | cons d w ih =>
      have hne : c ≠ d := List.ne_of_not_mem_cons hc
      rw [List.cons_append, List.infix_cons_iff, List.cons_prefix_cons,
        ih (List.not_mem_of_not_mem_cons hc)]
      simp [hne]

/-- What ends in a space at the start of spaced words is some words from the first one on. -/
theorem prefix_spaced_iff {ws : List (List Char)} (h : ∀ w ∈ ws, ' ' ∉ w) :
    v ++ [' '] <+: spaced ws ↔ ∃ vs, vs <+: ws ∧ v ++ [' '] = spaced vs := by
  constructor
  · intro hprefix
    induction ws generalizing v with
    | nil => simp at hprefix
    | cons w ws ih =>
        obtain ⟨more, heq⟩ := hprefix
        rw [spaced_cons, List.append_assoc] at heq
        rcases List.append_eq_append_iff.mp heq with ⟨r, hw, hr⟩ | ⟨r, rfl, hr⟩
        · -- The text is no longer than the first word, which has no space to end it.
          cases r with
          | nil =>
              rw [List.append_nil] at hw
              subst hw
              exact ⟨[w], List.prefix_append [w] ws, by simp⟩
          | cons c r =>
              obtain ⟨rfl, _⟩ := List.cons_eq_cons.mp hr
              exact absurd (by simp [hw]) (h w List.mem_cons_self)
        · cases r with
          | nil => exact ⟨[w], List.prefix_append [w] ws, by simp⟩
          | cons c r =>
              obtain ⟨rfl, hmore⟩ := List.cons_eq_cons.mp hr
              obtain ⟨vs, hvs, heq⟩ := ih (v := r) (fun u hu => h u (List.mem_cons_of_mem _ hu))
                ⟨more, (List.append_assoc r [' '] more).trans hmore.symm⟩
              exact ⟨w :: vs, List.cons_prefix_cons.mpr ⟨rfl, hvs⟩, by simp [← heq]⟩
  · rintro ⟨vs, ⟨more, rfl⟩, heq⟩
    exact ⟨spaced more, by rw [heq, spaced, spaced, spaced, List.flatMap_append]⟩

/-- What stands between two spaces in spaced words is some words that follow one another. -/
theorem infix_spaced_iff {ws : List (List Char)} (h : ∀ w ∈ ws, ' ' ∉ w) :
    ' ' :: (v ++ [' ']) <:+: ' ' :: spaced ws ↔ ∃ vs, vs <:+: ws ∧ v ++ [' '] = spaced vs := by
  induction ws with
  | nil => simp [List.infix_cons_iff]
  | cons w ws ih =>
      have hmore : ∀ u ∈ ws, ' ' ∉ u := fun u hu => h u (List.mem_cons_of_mem _ hu)
      rw [List.infix_cons_iff, List.cons_prefix_cons, prefix_spaced_iff h, spaced_cons,
        cons_infix_append_iff (h w List.mem_cons_self), ih hmore]
      constructor
      · rintro (⟨_, vs, hvs, heq⟩ | ⟨vs, hvs, heq⟩)
        · exact ⟨vs, hvs.isInfix, heq⟩
        · exact ⟨vs, List.infix_cons hvs, heq⟩
      · rintro ⟨vs, hvs, heq⟩
        rcases List.infix_cons_iff.mp hvs with hvs | hvs
        · exact .inl ⟨rfl, vs, hvs, heq⟩
        · exact .inr ⟨vs, hvs, heq⟩

/-- A text is words with one space between them, and these words follow one another in the other
text. The empty text has no words, and it counts only for another text without words. -/
def IsPhrase (v s : String) : Prop :=
  normalizeSpace v = v ∧ textWords v.toList <:+: textWords s.toList ∧
    (v = "" → textWords s.toList = [])

/-- **What is found between spaces.** A text with a space on both sides is found among spaced words
exactly if these words follow one another there. -/
theorem occursIn_spaced_iff (v s : String) :
    occursIn (" " ++ v ++ " ") (" " ++ normalizeSpace s ++ " ") ↔ IsPhrase v s := by
  have hpart : (" " ++ v ++ " ").toList = ' ' :: (v.toList ++ [' ']) := by simp
  have htext : (" " ++ normalizeSpace s ++ " ").toList =
      ' ' :: ([' '].intercalate (textWords s.toList) ++ [' ']) := by
    simp [toList_normalizeSpace]
  have hwords : ∀ w ∈ textWords s.toList, IsRun w := fun w hw => isRun_of_mem_textWords hw
  have hspace : ∀ w ∈ textWords s.toList, ' ' ∉ w := fun w hw hmem =>
    absurd ((hwords w hw).tight _ hmem) (by decide)
  rw [occursIn_iff, hpart, htext, IsPhrase, normalizeSpace_eq_iff]
  generalize textWords s.toList = ws at hwords hspace
  by_cases hws : ws = []
  · subst hws
    constructor
    · intro hinfix
      -- Two spaces leave no room for anything between them.
      have hnil : v = "" := by
        simpa using hinfix.length_le
      simp [hnil, textWords]
    · rintro ⟨hnormal, hwords, _⟩
      rw [hnormal, List.infix_nil.mp hwords]
  · rw [intercalate_append_space hws, infix_spaced_iff hspace]
    constructor
    · rintro ⟨vs, hvs, heq⟩
      have hne : vs ≠ [] := by
        rintro rfl
        simp at heq
      rw [← intercalate_append_space hne, List.append_left_inj] at heq
      have hruns : ∀ w ∈ vs, IsRun w := fun w hw => hwords w (hvs.subset hw)
      have htextWords := textWords_intercalate hruns
      rw [← heq] at htextWords
      refine ⟨htextWords.symm ▸ heq, htextWords.symm ▸ hvs, ?_⟩
      rintro rfl
      exact absurd htextWords.symm (by simpa [textWords] using hne)
    · rintro ⟨hnormal, hinfix, hempty⟩
      have hne : textWords v.toList ≠ [] := by
        intro hnil
        rw [hnil] at hnormal
        exact hws (hempty (String.toList_eq_nil_iff.mp hnormal))
      exact ⟨_, hinfix, by rw [← intercalate_append_space hne, ← hnormal]⟩

/-- One word alone is a phrase of a text exactly if it is one of its words. -/
theorem isPhrase_iff_isWord {v : String} (hv : IsRun v.toList) (s : String) :
    IsPhrase v s ↔ IsWord v.toList s.toList := by
  have hne : v ≠ "" := fun hempty => hv.ne_nil (String.toList_eq_nil_iff.mpr hempty)
  rw [IsPhrase, normalizeSpace_eq_iff, textWords_run hv, ← mem_textWords_iff,
    List.singleton_infix_iff]
  simp [hne]

end XPathLocator.XPath
