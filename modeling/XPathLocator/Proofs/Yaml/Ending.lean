import XPathLocator.Proofs.Text.Trim
import XPathLocator.Yaml.Printer

/-!
# `XPathLocator.Proofs.Yaml.Ending`: how a YAML document ends

A library writes a text as a scalar in one of four styles. `Style.Writes` says of a scalar no more
than what YAML asks of each style: a plain scalar is the text, quotes enclose what stands in them,
and a literal block has a header, and below it the text with its lines indented. The header has a
hyphen if the text does not end in a line break.

A document whose last value is a text ends in the scalar for it, and in the line break behind that
(`LawfulWriter`). Unless a literal block holds it, that line break means nothing, and a reader can
do without it (`OptionalBreak`). These two are what is relied on of a library.

What matters for trimming a document is whether the last scalar ends in white space. Quotes end in
none. The other two styles end as the text does (`EndsBare`).
-/

set_option autoImplicit false

namespace XPathLocator.Yaml

open Text (endsBlank endsBlank_append isBlank)

/-! ### Scalars -/

/-- Whether each further line of a text is empty or indented, and the first line too if the text
stands at the start of a line. -/
def hangs (atStart : Bool) : List Char → Bool
  | [] => true
  | c :: s => (!atStart || c = ' ' || isBreak c) && hangs (isBreak c) s

/-- The scalar for a text, by its style. -/
inductive Style.Form (text : String) : Style → String → Prop
  | plain (hne : text ≠ "") (hline : text.toList.any isBreak = false) : Form text .plain text
  | single (inner : String) : Form text .single ("'" ++ inner ++ "'")
  | double (inner : String) : Form text .double ("\"" ++ inner ++ "\"")
  | literal (header block : String) (hheader : header ∈ ["-", "", "+", "2-", "2", "2+"])
      (hstrip : text.toList.getLast?.any isBreak = false → header ∈ ["-", "2-"])
      (hne : text ≠ "") (hlast : block.toList.getLast? = text.toList.getLast?) :
      Form text .literal ("|" ++ header ++ "\n" ++ block)

/-- A text is written as a scalar in a style, with its further lines indented. -/
structure Style.Writes (style : Style) (text scalar : String) : Prop where
  form : style.Form text scalar
  hangs : Yaml.hangs false scalar.toList

/-- A text that ends in a blank, in a style that puts nothing behind it. -/
def EndsBare (style : Style) (text : String) : Prop :=
  (style = .plain ∨ style = .literal) ∧ endsBlank text

instance (style : Style) (text : String) : Decidable (EndsBare style text) :=
  inferInstanceAs (Decidable (_ ∧ _))

/-- **A scalar ends in white space** exactly if its text does and stands bare. -/
theorem Style.Writes.endsBlank_iff {style : Style} {text scalar : String}
    (h : style.Writes text scalar) : scalar ≠ "" ∧ (endsBlank scalar ↔ EndsBare style text) := by
  cases h.form with
  | plain hne => exact ⟨hne, by simp [EndsBare]⟩
  | single inner =>
      have hquote : endsBlank "'" = false := by decide
      rw [endsBlank_append _ (by decide), hquote]
      exact ⟨by simp, by simp [EndsBare]⟩
  | double inner =>
      have hquote : endsBlank "\"" = false := by decide
      rw [endsBlank_append _ (by decide), hquote]
      exact ⟨by simp, by simp [EndsBare]⟩
  | literal header block _ _ hne hlast =>
      have hblock : block ≠ "" := by
        rintro rfl
        exact hne (String.toList_eq_nil_iff.mp (List.getLast?_eq_none_iff.mp hlast.symm))
      rw [endsBlank_append _ hblock, endsBlank, hlast]
      exact ⟨by simp, by simp [EndsBare, endsBlank]⟩

/-! ### The last line -/

/-- A line break is white space. -/
theorem isBlank_of_isBreak {c : Char} (h : isBreak c) : isBlank c := by
  simp only [isBreak, Bool.or_eq_true, decide_eq_true_eq] at h
  rcases h with (((rfl | rfl) | rfl) | rfl) | rfl <;> decide

/-- What ends in no white space ends in no line break. -/
theorem any_isBreak_of_endsBlank {text : String} (h : endsBlank text = false) :
    text.toList.getLast?.any isBreak = false := by
  rw [endsBlank] at h
  cases hlast : text.toList.getLast? with
  | none => rfl
  | some c =>
      rw [hlast, Option.any_some] at h
      exact Bool.eq_false_iff.mpr fun hbreak => Bool.eq_false_iff.mp h (isBlank_of_isBreak hbreak)

/-- What ends in no white space gets a line break. -/
theorem closeLine_of_endsBlank {text : String} (h : endsBlank text = false) :
    closeLine text = text ++ "\n" :=
  if_neg (by simp [any_isBreak_of_endsBlank h])

/-- **What is left of a document that is trimmed**, from its last scalar on: the whole scalar,
exactly if the scalar ends in no white space. -/
theorem trimEnd_closeLine (front : String) {scalar : String} (hne : scalar ≠ "") :
    Text.trimEnd (front ++ closeLine scalar) = front ++ scalar ↔ endsBlank scalar = false := by
  constructor
  · intro h
    have hends : endsBlank (front ++ scalar) = false := by
      rw [← h, endsBlank, Text.trimEnd, String.toList_ofList]
      exact Text.last_trimEndChars _
    rwa [endsBlank_append _ hne] at hends
  · intro h
    have hends : (front ++ scalar).toList.getLast?.any isBlank = false := by
      rw [← endsBlank, endsBlank_append _ hne, h]
    have hbreak : Text.AllBlank "\n".toList := by
      rintro c hc
      cases List.mem_singleton.mp hc
      decide
    rw [closeLine_of_endsBlank h, ← String.append_assoc, Text.trimEnd, String.toList_append,
      Text.trimEndChars_append hends hbreak, String.ofList_toList]

/-! ### What is relied on -/

/-- The keys under which the last text of a record can stand. They need no quotes. -/
def lastKeys : List String := ["literal", "xpath"]

/-- What is relied on of a library that writes values, of which `style` tells the style of each
text: a document ends in the scalar for its last text, which in a mapping stands behind its key and
below the other entries. -/
structure LawfulWriter (write : Json → String) (style : String → Style) : Prop where
  text (t : String) : ∃ scalar, (style t).Writes t scalar ∧ write (.string t) = closeLine scalar
  entry {before : List (String × Json)} {key : String} (hne : before ≠ []) (hkey : key ∈ lastKeys)
    (t : String) : ∃ scalar, (style t).Writes t scalar ∧
      write (.object (before ++ [(key, .string t)])) =
        write (.object before) ++ key ++ ": " ++ closeLine scalar

/-- What is relied on of a library that reads values: a document may lack the line break behind its
last scalar, if that is complete without it. Only a literal block can end in a line break. -/
structure OptionalBreak (write : Json → String) (read? : String → Option Json) : Prop where
  text {style : Style} {t scalar : String} (h : style.Writes t scalar)
    (hbreak : scalar.toList.getLast?.any isBreak = false) : read? (scalar ++ "\n") = read? scalar
  entry {before : List (String × Json)} {key : String} (hne : before ≠ []) (hkey : key ∈ lastKeys)
    {style : Style} {t scalar : String} (h : style.Writes t scalar)
    (hbreak : scalar.toList.getLast?.any isBreak = false) :
    read? (write (.object before) ++ key ++ ": " ++ scalar ++ "\n") =
      read? (write (.object before) ++ key ++ ": " ++ scalar)

end XPathLocator.Yaml
