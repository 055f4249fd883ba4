import XPathLocator.Proofs.Css.Attribute
import XPathLocator.Proofs.Css.Compound
import XPathLocator.Proofs.Css.Identifier
import XPathLocator.Proofs.Locator.Rule

/-!
# `XPathLocator.Proofs.Locator.Word`: elements by a word of an attribute

The locator `className`, a class in a selector and `[name~=value]` all ask for a whole word of an
attribute. They look for the value with a space on both sides among the words of the
attribute, which also stand with spaces between them.

If the value can be a word, this finds it exactly if it is one of the words
(`word_conditions`). Nothing is done about other values, apart from an empty one in a selector.
So a value of several words is found where they follow one another, and an empty
value of a locator is found in an attribute without words (`selects_phrase`).
-/

set_option autoImplicit false

namespace XPathLocator

open XPath

namespace XPath.Document

/-- The element at a place has an attribute `name`, and `v` is one of the words in its value. -/
def HasWord (d : Document) (name v : String) (p : Path) : Prop :=
  ∃ actual, d.attributeValue? p name = some actual ∧ IsWord v.toList actual.toList

/-- The element at a place has an attribute `name`, and `v` is a phrase of its value. -/
def HasPhrase (d : Document) (name v : String) (p : Path) : Prop :=
  ∃ actual, d.attributeValue? p name = some actual ∧ IsPhrase v actual

/-- A phrase of one word is found exactly where the word is. -/
theorem hasPhrase_iff_hasWord {d : Document} {name v : String} (hv : IsRun v.toList) (p : Path) :
    d.HasPhrase name v p ↔ d.HasWord name v p :=
  exists_congr fun actual => and_congr_right fun _ => isPhrase_iff_isWord hv actual

end XPath.Document

variable {d : Document} {v : String}

/-! ### Selectors -/

namespace Css

/-- The condition that a text is found among the spaced words of an attribute. -/
def foundTree (attr : Tree) (text : String) : Tree :=
  .binary .and attr (.apply "contains"
    [.apply "concat" [.literal " ", .apply "normalize-space" [attr], .literal " "],
     Literal.tree text])

section Conditions

variable {path : Tree} {ns : Node → List Node} {n : Node} {value : Option String}

/-- The search for a padded text asks for no position. -/
theorem steady_foundTree (h : Means d path fun n => .nodes (ns n)) (text : String) :
    Steady d (foundTree path text) :=
  (steady_nodes h).and (h.spacedWords.contains (Means.text text)).steady

/-- A value with spaces around it is found where it is a phrase. -/
theorem holdsAt_foundTree (h : Means d path fun n => .nodes (ns n))
    (hn : Stands d (ns n) value) (v : String) :
    holdsAt d (foundTree path (" " ++ v ++ " ")) n ↔
      ∃ actual, value = some actual ∧ IsPhrase v actual := by
  have hcontains := h.spacedWords.contains (Means.text (" " ++ v ++ " "))
  refine holdsAt_and_path h hn hcontains.steady fun actual hactual => ?_
  have htext : (Value.nodes (ns n)).toText d = actual := by
    rw [hactual] at hn
    exact hn.toText_eq
  rw [hcontains.holdsAt_eq, htext, ← occursIn_spaced_iff]
  rfl

/-- Selectors ask for no empty word. -/
theorem holdsAt_includesTree (h : Means d path fun n => .nodes (ns n))
    (hn : Stands d (ns n) value) (v : String) :
    holdsAt d (includesTree path v) n ↔
      v ≠ "" ∧ ∃ actual, value = some actual ∧ IsPhrase v actual := by
  rw [includesTree]
  split
  -- The guard puts the number 0 there, which is no position.
  · next hempty => simp [holdsAt_never, String.isEmpty_iff.mp hempty]
  · next hempty =>
    have hne : v ≠ "" := fun h => hempty (String.isEmpty_iff.mpr h)
    exact (holdsAt_foundTree h hn v).trans (and_iff_right hne).symm

end Conditions

/-- The attribute that a path asks for, where a compiler changes no names. -/
theorem exists_means_attrTree (name : String) (h : isPlainName name) :
    ∃ ns : Node → List Node, Means d (attrTree name) (fun n => .nodes (ns n)) ∧
      ∀ p m, m ∈ ns (.tree p) ↔ m ∈ d.nodes ∧ ∃ i, m = .attr p i ∧ d.nameOf m = name := by
  obtain ⟨ns, hns, hmem⟩ := exists_means_attrPath (d := d) ⟨false⟩ name
  have hpath : Compiler.attrPath ⟨false⟩ name = attrTree name :=
    attrPath_of_isPlainName rfl h
  exact ⟨ns, hpath ▸ hns, hmem⟩

/-- The condition for a word of an attribute decides where the word is a phrase of its value. -/
theorem decides_includesWord (hd : d.DistinctAttributes) {attr name : String} {path : Tree}
    {ns : Node → List Node} (hattr : Written (.expr 8) attr path)
    (h : Means d path fun n => .nodes (ns n))
    (hmem : ∀ p m, m ∈ ns (.tree p) ↔ m ∈ d.nodes ∧ ∃ i, m = .attr p i ∧ d.nameOf m = name)
    (v : String) : Decides d (includesWord attr v) fun p => v ≠ "" ∧ d.HasPhrase name v p :=
  (steady_includesTree h v).decides (includesWord_written hattr v).parses fun p =>
    holdsAt_includesTree h (stands_of_mem hd (hmem p)) v

/-- The condition for a class of a selector decides whether its phrase is in the attribute, if the
class is not empty. -/
theorem decides_ofClass (hd : d.DistinctAttributes) (compiler : Compiler) (element v : String) :
    ∃ text, compiler.condition element (.ofClass v) = .ok text ∧
      Decides d text fun p => v ≠ "" ∧ d.HasPhrase "class" v p := by
  obtain ⟨ns, hns, hmem⟩ := exists_means_attrTree (d := d) "class" (by decide)
  exact ⟨_, rfl, decides_includesWord hd (at_written "class" (by decide)) hns hmem v⟩

/-- The condition for a word of an attribute decides whether its phrase is in the attribute, if the
word is not empty. -/
theorem decides_includes (hd : d.DistinctAttributes) (compiler : Compiler)
    (element name v : String) :
    ∃ text, compiler.condition element (.attribute name (some (.includes, v))) = .ok text ∧
      Decides d text fun p => v ≠ "" ∧ d.HasPhrase (compiler.normalName name) v p := by
  obtain ⟨ns, hns, hmem⟩ := exists_means_attrPath (d := d) compiler name
  exact ⟨_, rfl, decides_includesWord hd (attr_written compiler name).ofSteps hns hmem v⟩

/-- A selector of one class selects the elements with its phrase. -/
theorem selects_ofClass (hd : d.DistinctAttributes) (compiler : Compiler) {e : String}
    (h : tokenize e = .ok [⟨.ident v, 0⟩]) :
    ∃ x, compiler.compile ("." ++ e) = .ok x ∧
      SelectsElements d x fun p => v ≠ "" ∧ d.HasPhrase "class" v p := by
  obtain ⟨step, hstep⟩ : ∃ step, compiler.compound ⟨none, [.ofClass v]⟩ = .ok step := ⟨_, rfl⟩
  obtain ⟨ns, hns, hmem⟩ := exists_means_attrTree (d := d) "class" (by decide)
  refine ⟨Compiler.defaultAxis ++ step.render, ?_, selects_simple hstep fun p =>
    holdsAt_includesTree hns (stands_of_mem hd (hmem p)) v⟩
  rw [compile_of_parse compiler (parse_class h), hstep]
  rfl

/-- A selector of one attribute that includes a word selects the elements with its phrase. -/
theorem selects_includes (hd : d.DistinctAttributes) (compiler : Compiler) (name v : String) :
    ∃ e, compiler.compound ⟨none, [.attribute name (some (.includes, v))]⟩ = .ok e ∧
      SelectsElements d (Compiler.defaultAxis ++ e.render)
        fun p => v ≠ "" ∧ d.HasPhrase (compiler.normalName name) v p := by
  obtain ⟨step, hstep⟩ : ∃ step,
      compiler.compound ⟨none, [.attribute name (some (.includes, v))]⟩ = .ok step := ⟨_, rfl⟩
  obtain ⟨ns, hns, hmem⟩ := exists_means_attrPath (d := d) compiler name
  exact ⟨step, hstep, selects_simple hstep fun p =>
    holdsAt_includesTree hns (stands_of_mem hd (hmem p)) v⟩

end Css

namespace Locator

open Css (Compiler tokenize)
open Text (isBlank)

/-! ### Conditions -/

/-- The condition for the strategy `className` decides whether the phrase of the trimmed value is in
the attribute. -/
theorem decides_className (hd : d.DistinctAttributes) (t : Translator) (v : String) :
    ∃ text, t.toXPath ⟨.className, v⟩ = .ok (Rule.axis ++ "*[" ++ text ++ "]") ∧
      Decides d text (d.HasPhrase "class" (Text.trim v)) := by
  obtain ⟨ns, hns, hmem⟩ := Css.exists_means_attrTree (d := d) "class" (by decide)
  have hwritten := Css.inSpacedWords_written (Css.at_written "class" (by decide))
    (" " ++ Text.trim v ++ " ")
  refine ⟨_, ?_, (Css.steady_foundTree hns _).decides hwritten.parses fun p =>
    Css.holdsAt_foundTree hns (stands_of_mem hd (hmem p)) _⟩
  show Except.ok (Rule.className (Text.trim v)) = _
  simp [Rule.className, ← String.toList_inj]

/-- **One word is found whole.** A value that can be a word is found exactly in the attributes that
have it among their words, by a class selector, by a selector for words of an attribute, and
by a locator, which trims the value. -/
theorem word_conditions (hd : d.DistinctAttributes) (hne : v ≠ "")
    (hspace : ∀ c ∈ v.toList, isSpace c = false) :
    (∀ (compiler : Compiler) (element : String), ∃ text,
      compiler.condition element (.ofClass v) = .ok text ∧
        Decides d text (d.HasWord "class" v)) ∧
    (∀ (compiler : Compiler) (element name : String), ∃ text,
      compiler.condition element (.attribute name (some (.includes, v))) = .ok text ∧
        Decides d text (d.HasWord (compiler.normalName name) v)) ∧
    (v.toList.head?.any isBlank = false → v.toList.getLast?.any isBlank = false →
      ∀ t : Translator, ∃ text,
        t.toXPath ⟨.className, v⟩ = .ok (Rule.axis ++ "*[" ++ text ++ "]") ∧
          Decides d text (d.HasWord "class" v)) := by
  have hrun : IsRun v.toList := ⟨fun h => hne (String.toList_eq_nil_iff.mp h), hspace⟩
  have hword : ∀ name p, (v ≠ "" ∧ d.HasPhrase name v p) ↔ d.HasWord name v p := fun name p =>
    (and_iff_right hne).trans (Document.hasPhrase_iff_hasWord hrun p)
  refine ⟨fun compiler element => ?_, fun compiler element name => ?_, fun hhead hlast t => ?_⟩
  · obtain ⟨text, htext, hdecides⟩ := Css.decides_ofClass hd compiler element v
    exact ⟨text, htext, hdecides.congr (hword _)⟩
  · obtain ⟨text, htext, hdecides⟩ := Css.decides_includes hd compiler element name v
    exact ⟨text, htext, hdecides.congr (hword _)⟩
  · obtain ⟨text, htext, hdecides⟩ := decides_className hd t v
    -- White space that is none in XML could be part of the word, and it is cut at the ends too.
    rw [Text.trim_eq_self hhead hlast] at hdecides
    exact ⟨text, htext, hdecides.congr fun p => Document.hasPhrase_iff_hasWord hrun p⟩

/-- The last of two words, behind a tab and before a space. -/
theorem word_conditions_last :
    let d : Document := ⟨[.element "a" [("class", "x\tné ")] []]⟩
    let t : Translator := ⟨Compiler.compile ⟨true⟩, .reject⟩
    d.DistinctAttributes ∧ (∀ c ∈ "né".toList, isSpace c = false) ∧
      d.HasWord "class" "né" [0] ∧ ¬ d.HasWord "class" "n" [0] ∧
      (∃ text, Compiler.condition ⟨true⟩ "*" (.ofClass "né") = .ok text ∧
        Decides d text (d.HasWord "class" "né")) ∧
      (∃ text,
        Compiler.condition ⟨true⟩ "a" (.attribute "CLASS" (some (.includes, "né"))) = .ok text ∧
          Decides d text (d.HasWord "class" "né")) ∧
      ∃ text, t.toXPath ⟨.className, "né"⟩ = .ok (Rule.axis ++ "*[" ++ text ++ "]") ∧
        Decides d text (d.HasWord "class" "né") := by
  intro d t
  have hd : d.DistinctAttributes := Document.distinctAttributes_of_allDistinct (by decide)
  have hspace : ∀ c ∈ "né".toList, isSpace c = false := by simp [isSpace]
  have hvalue : d.attributeValue? [0] "class" = some "x\tné " := by decide +kernel
  have hwords : textWords "x\tné ".toList = ["x".toList, "né".toList] := by decide +kernel
  have hlower : Compiler.normalName ⟨true⟩ "CLASS" = "class" := by decide +kernel
  obtain ⟨hclass, hincludes, hlocator⟩ := word_conditions hd (by decide) hspace
  refine ⟨hd, hspace, ⟨_, hvalue, mem_textWords_iff.mp ?_⟩, ?_,
    hclass ⟨true⟩ "*", ?_, hlocator (by decide) (by decide) t⟩
  · rw [hwords]
    exact List.mem_cons_of_mem _ List.mem_cons_self
  · rintro ⟨actual, hactual, hword⟩
    cases hvalue.symm.trans hactual
    rw [← mem_textWords_iff, hwords] at hword
    exact absurd hword (by decide)
  · have hname := hincludes ⟨true⟩ "a" "CLASS"
    rwa [hlower] at hname

/-! ### Selected elements -/

/-- The strategy `className` selects the elements with the phrase of the trimmed value. -/
theorem selects_className (hd : d.DistinctAttributes) (t : Translator) (v : String) :
    ∃ x, t.toXPath ⟨.className, v⟩ = .ok x ∧
      SelectsElements d x (d.HasPhrase "class" (Text.trim v)) := by
  obtain ⟨ns, hns, hmem⟩ := Css.exists_means_attrTree (d := d) "class" (by decide)
  exact ⟨_, rfl, Css.selectsElements_condition (Css.steady_foundTree hns _)
    (Rule.className_written _).parses fun p =>
      Css.holdsAt_foundTree hns (stands_of_mem hd (hmem p)) _⟩

/-- **A value of several words is found as a phrase.** A locator, a class selector and a selector
for words select the elements with an attribute where the words of the value follow one
another. No element is selected for a value whose words are not set apart by one space each, or
that has white space at an end; nor by a selector for an empty value. A locator for an empty
value selects the elements that have the attribute without any words. -/
theorem selects_phrase (hd : d.DistinctAttributes) (v : String) :
    (∀ t : Translator, ∃ x, t.toXPath ⟨.className, v⟩ = .ok x ∧
      SelectsElements d x (d.HasPhrase "class" (Text.trim v))) ∧
    (∀ (compiler : Compiler) (e : String), tokenize e = .ok [⟨.ident v, 0⟩] →
      ∃ x, compiler.compile ("." ++ e) = .ok x ∧
        SelectsElements d x fun p => v ≠ "" ∧ d.HasPhrase "class" v p) ∧
    (∀ (compiler : Compiler) (name : String), ∃ e,
      compiler.compound ⟨none, [.attribute name (some (.includes, v))]⟩ = .ok e ∧
        SelectsElements d (Compiler.defaultAxis ++ e.render)
          fun p => v ≠ "" ∧ d.HasPhrase (compiler.normalName name) v p) ∧
    ∀ name p, normalizeSpace v ≠ v → ¬ d.HasPhrase name v p := by
  refine ⟨fun t => selects_className hd t v, fun compiler e he => Css.selects_ofClass hd compiler he,
    fun compiler name => Css.selects_includes hd compiler name v, fun name p hne => ?_⟩
  -- What stands in the attribute does not matter for a value that is no phrase of anything.
  rintro ⟨_, _, hnormal, _⟩
  exact hne hnormal

/-- Two of three words, and the two with more space between them. -/
theorem selects_phrase_two :
    let d : Document := ⟨[.element "a" [("class", " a\tb  c")] []]⟩
    let t : Translator := ⟨Compiler.compile ⟨true⟩, .reject⟩
    d.DistinctAttributes ∧
      (∃ x ns, t.toXPath ⟨.className, " b c"⟩ = .ok x ∧ Selects d x ns ∧ .tree [0] ∈ ns) ∧
      ∃ x ns, Compiler.compile ⟨true⟩ ".b\\ \\ c" = .ok x ∧ Selects d x ns ∧ .tree [0] ∉ ns := by
  intro d t
  have hd : d.DistinctAttributes := Document.distinctAttributes_of_allDistinct (by decide)
  have hvalue : d.attributeValue? [0] "class" = some " a\tb  c" := by decide +kernel
  have helement : d.IsElement [0] := ⟨"a", [("class", " a\tb  c")], [], rfl⟩
  have hspelling : tokenize "b\\ \\ c" = .ok [⟨.ident "b  c", 0⟩] := by decide +kernel
  have htrim : Text.trim " b c" = "b c" := by decide +kernel
  obtain ⟨hlocator, _, _, _⟩ := selects_phrase hd " b c"
  obtain ⟨_, hclass, _, hnever⟩ := selects_phrase hd "b  c"
  obtain ⟨x, hx, ns, hns, hmem⟩ := hlocator t
  obtain ⟨y, hy, ms, hms, hmem'⟩ := hclass ⟨true⟩ _ hspelling
  refine ⟨hd, ⟨x, ns, hx, hns, (hmem _).mpr ⟨[0], rfl, helement, _, hvalue, ?_⟩⟩,
    y, ms, hy, hms, ?_⟩
  · have hwords : textWords "b c".toList = [['b'], ['c']] := by decide +kernel
    have hmore : textWords " a\tb  c".toList = [['a'], ['b'], ['c']] := by decide +kernel
    rw [htrim, IsPhrase, hwords, hmore]
    exact ⟨by decide +kernel, ⟨[['a']], [], rfl⟩, by simp⟩
  · -- Two spaces between the words are not found anywhere, as an escape does not shorten them.
    intro h
    obtain ⟨p, _, _, _, hphrase⟩ := (hmem' _).mp h
    have hnormal : normalizeSpace "b  c" = "b c" := by decide +kernel
    exact hnever "class" p (by rw [hnormal]; decide) hphrase

/-- Two words are no word, and neither is an empty text. Yet elements are selected for them. -/
theorem selects_no_word :
    let d : Document := ⟨[.element "p" [("class", "a b")] [], .element "q" [("class", "")] []]⟩
    let t : Translator := ⟨Compiler.compile ⟨true⟩, .reject⟩
    (∀ p, ¬ d.HasWord "class" "a b" p ∧ ¬ d.HasWord "class" "" p) ∧
      (∃ x ns, t.toXPath ⟨.className, ""⟩ = .ok x ∧ Selects d x ns ∧ .tree [1] ∈ ns) ∧
      (∃ x ns, t.toXPath ⟨.className, "a b"⟩ = .ok x ∧ Selects d x ns ∧ .tree [0] ∈ ns) ∧
      (∃ x ns, Compiler.compile ⟨true⟩ ".a\\ b" = .ok x ∧ Selects d x ns ∧ .tree [0] ∈ ns) ∧
      ∃ e ns,
        Compiler.compound ⟨true⟩ ⟨none, [.attribute "class" (some (.includes, "a b"))]⟩ = .ok e ∧
        Selects d (Compiler.defaultAxis ++ e.render) ns ∧ .tree [0] ∈ ns := by
  intro d t
  have hd : d.DistinctAttributes := Document.distinctAttributes_of_allDistinct (by decide)
  have htwo : d.IsElement [0] ∧ d.HasPhrase "class" "a b" [0] :=
    ⟨⟨"p", [("class", "a b")], [], rfl⟩, "a b", by decide +kernel, by decide +kernel,
      List.infix_refl _, by simp⟩
  have hempty : d.IsElement [1] ∧ d.HasPhrase "class" "" [1] :=
    ⟨⟨"q", [("class", "")], [], rfl⟩, "", by decide +kernel, by decide +kernel,
      List.infix_refl _, fun _ => by decide +kernel⟩
  have hspelling : tokenize "a\\ b" = .ok [⟨.ident "a b", 0⟩] := by decide +kernel
  have htrim : Text.trim "a b" = "a b" ∧ Text.trim "" = "" := by decide +kernel
  have hlower : Compiler.normalName ⟨true⟩ "class" = "class" := by decide +kernel
  obtain ⟨x, hx, ns, hns, hmem⟩ := selects_className hd t ""
  obtain ⟨y, hy, ms, hms, hmem'⟩ := selects_className hd t "a b"
  obtain ⟨z, hz, ls, hls, hclass⟩ := Css.selects_ofClass hd ⟨true⟩ hspelling
  obtain ⟨e, he, ks, hks, hincludes⟩ := Css.selects_includes hd ⟨true⟩ "class" "a b"
  rw [htrim.2] at hmem
  rw [htrim.1] at hmem'
  rw [hlower] at hincludes
  refine ⟨fun p => ⟨?_, ?_⟩, ⟨x, ns, hx, hns, (hmem _).mpr ⟨[1], rfl, hempty⟩⟩,
    ⟨y, ms, hy, hms, (hmem' _).mpr ⟨[0], rfl, htwo⟩⟩,
    ⟨z, ls, hz, hls, (hclass _).mpr ⟨[0], rfl, htwo.1, by decide, htwo.2⟩⟩,
    e, ks, he, hks, (hincludes _).mpr ⟨[0], rfl, htwo.1, by decide, htwo.2⟩⟩
  -- A run has no space in it, and at least one character.
  · rintro ⟨_, _, hrun, _⟩
    exact absurd (hrun.tight ' ' (by decide)) (by decide)
  · rintro ⟨_, _, hrun, _⟩
    exact hrun.ne_nil rfl

end Locator

end XPathLocator
