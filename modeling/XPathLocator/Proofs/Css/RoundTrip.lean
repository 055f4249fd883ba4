import XPathLocator.Proofs.Css.Margin

/-!
# `XPathLocator.Proofs.Css.RoundTrip`: selectors as text, and parsed again

`Group.print` writes a selector: it chooses the tokens (`Group.kinds`), one space around
each comma and combinator, and spells them. Its inverse is `parse` on the selectors of
the right shape, and the parser gives no other ones:

* a group has a selector,
* a compound has an element name or a simple selector, in the argument of `:not` too,
* and no name is empty.

Both directions go through the grammar. What is printed has a derivation
(`groupKinds_derives`) and legible tokens (`groupKinds_legible`), so the parser reads it
back. What is parsed has a derivation over tokens without empty names, and the shape is
read off it (`shaped_of_groupKinds`).
-/

set_option autoImplicit false

namespace XPathLocator.Css

open Token (Kind)

/-! ### The tokens of a selector -/

/-- The tokens of an element name. -/
def elementKinds : Option String → List Kind
  | none => []
  | some name => if name = "*" then [.delim '*'] else [.ident name]

mutual

/-- The tokens of a simple selector. -/
def Simple.kinds : Simple → List Kind
  | .id name => [.hash name]
  | .ofClass name => [.delim '.', .ident name]
  | .attribute name none => [.delim '[', .ident name, .delim ']']
  | .attribute name (some (op, value)) =>
    .delim '[' :: .ident name :: (op.text.toList.map .delim ++ [.string value, .delim ']'])
  | .pseudo p => [.delim ':', .ident p.name]
  | .contains text =>
    [.delim ':', .ident "contains", .delim '(', .string text, .delim ')']
  | .not element simples =>
    .delim ':' :: .ident "not" :: .delim '(' ::
      (elementKinds element ++ (simplesKinds simples ++ [.delim ')']))

/-- The tokens of simple selectors, one after the other. -/
def simplesKinds : List Simple → List Kind
  | [] => []
  | s :: ss => s.kinds ++ simplesKinds ss

end

/-- The tokens of a compound. -/
def Compound.kinds (c : Compound) : List Kind :=
  elementKinds c.element ++ simplesKinds c.simples

/-- The tokens of a combinator, with a space on both sides; the descendant combinator is a
space itself. -/
def Combinator.kinds : Combinator → List Kind
  | .descendant => [.blank]
  | .child => [.blank, .delim '>', .blank]
  | .nextSibling => [.blank, .delim '+', .blank]
  | .laterSibling => [.blank, .delim '~', .blank]

/-- The tokens of the links of a chain. -/
def linksKinds : List (Combinator × Compound) → List Kind
  | [] => []
  | (combinator, next) :: tail => combinator.kinds ++ (next.kinds ++ linksKinds tail)

/-- The tokens of a chain. -/
def Complex.kinds (c : Complex) : List Kind :=
  c.head.kinds ++ linksKinds c.tail

/-- The tokens of a group, with a space on both sides of a comma. -/
def Group.kinds : Group → List Kind
  | [] => []
  | [c] => c.kinds
  | c :: g => c.kinds ++ .blank :: .delim ',' :: .blank :: Group.kinds g

/-- The text of a group. -/
def Group.print (g : Group) : String :=
  .ofList (g.kinds.flatMap Token.Kind.text)

/-! ### The shape of a selector -/

/-- A simple selector without an empty name, and without an empty argument of `:not`. -/
inductive Simple.Shaped : Simple → Prop
  | id {name : String} (h : name ≠ "") : Shaped (.id name)
  | ofClass {name : String} (h : name ≠ "") : Shaped (.ofClass name)
  | attr {name : String} (test : Option (AttributeOp × String)) (h : name ≠ "") :
      Shaped (.attribute name test)
  | pseudo (p : Pseudo) : Shaped (.pseudo p)
  | contains (text : String) : Shaped (.contains text)
  | not {element : Option String} {simples : List Simple} (helement : element ≠ some "")
      (hne : element = none → simples ≠ []) (hsimples : ∀ s ∈ simples, Shaped s) :
      Shaped (.not element simples)

/-- A compound that is not empty, without an empty name. -/
structure Compound.Shaped (c : Compound) : Prop where
  element : c.element ≠ some ""
  ne_empty : c.element = none → c.simples ≠ []
  simples : ∀ s ∈ c.simples, s.Shaped

/-- A chain of such compounds. -/
structure Complex.Shaped (c : Complex) : Prop where
  head : c.head.Shaped
  tail : ∀ link ∈ c.tail, link.2.Shaped

/-- At least one such chain. -/
structure Group.Shaped (g : Group) : Prop where
  ne_nil : g ≠ []
  all : ∀ c ∈ g, c.Shaped

/-! ### Printed tokens have a derivation -/

/-- An element name derives its tokens. -/
theorem elementKinds_derives (element : Option String) :
    ElementKinds (elementKinds element) element := by
  cases element with
  | none => exact .none
  | some name =>
      rw [elementKinds]
      split
      · next h =>
        rw [h]
        exact .any
      · exact .ident name

/-- One space is white space. -/
theorem blanks_blank : Blanks [.blank] := by
  simp [Blanks]

/-- The operator of an attribute selector derives the tokens that it is printed with. -/
theorem opKinds_text (op : AttributeOp) : OpKinds (op.text.toList.map .delim) op := by
  cases op with
  | equals => exact .equals
  | includes => exact .other .includes
  | dashMatch => exact .other .dashMatch
  | startsWith => exact .other .startsWith
  | endsWith => exact .other .endsWith
  | contains => exact .other .contains

/-- The name that a pseudo-class is printed with is one of its names. -/
theorem pseudoName_name (p : Pseudo) : PseudoName p.name.toLower p := by
  rw [← Pseudo.ofName?_eq_some_iff]
  cases p with
  | ofType place => cases place <;> decide +kernel
  | _ => decide +kernel

/-- Simple selectors derive their tokens if each one does in front of others. -/
theorem simplesKinds_derives {ss : List Simple}
    (h : ∀ s ∈ ss, ∀ {ks : List Kind} {more : List Simple}, SimplesKinds ks more →
      SimplesKinds (s.kinds ++ ks) (s :: more)) : SimplesKinds (simplesKinds ss) ss := by
  induction ss with
  | nil =>
      rw [simplesKinds]
      exact .nil
  | cons s ss ih =>
      rw [simplesKinds]
      exact h s List.mem_cons_self (ih fun s hs => h s (List.mem_cons_of_mem _ hs))

/-- The tokens of a simple selector may stand in front of those of others. -/
theorem Simple.Shaped.derives {s : Simple} (h : s.Shaped) :
    ∀ {ks : List Kind} {ss : List Simple}, SimplesKinds ks ss →
      SimplesKinds (s.kinds ++ ks) (s :: ss) := by
  induction h with
  | @id name _ =>
      intro ks ss more
      rw [Simple.kinds]
      exact .id name more
  | @ofClass name _ =>
      intro ks ss more
      rw [Simple.kinds]
      exact .ofClass name more
  | @attr name test _ =>
      intro ks ss more
      cases test with
      | none =>
          rw [Simple.kinds]
          exact .attr (.bare name blanks_nil blanks_nil) more
      | some test =>
          obtain ⟨op, value⟩ := test
          have hattr := AttributeKinds.test name blanks_nil blanks_nil (opKinds_text op) blanks_nil
            (.string value) blanks_nil
          rw [Simple.kinds]
          simpa using SimplesKinds.attr hattr more
  | pseudo p =>
      intro ks ss more
      rw [Simple.kinds]
      exact .pseudo (pseudoName_name p) more
  | contains text =>
      intro ks ss more
      rw [Simple.kinds]
      exact .contains (by decide +kernel) blanks_nil (.string text) blanks_nil more
  | @not element simples _ hne _ ih =>
      intro ks ss more
      -- The simple selectors of the argument end at the bracket, so they are derived alone.
      have hname : "not".toLower = "not" := by decide +kernel
      have hnot := SimplesKinds.not hname blanks_nil (elementKinds_derives element)
        (simplesKinds_derives ih) hne blanks_nil more
      rw [Simple.kinds]
      simpa using hnot

/-- A compound of the right shape derives its tokens. -/
theorem Compound.Shaped.derives {c : Compound} (h : c.Shaped) : CompoundKinds c.kinds c :=
  .mk (elementKinds_derives c.element) (simplesKinds_derives fun s hs => (h.simples s hs).derives)
    h.ne_empty

/-- A combinator derives its tokens, with the space on each side. -/
theorem combinatorKinds_derives (combinator : Combinator) :
    CombinatorKinds combinator.kinds combinator := by
  cases combinator with
  | descendant => exact .descendant blanks_blank (by simp [Combinator.kinds])
  | child => exact .other blanks_blank .child blanks_blank
  | nextSibling => exact .other blanks_blank .nextSibling blanks_blank
  | laterSibling => exact .other blanks_blank .laterSibling blanks_blank

/-- The links of a chain derive their tokens, one after the other. -/
theorem linksKinds_derives {tail : List (Combinator × Compound)}
    (h : ∀ link ∈ tail, link.2.Shaped) : LinksKinds (linksKinds tail) tail := by
  induction tail with
  | nil => exact .nil
  | cons link tail ih =>
      exact .cons (combinatorKinds_derives link.1) (h link List.mem_cons_self).derives
        (ih fun link hlink => h link (List.mem_cons_of_mem _ hlink))

/-- A chain of the right shape derives its tokens. -/
theorem Complex.Shaped.derives {c : Complex} (h : c.Shaped) : ComplexKinds c.kinds c :=
  .mk h.head.derives (linksKinds_derives h.tail)

/-- The tokens of a group have a derivation, also behind white space. -/
theorem groupKinds_derives {g : Group} (h : g.Shaped) :
    ∀ {b : List Kind}, Blanks b → GroupKinds (b ++ g.kinds) g := by
  induction g with
  | nil => exact absurd rfl h.ne_nil
  | cons c g ih =>
      intro b hb
      have hc := (h.all c List.mem_cons_self).derives
      cases g with
      | nil => simpa [Group.kinds] using GroupKinds.one hb hc blanks_nil
      | cons next g =>
          have hg := ih ⟨by simp, fun c hc => h.all c (List.mem_cons_of_mem _ hc)⟩ blanks_blank
          simpa [Group.kinds] using GroupKinds.cons hb hc blanks_blank hg

/-! ### Printed tokens are legible -/

/-- No name stands in front. -/
def NoName (ks : List Kind) : Prop :=
  ∀ name, ks.head? ≠ some (.ident name)

/-- Punctuation is legible in front of anything. -/
theorem Legible.delim {c : Char} {us : List Kind} (hc : isPunctuation c) (h : Legible us) :
    Legible (.delim c :: us) :=
  .cons hc (fun next _ => by cases next <;> rfl) h

/-- A string in quotes is legible in front of anything. -/
theorem Legible.string (value : String) {us : List Kind} (h : Legible us) :
    Legible (.string value :: us) :=
  .cons trivial (fun next _ => by cases next <;> rfl) h

/-- Only white space has to be kept apart from anything but a name. -/
theorem apart_of_noName {k : Kind} (hk : k ≠ .blank) {us : List Kind} (hus : NoName us) :
    ∀ next ∈ us.head?, k.apart next := by
  intro next hnext
  cases next with
  | ident other => exact absurd hnext (hus other)
  | blank =>
      cases k with
      | blank => exact absurd rfl hk
      | _ => rfl
  | _ => cases k <;> rfl

/-- A name is legible if it is not empty and no other name follows it. -/
theorem Legible.ident {name : String} {us : List Kind} (hname : name ≠ "") (hus : NoName us)
    (h : Legible us) : Legible (.ident name :: us) :=
  .cons hname (apart_of_noName (by simp) hus) h

/-- A hash is legible under the same conditions as a name. -/
theorem Legible.hash {name : String} {us : List Kind} (hname : name ≠ "") (hus : NoName us)
    (h : Legible us) : Legible (.hash name :: us) :=
  .cons hname (apart_of_noName (by simp) hus) h

/-- A space is legible if no other one follows it. -/
theorem Legible.blank {us : List Kind} (hus : us.head? ≠ some .blank) (h : Legible us) :
    Legible (.blank :: us) := by
  refine .cons trivial (fun next hnext => ?_) h
  cases next with
  | blank => exact absurd hnext hus
  | _ => rfl

/-- An element name is legible if it is not empty and no name follows it. -/
theorem elementKinds_legible {element : Option String} (h : element ≠ some "") {us : List Kind}
    (hus : NoName us) (hlegible : Legible us) : Legible (elementKinds element ++ us) := by
  cases element with
  | none => exact hlegible
  | some name =>
      rw [elementKinds]
      split
      · exact .delim (by decide) hlegible
      · exact .ident (fun hname => h (by rw [hname])) hus hlegible

/-- The sign of an operator and its equals sign are punctuation. -/
theorem opKinds_legible (op : AttributeOp) {us : List Kind} (h : Legible us) :
    Legible (op.text.toList.map .delim ++ us) := by
  cases op with
  | equals => exact .delim (by decide) h
  | includes | dashMatch | startsWith | endsWith | contains =>
      exact .delim (by decide) (.delim (by decide) h)

/-- A simple selector starts with a hash or with punctuation, so a name in front of it ends there.
-/
theorem noName_simple (s : Simple) (us : List Kind) : NoName (s.kinds ++ us) := by
  intro name
  rw [Simple.kinds.eq_def]
  split <;> simp

/-- Simple selectors do not start with a name either. Without any, what follows decides. -/
theorem noName_simples (ss : List Simple) {us : List Kind} (h : NoName us) :
    NoName (simplesKinds ss ++ us) := by
  cases ss with
  | nil => simpa [simplesKinds] using h
  | cons s ss =>
      rw [simplesKinds, List.append_assoc]
      exact noName_simple s _

/-- Simple selectors are legible in front of legible tokens if each one is. -/
theorem simplesKinds_legible {ss : List Simple}
    (h : ∀ s ∈ ss, ∀ {us : List Kind}, NoName us → Legible us → Legible (s.kinds ++ us))
    {us : List Kind} (hus : NoName us) (hlegible : Legible us) :
    Legible (simplesKinds ss ++ us) := by
  induction ss with
  | nil => simpa [simplesKinds] using hlegible
  | cons s ss ih =>
      rw [simplesKinds, List.append_assoc]
      exact h s List.mem_cons_self (noName_simples ss hus)
        (ih fun s hs => h s (List.mem_cons_of_mem _ hs))

/-- Punctuation is no name. -/
theorem noName_delim (c : Char) (us : List Kind) : NoName (.delim c :: us) := by
  simp [NoName]

/-- Every pseudo-class has a name. -/
theorem name_ne_empty (p : Pseudo) : p.name ≠ "" := by
  cases p with
  | ofType place => cases place <;> decide
  | _ => decide

/-- The tokens of a simple selector are legible, in front of what is. Induction on the shape, since
the argument of `:not` holds simple selectors again. -/
theorem Simple.Shaped.legible {s : Simple} (h : s.Shaped) :
    ∀ {us : List Kind}, NoName us → Legible us → Legible (s.kinds ++ us) := by
  induction h with
  | @id name hname =>
      intro us hus hlegible
      rw [Simple.kinds]
      exact .hash hname hus hlegible
  | @ofClass name hname =>
      intro us hus hlegible
      rw [Simple.kinds]
      exact .delim (by decide) (.ident hname hus hlegible)
  | @attr name test hname =>
      intro us hus hlegible
      cases test with
      | none =>
          rw [Simple.kinds]
          exact .delim (by decide) (.ident hname (noName_delim _ _) (.delim (by decide) hlegible))
      | some test =>
          obtain ⟨op, value⟩ := test
          have hop := opKinds_legible op (.string value (.delim (c := ']') (by decide) hlegible))
          have hdetached :
              NoName (op.text.toList.map .delim ++ .string value :: .delim ']' :: us) := by
            cases op <;> exact noName_delim _ _
          rw [Simple.kinds]
          simp only [List.cons_append, List.append_assoc, List.nil_append]
          exact .delim (by decide) (.ident hname hdetached hop)
  | pseudo p =>
      intro us hus hlegible
      rw [Simple.kinds]
      exact .delim (by decide) (.ident (name_ne_empty p) hus hlegible)
  | contains text =>
      intro us hus hlegible
      rw [Simple.kinds]
      exact .delim (by decide) (.ident (by decide) (noName_delim _ _) (.delim (by decide)
        (.string text (.delim (by decide) hlegible))))
  | @not element simples helement _ _ ih =>
      intro us hus hlegible
      -- From the bracket at the end to the front, since each part looks at the next one.
      have hclose := noName_delim ')' us
      have hinner := simplesKinds_legible ih hclose (.delim (by decide) hlegible)
      have hargument := elementKinds_legible helement (noName_simples simples hclose) hinner
      rw [Simple.kinds]
      simp only [List.cons_append, List.append_assoc, List.nil_append]
      exact .delim (by decide) (.ident (by decide) (noName_delim _ _)
        (.delim (by decide) hargument))

/-- The tokens of a compound are legible, in front of what is. -/
theorem Compound.Shaped.legible {c : Compound} (h : c.Shaped) {us : List Kind} (hus : NoName us)
    (hlegible : Legible us) : Legible (c.kinds ++ us) := by
  rw [Compound.kinds, List.append_assoc]
  exact elementKinds_legible h.element (noName_simples c.simples hus)
    (simplesKinds_legible (fun s hs => (h.simples s hs).legible) hus hlegible)

/-- A combinator is legible in front of a compound. -/
theorem combinatorKinds_legible (combinator : Combinator) {us : List Kind}
    (hus : us.head? ≠ some .blank) (h : Legible us) : Legible (combinator.kinds ++ us) := by
  cases combinator with
  | descendant => exact .blank hus h
  | child | nextSibling | laterSibling =>
      exact .blank (by simp) (.delim (by decide) (.blank hus h))

/-- A combinator does not start with a name. -/
theorem noName_combinator (combinator : Combinator) (us : List Kind) :
    NoName (combinator.kinds ++ us) := by
  cases combinator <;> simp [NoName, Combinator.kinds]

/-- Links do not start with a name. Without any, what follows decides. -/
theorem noName_links (tail : List (Combinator × Compound)) {us : List Kind} (h : NoName us) :
    NoName (linksKinds tail ++ us) := by
  cases tail with
  | nil => exact h
  | cons link tail =>
      rw [linksKinds, List.append_assoc]
      exact noName_combinator link.1 _

/-- The tokens of links are legible, in front of what is. Induction on the links. -/
theorem linksKinds_legible {tail : List (Combinator × Compound)}
    (h : ∀ link ∈ tail, link.2.Shaped) {us : List Kind} (hus : NoName us)
    (hlegible : Legible us) : Legible (linksKinds tail ++ us) := by
  induction tail with
  | nil => exact hlegible
  | cons link tail ih =>
      have hnext := h link List.mem_cons_self
      rw [linksKinds, List.append_assoc, List.append_assoc]
      -- The space of the combinator is not followed by another one.
      refine combinatorKinds_legible link.1
        (head_ne_blank_of_startsCompound (startsCompound_of_kinds hnext.derives _)) ?_
      exact hnext.legible (noName_links tail hus)
        (ih fun link hlink => h link (List.mem_cons_of_mem _ hlink))

/-- The tokens of a chain are legible, in front of what is. -/
theorem Complex.Shaped.legible {c : Complex} (h : c.Shaped) {us : List Kind} (hus : NoName us)
    (hlegible : Legible us) : Legible (c.kinds ++ us) := by
  rw [Complex.kinds, List.append_assoc]
  exact h.head.legible (noName_links c.tail hus) (linksKinds_legible h.tail hus hlegible)

/-- A chain starts as its first compound does. -/
theorem startsCompound_of_complex {c : Complex} (h : c.Shaped) (us : List Kind) :
    startsCompound (c.kinds ++ us) := by
  rw [Complex.kinds, List.append_assoc]
  exact startsCompound_of_kinds h.head.derives _

/-- A group starts as its first chain does. -/
theorem startsCompound_of_group {c : Complex} (h : c.Shaped) (g : Group) :
    startsCompound (Group.kinds (c :: g)) := by
  cases g with
  | nil => simpa [Group.kinds] using startsCompound_of_complex h []
  | cons next g => exact startsCompound_of_complex h _

/-- **The tokens of a group are legible.** Induction on the chains: a comma and a space stand
between two of them, and a compound behind that. -/
theorem groupKinds_legible {g : Group} (h : ∀ c ∈ g, c.Shaped) : Legible g.kinds := by
  induction g with
  | nil => exact .nil
  | cons c g ih =>
      have hc := h c List.mem_cons_self
      cases g with
      | nil =>
          have hlegible := hc.legible (by simp [NoName]) .nil
          simpa [Group.kinds] using hlegible
      | cons next g =>
          have hmore : ∀ c ∈ next :: g, c.Shaped := fun c hc => h c (List.mem_cons_of_mem _ hc)
          refine hc.legible (by simp [NoName]) (.blank (by simp) (.delim (by decide) ?_))
          have hnext := startsCompound_of_group (hmore next List.mem_cons_self) g
          exact .blank (head_ne_blank_of_startsCompound hnext) (ih hmore)

/-! ### Reading back -/

/-- **A selector of the right shape is read back.** -/
theorem parse_print_of_shaped {g : Group} (h : g.Shaped) : parse g.print = .ok g := by
  obtain ⟨ts, hts, hkinds⟩ := tokens_text (groupKinds_legible h.all) 0
  have hgroup : GroupKinds g.kinds g := groupKinds_derives h (b := []) blanks_nil
  refine (parse_eq_ok_iff ..).mpr ⟨g.kinds, ?_, hgroup⟩
  rw [kinds?, kindsAt?, Group.print, String.toList_ofList, hts, ← hkinds]
  rfl

/-! ### The shape of what is parsed -/

/-- The element name of a derivation is not empty, where no name is. -/
theorem shaped_of_elementKinds {ks : List Kind} {element : Option String}
    (h : ElementKinds ks element) (hnamed : ∀ k ∈ ks, k.Named) : element ≠ some "" := by
  cases h with
  | none => simp
  | ident name => simpa [Token.Kind.Named] using hnamed
  | any => simp

/-- The attribute selector of a derivation has a name, where no name is empty. -/
theorem shaped_of_attributeKinds {ks : List Kind} {s : Simple} (h : AttributeKinds ks s)
    (hnamed : ∀ k ∈ ks, k.Named) : s.Shaped := by
  cases h with
  | bare name => exact .attr _ (hnamed (.ident name) (by simp))
  | test name => exact .attr _ (hnamed (.ident name) (by simp))

/-- The simple selectors of a derivation have the right shape. Induction on the derivation, twice
over for `:not`. -/
theorem shaped_of_simplesKinds {ks : List Kind} {ss : List Simple} (h : SimplesKinds ks ss)
    (hnamed : ∀ k ∈ ks, k.Named) : ∀ s ∈ ss, s.Shaped := by
  induction h with
  | nil => simp
  | id name more ih =>
      rw [List.forall_mem_cons] at hnamed ⊢
      exact ⟨.id hnamed.1, ih hnamed.2⟩
  | ofClass name more ih =>
      rw [List.forall_mem_cons, List.forall_mem_cons] at hnamed
      rw [List.forall_mem_cons]
      exact ⟨.ofClass hnamed.2.1, ih hnamed.2.2⟩
  | attr hattr more ih =>
      rw [List.forall_mem_cons, List.forall_mem_append] at hnamed
      rw [List.forall_mem_cons]
      exact ⟨shaped_of_attributeKinds hattr hnamed.2.1, ih hnamed.2.2⟩
  | pseudo hp more ih =>
      rw [List.forall_mem_cons]
      exact ⟨.pseudo _, ih fun k hk => hnamed k (by simp [hk])⟩
  | contains hname h₁ htext h₂ more ih =>
      rw [List.forall_mem_cons]
      exact ⟨.contains _, ih fun k hk => hnamed k (by simp [hk])⟩
  | not hname h₁ helement hinner hne h₂ more ihinner ih =>
      rw [List.forall_mem_cons]
      refine ⟨.not ?_ hne ?_, ih fun k hk => hnamed k (by simp [hk])⟩
      · exact shaped_of_elementKinds helement fun k hk => hnamed k (by simp [hk])
      · exact ihinner fun k hk => hnamed k (by simp [hk])

/-- The compound of a derivation has the right shape. -/
theorem shaped_of_compoundKinds {ks : List Kind} {c : Compound} (h : CompoundKinds ks c)
    (hnamed : ∀ k ∈ ks, k.Named) : c.Shaped := by
  cases h with
  | mk helement hsimples hne =>
      rw [List.forall_mem_append] at hnamed
      exact ⟨shaped_of_elementKinds helement hnamed.1, hne,
        shaped_of_simplesKinds hsimples hnamed.2⟩

/-- The compounds of the links in a derivation have the right shape. -/
theorem shaped_of_linksKinds {ks : List Kind} {tail : List (Combinator × Compound)}
    (h : LinksKinds ks tail) (hnamed : ∀ k ∈ ks, k.Named) :
    ∀ link ∈ tail, link.2.Shaped := by
  induction h with
  | nil => simp
  | cons hcombinator hnext more ih =>
      rw [List.forall_mem_append, List.forall_mem_append] at hnamed
      rw [List.forall_mem_cons]
      exact ⟨shaped_of_compoundKinds hnext hnamed.2.1, ih hnamed.2.2⟩

/-- The chain of a derivation has the right shape. -/
theorem shaped_of_complexKinds {ks : List Kind} {c : Complex} (h : ComplexKinds ks c)
    (hnamed : ∀ k ∈ ks, k.Named) : c.Shaped := by
  cases h with
  | mk hhead htail =>
      rw [List.forall_mem_append] at hnamed
      exact ⟨shaped_of_compoundKinds hhead hnamed.1, shaped_of_linksKinds htail hnamed.2⟩

/-- The group of a derivation has the right shape. -/
theorem shaped_of_groupKinds {ks : List Kind} {g : Group} (h : GroupKinds ks g)
    (hnamed : ∀ k ∈ ks, k.Named) : g.Shaped := by
  induction h with
  | one h₁ hc h₂ =>
      have hc := shaped_of_complexKinds hc fun k hk => hnamed k (by simp [hk])
      exact ⟨by simp, by simpa using hc⟩
  | cons h₁ hc h₂ more ih =>
      have hc := shaped_of_complexKinds hc fun k hk => hnamed k (by simp [hk])
      have hmore := ih fun k hk => hnamed k (by simp [hk])
      exact ⟨by simp, List.forall_mem_cons.mpr ⟨hc, hmore.all⟩⟩

/-- What is parsed has the right shape, since no token has an empty name. -/
theorem shaped_of_parse {s : String} {g : Group} (h : parse s = .ok g) : g.Shaped := by
  rw [parse] at h
  split at h
  · cases h
  · obtain ⟨ts, hts, hg⟩ := exists_of_bind_eq_ok h
    refine shaped_of_groupKinds (groupKinds_of_group ts hg) fun k hk => ?_
    obtain ⟨t, ht, rfl⟩ := List.mem_map.mp hk
    exact named_of_tokens 0 s.toList hts t ht

/-- **Printing and parsing are inverse to each other.** A group of the right shape is
parsed back from its text, and what is parsed from any text has that shape. -/
theorem parse_print :
    (∀ g : Group, g.Shaped → parse g.print = .ok g) ∧
      ∀ (s : String) (g : Group), parse s = .ok g → g.Shaped ∧ parse g.print = parse s := by
  refine ⟨fun g h => parse_print_of_shaped h, fun s g h => ?_⟩
  have hg := shaped_of_parse h
  exact ⟨hg, (parse_print_of_shaped hg).trans h.symm⟩

/-- A name with a space in it, in the argument of `:not`; and an escape that ends in one
space, with a descendant behind a second one. -/
theorem parse_print_escaped :
    (Group.Shaped [⟨⟨none, [.not none [.id "a b"]]⟩, []⟩] ∧
      parse (Group.print [⟨⟨none, [.not none [.id "a b"]]⟩, []⟩]) =
        .ok [⟨⟨none, [.not none [.id "a b"]]⟩, []⟩]) ∧
    parse "a\\31  b" = .ok [⟨⟨some "a1", []⟩, [(.descendant, ⟨some "b", []⟩)]⟩] ∧
      parse (Group.print [⟨⟨some "a1", []⟩, [(.descendant, ⟨some "b", []⟩)]⟩]) =
        parse "a\\31  b" := by
  have hname : Simple.Shaped (.id "a b") := .id (by decide)
  have hnot : Simple.Shaped (.not none [.id "a b"]) :=
    .not (by simp) (by simp) (List.forall_mem_singleton.mpr hname)
  have hshaped : Group.Shaped [⟨⟨none, [.not none [.id "a b"]]⟩, []⟩] := by
    refine ⟨by simp, List.forall_mem_singleton.mpr ⟨⟨by simp, by simp, ?_⟩, by simp⟩⟩
    exact List.forall_mem_singleton.mpr hnot
  have htokens : tokenize "a\\31  b" = .ok [⟨.ident "a1", 0⟩, ⟨.blank, 5⟩, ⟨.ident "b", 6⟩] := by
    decide +kernel
  have hparse : parse "a\\31  b" =
      .ok [⟨⟨some "a1", []⟩, [(.descendant, ⟨some "b", []⟩)]⟩] := by
    rw [parse_eq_group (by decide +kernel) htokens]
    with_unfolding_all rfl
  exact ⟨⟨hshaped, parse_print.1 _ hshaped⟩, hparse, (parse_print.2 _ _ hparse).2⟩

example : Group.print [⟨⟨some "*", [.ofClass "k"]⟩, [(.child, ⟨some "p", []⟩)]⟩] =
    "*.\\6b  > \\70 " := by
  decide +kernel

end XPathLocator.Css
