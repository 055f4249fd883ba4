import Mathlib.Data.List.Find
import XPathLocator.Proofs.Css.Identifier

/-!
# `XPathLocator.Proofs.Css.Refusal`: selectors without an XPath

A selector that can be read is refused for one reason only. Its places among siblings of one name
are counted by a node test, and there may be none. `Group.places` lists what a selector asks for,
in the order in which it is written, and the compiler answers in that order: the first place
without a node test is the error, and if there is no such place, the selector is compiled
(`compileFrom_answers`).

There is a node test for a name that can stand in an XPath as it is, so a place is refused where
there is no element name, or a star for any name. But it is refused also where a name is given that
has to be compared with `name()` (`compileFrom_refuses_colon`).
-/

set_option autoImplicit false

namespace XPathLocator.Css

open XPath (Expr)

/-- A place among the siblings of one name, with the element name of the compound that asks for
it. -/
structure PlaceOf where
  element : Option String
  place : TypePlace
deriving DecidableEq, Repr

namespace PlaceOf

/-- No element name is given, or a star for any name. -/
def ofAny (p : PlaceOf) : Bool :=
  p.element.getD "*" = "*"

/-- The element name, if there is one, is not written as a node test. -/
def lacksNodeTest (compiler : Compiler) (p : PlaceOf) : Bool :=
  !p.element.any fun name => isPlainName (compiler.normalName name)

end PlaceOf

mutual

/-- The places that a simple selector asks for, on an element of the given name. -/
def Simple.places (element : Option String) : Simple → List PlaceOf
  | .pseudo (.ofType place) => [⟨element, place⟩]
  | .not inner simples => placesIn inner simples
  | _ => []

/-- The places that simple selectors ask for, in order. -/
def placesIn (element : Option String) : List Simple → List PlaceOf
  | [] => []
  | simple :: rest => simple.places element ++ placesIn element rest

end

/-- The places that a compound asks for. -/
def Compound.places (c : Compound) : List PlaceOf :=
  placesIn c.element c.simples

/-- The places that the compounds of a chain ask for. -/
def Complex.places (c : Complex) : List PlaceOf :=
  c.head.places ++ c.tail.flatMap fun link => link.2.places

/-- The places that a selector asks for, in the order in which it is written. -/
def Group.places (g : Group) : List PlaceOf :=
  g.flatMap Complex.places

/-! ### Answers -/

/-- A result answers places if it is the error for the first of them that is refused, and no error
if none is. -/
def Answers {α : Type} (refused : PlaceOf → Bool) (places : List PlaceOf) (r : Except Error α) :
    Prop :=
  match places.find? refused with
  | none => ∃ a, r = .ok a
  | some p => r = .error (.elementNameRequired p.place)

section Answers

variable {α β σ : Type} {refused : PlaceOf → Bool} {ps qs : List PlaceOf}

/-- Where there are no places, any result answers them. -/
theorem answers_ok (a : α) : Answers refused [] (.ok a) :=
  ⟨a, rfl⟩

/-- Two parts, one after the other, answer their places in that order. -/
theorem Answers.bind {r : Except Error α} {f : α → Except Error β} (h : Answers refused ps r)
    (hf : ∀ a, Answers refused qs (f a)) : Answers refused (ps ++ qs) (r >>= f) := by
  rw [Answers] at h ⊢
  rw [List.find?_append]
  cases hps : ps.find? refused with
  | some p =>
      rw [hps] at h
      rw [h]
      rfl
  | none =>
      rw [hps] at h
      obtain ⟨a, rfl⟩ := h
      exact hf a

/-- What is done with a result asks for nothing more. -/
theorem Answers.map {r : Except Error α} (h : Answers refused ps r) (f : α → β) :
    Answers refused ps (do return f (← r)) := by
  rw [← List.append_nil ps]
  exact h.bind fun a => answers_ok (f a)

/-- A list of parts answers the places of each, in order. Induction on the list. -/
theorem Answers.mapM {f : α → Except Error β} {places : α → List PlaceOf}
    (h : ∀ a, Answers refused (places a) (f a)) (l : List α) :
    Answers refused (l.flatMap places) (l.mapM f) := by
  induction l with
  | nil => exact answers_ok []
  | cons a l ih =>
      rw [List.flatMap_cons, List.mapM_cons]
      exact (h a).bind fun b => ih.map (b :: ·)

/-- A fold over parts answers the places of each, in order. Induction on the list. -/
theorem Answers.foldlM {f : σ → α → Except Error σ} {places : α → List PlaceOf}
    (h : ∀ s a, Answers refused (places a) (f s a)) (l : List α) (s : σ) :
    Answers refused (l.flatMap places) (l.foldlM f s) := by
  induction l generalizing s with
  | nil => exact answers_ok s
  | cons a l ih =>
      rw [List.flatMap_cons, List.foldlM_cons]
      exact (h s a).bind ih

/-- An answer is an error exactly if a place is refused. -/
theorem Answers.eq_error_iff {r : Except Error α} (h : Answers refused ps r) (e : Error) :
    r = .error e ↔ ∃ p, ps.find? refused = some p ∧ e = .elementNameRequired p.place := by
  rw [Answers] at h
  cases hps : ps.find? refused with
  | some p =>
      rw [hps] at h
      rw [h]
      simp [eq_comm]
  | none =>
      rw [hps] at h
      obtain ⟨a, rfl⟩ := h
      simp

/-- If no place is refused, there is a result. -/
theorem Answers.exists_eq_ok {r : Except Error α} (h : Answers refused ps r)
    (hps : ∀ p ∈ ps, ¬ refused p) : ∃ a, r = .ok a := by
  rw [Answers, List.find?_eq_none.mpr hps] at h
  exact h

end Answers

/-! ### The compiler -/

variable (compiler : Compiler)

/-- The star is its own normal form. -/
theorem normalName_star : compiler.normalName "*" = "*" := by
  rw [Compiler.normalName]
  split
  · decide +kernel
  · rfl

/-- The star is no name that stands in an XPath as it is. -/
theorem isPlainName_star : isPlainName "*" = false := by
  decide

/-- A step is for any element where its name is not written as a node test. -/
theorem element_eq_star_iff (name : Option String) (place : TypePlace) :
    (compiler.element name).element = "*" ↔ PlaceOf.lacksNodeTest compiler ⟨name, place⟩ := by
  rw [Compiler.element]
  cases name with
  | none => simp [PlaceOf.lacksNodeTest, normalName_star]
  | some n =>
      simp only [PlaceOf.lacksNodeTest, Option.getD_some, Option.any_some]
      split
      · next h =>
        by_cases hn : compiler.normalName n = "*"
        · simp [hn, isPlainName_star]
        · have hplain : isPlainName (compiler.normalName n) := by simpa [hn] using h
          simp [hn, hplain]
      · next h =>
        have hplain : isPlainName (compiler.normalName n) = false := by
          rw [Bool.or_eq_true, not_or] at h
          simpa using h.2
        -- The name went into the condition, and the node test is the star.
        simp [hplain, Expr.addCondition, Expr.any]

/-- Where a name can stand in an XPath as it is, only a place for any name has no node test. -/
theorem PlaceOf.lacksNodeTest_eq_ofAny {p : PlaceOf}
    (h : ∀ n ∈ p.element, n = "*" ∨ isPlainName (compiler.normalName n)) :
    p.lacksNodeTest compiler = p.ofAny := by
  obtain ⟨name, place⟩ := p
  cases name with
  | none => rfl
  | some n =>
      rcases h n rfl with rfl | hplain
      · simp [PlaceOf.lacksNodeTest, PlaceOf.ofAny, normalName_star, isPlainName_star]
      · have hn : n ≠ "*" := by
          rintro rfl
          rw [normalName_star, isPlainName_star] at hplain
          cases hplain
        simp [PlaceOf.lacksNodeTest, PlaceOf.ofAny, hplain, hn]

/-- Nothing but a place among siblings of one name is refused. -/
theorem pseudoCondition_answers (element : Option String) (p : Pseudo) :
    Answers (·.lacksNodeTest compiler) ((Simple.pseudo p).places element)
      (pseudoCondition (compiler.element element).element p) := by
  cases p with
  | ofType place =>
      have hstar := element_eq_star_iff compiler element place
      rw [Simple.places, Answers, List.find?_singleton, pseudoCondition]
      by_cases h : PlaceOf.lacksNodeTest compiler ⟨element, place⟩
      · rw [if_pos h, if_pos (hstar.mpr h)]
        rfl
      · rw [if_neg h, if_neg (fun heq => h (hstar.mp heq))]
        exact ⟨_, rfl⟩
  | _ => exact answers_ok _

mutual

/-- A simple selector is refused for the first of its places that has no node test. -/
theorem condition_answers (element : Option String) :
    (simple : Simple) → Answers (·.lacksNodeTest compiler) (simple.places element)
      (compiler.condition (compiler.element element).element simple)
  | .id _ => answers_ok _
  | .ofClass _ => answers_ok _
  | .attribute _ _ => answers_ok _
  | .pseudo p => pseudoCondition_answers compiler element p
  | .contains _ => answers_ok _
  | .not name simples => by
      rw [Simple.places, Compiler.condition]
      exact (narrow_answers name rfl simples).map _

/-- Simple selectors are asked in order. What is added to a step leaves its node test as it is. -/
theorem narrow_answers (element : Option String) {e : Expr}
    (he : e.element = (compiler.element element).element) :
    (simples : List Simple) → Answers (·.lacksNodeTest compiler) (placesIn element simples)
      (compiler.narrow e simples)
  | [] => answers_ok e
  | simple :: rest => by
      rw [placesIn, Compiler.narrow, he]
      exact (condition_answers element simple).bind fun text =>
        narrow_answers element (e := e.addCondition text) he rest

end

/-- A compound answers its places. -/
theorem compound_answers (c : Compound) :
    Answers (·.lacksNodeTest compiler) c.places (compiler.compound c) :=
  narrow_answers compiler c.element rfl c.simples

/-- A chain answers the places of its compounds, from the first one on. -/
theorem complex_answers (c : Complex) :
    Answers (·.lacksNodeTest compiler) c.places (compiler.complex c) := by
  rw [Compiler.complex]
  refine (compound_answers compiler c.head).bind fun first => ?_
  exact .foldlM (fun left link => (compound_answers compiler link.2).map _) c.tail first

/-- A group answers the places of its chains, in order. -/
theorem group_answers (axis : String) (g : Group) :
    Answers (·.lacksNodeTest compiler) g.places (compiler.group axis g) := by
  rw [Compiler.group]
  exact (Answers.mapM (fun c => (complex_answers compiler c).map _) g).map _

/-! ### Selectors -/

/-- An error of the compiler is one of the parser, unless a selector is read and lacks a node
test. -/
theorem compileFrom_error_cases {css axis : String} {e : Error}
    (h : compiler.compileFrom axis css = .error e) :
    (Text.trim css).isEmpty ∧ e = .empty ∨
      (Text.trim css).isEmpty = false ∧ (tokenize css = .error e ∨
        ∃ ts, tokenize css = .ok ts ∧ (group ts = .error e ∨
          ∃ g place, group ts = .ok g ∧ e = .elementNameRequired place)) := by
  rw [Compiler.compileFrom, parse] at h
  split at h
  · next hempty =>
    cases h
    exact .inl ⟨hempty, rfl⟩
  · next hempty =>
    refine .inr ⟨by simpa using hempty, ?_⟩
    cases htokens : tokenize css with
    | error e' =>
        rw [htokens] at h
        cases h
        exact .inl rfl
    | ok ts =>
        rw [htokens] at h
        refine .inr ⟨ts, rfl, ?_⟩
        -- Behind the parser only a place can be refused.
        change (group ts >>= _) = _ at h
        cases hgroup : group ts with
        | error e' =>
            rw [hgroup] at h
            cases h
            exact .inl rfl
        | ok g =>
            rw [hgroup] at h
            obtain ⟨p, _, rfl⟩ := ((group_answers compiler axis g).eq_error_iff e).mp h
            exact .inr ⟨g, p.place, rfl, rfl⟩

/-- What cannot be read is refused for that. -/
theorem compileFrom_of_parse_error {css : String} {e : Error} (h : parse css = .error e)
    (axis : String) : compiler.compileFrom axis css = .error e := by
  rw [Compiler.compileFrom, h]
  rfl

/-- **A selector is refused for the first place that has no node test**, in the order in which the
selector is written, and for nothing else once it is read. As long as every name that comes with a
place can stand in an XPath as it is, that is the first place which comes with no element name, or
with a star for it, and without such a place nothing is refused. -/
theorem compileFrom_answers {css : String} {g : Group} (h : parse css = .ok g) (axis : String) :
    (∀ e, compiler.compileFrom axis css = .error e ↔
      ∃ p, g.places.find? (·.lacksNodeTest compiler) = some p ∧ e = .elementNameRequired p.place) ∧
    ((∀ p ∈ g.places, ∀ n ∈ p.element, n = "*" ∨ isPlainName (compiler.normalName n)) →
      ((∃ e, compiler.compileFrom axis css = .error e) ↔ ∃ p ∈ g.places, p.ofAny) ∧
      ∀ e, compiler.compileFrom axis css = .error e ↔
        ∃ p, g.places.find? (·.ofAny) = some p ∧ e = .elementNameRequired p.place) := by
  have hgroup : compiler.compileFrom axis css = compiler.group axis g := by
    rw [Compiler.compileFrom, h]
    rfl
  have herror := (group_answers compiler axis g).eq_error_iff
  rw [hgroup]
  refine ⟨herror, fun hnames => ?_⟩
  -- With plain names a node test is missing only where any name will do.
  have hfind : g.places.find? (·.lacksNodeTest compiler) = g.places.find? (·.ofAny) :=
    List.find?_congr fun p hp => PlaceOf.lacksNodeTest_eq_ofAny compiler (hnames p hp)
  rw [hfind] at herror
  refine ⟨?_, herror⟩
  rw [← List.find?_isSome (p := PlaceOf.ofAny), Option.isSome_iff_exists]
  constructor
  · rintro ⟨e, he⟩
    obtain ⟨p, hp, _⟩ := (herror e).mp he
    exact ⟨p, hp⟩
  · rintro ⟨p, hp⟩
    exact ⟨_, (herror _).mpr ⟨p, hp, rfl⟩⟩

/-- Three places, and the first of the two that are for any name stands in a negation. -/
theorem compileFrom_answers_nested :
    let g : Group := [⟨⟨some "a", [.pseudo (.ofType .only)]⟩, [(.child,
      ⟨none, [.not (some "*") [.pseudo (.ofType .last)], .pseudo (.ofType .first)]⟩)]⟩]
    parse "a:only-of-type>:not(*:last-of-type):first-of-type" = .ok g ∧
      (∀ p ∈ g.places, ∀ n ∈ p.element,
        n = "*" ∨ isPlainName (Compiler.normalName ⟨false⟩ n)) ∧
      Compiler.compileFrom ⟨false⟩ "//" "a:only-of-type>:not(*:last-of-type):first-of-type"
        = .error (.elementNameRequired .last) := by
  intro g
  have htokens : tokenize "a:only-of-type>:not(*:last-of-type):first-of-type" = .ok
      [⟨.ident "a", 0⟩, ⟨.delim ':', 1⟩, ⟨.ident "only-of-type", 2⟩, ⟨.delim '>', 14⟩,
        ⟨.delim ':', 15⟩, ⟨.ident "not", 16⟩, ⟨.delim '(', 19⟩, ⟨.delim '*', 20⟩, ⟨.delim ':', 21⟩,
        ⟨.ident "last-of-type", 22⟩, ⟨.delim ')', 34⟩, ⟨.delim ':', 35⟩,
        ⟨.ident "first-of-type", 36⟩] := by decide +kernel
  have hparse : parse "a:only-of-type>:not(*:last-of-type):first-of-type" = .ok g := by
    rw [parse_eq_group (by decide +kernel) htokens]
    with_unfolding_all rfl
  have hplaces : g.places = [⟨some "a", .only⟩, ⟨some "*", .last⟩, ⟨none, .first⟩] := rfl
  have hnames : ∀ p ∈ g.places, ∀ n ∈ p.element,
      n = "*" ∨ isPlainName (Compiler.normalName ⟨false⟩ n) := by
    rw [hplaces]
    decide
  have herror := ((compileFrom_answers ⟨false⟩ hparse "//").2 hnames).2
  exact ⟨hparse, hnames, (herror _).mpr ⟨⟨some "*", .last⟩, rfl, rfl⟩⟩

/-- A name with a colon is a name, and yet the first element of that name is refused as the first
one of no name. -/
theorem compileFrom_refuses_colon :
    let g : Group := [⟨⟨some "a:b", [.pseudo (.ofType .first)]⟩, []⟩]
    parse "a\\:b:first-of-type" = .ok g ∧ (∀ p ∈ g.places, ¬ p.ofAny) ∧
      ∀ axis, Compiler.compileFrom ⟨true⟩ axis "a\\:b:first-of-type"
        = .error (.elementNameRequired .first) := by
  intro g
  have htokens : tokenize "a\\:b:first-of-type" = .ok
      [⟨.ident "a:b", 0⟩, ⟨.delim ':', 4⟩, ⟨.ident "first-of-type", 5⟩] := by decide +kernel
  have hparse : parse "a\\:b:first-of-type" = .ok g := by
    rw [parse_eq_group (by decide +kernel) htokens]
    with_unfolding_all rfl
  refine ⟨hparse, by decide, fun axis => ?_⟩
  rw [Compiler.compileFrom, hparse]
  exact ((group_answers ⟨true⟩ axis g).eq_error_iff _).mpr
    ⟨⟨some "a:b", .first⟩, by decide +kernel, rfl⟩

end XPathLocator.Css
