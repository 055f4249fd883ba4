import XPathLocator.Proofs.Css.Grammar

/-!
# `XPathLocator.Proofs.Css.Complete`: what the grammar has, the parser reads

Each reader of the parser takes what a part of the grammar derives and leaves the tokens
behind it. `Reads x a us` says that the reader `x` succeeds with `a` and leaves tokens of
the kinds `us`. A reader goes on as long as it can, so it stops at the end of a part only
if the tokens behind cannot continue it. For compounds and all that is made of them,
`endsCompound` is the condition on those tokens.

The parser finds signs and names in tables. They hold what the grammar writes, and no more
(`ofChar?_eq_some_iff`, `ofName?_eq_some_iff`).

The induction is on the derivation. The parser never has to choose: each constructor of
the grammar has a token in front that no other one has there.
-/

set_option autoImplicit false

namespace XPathLocator.Css

open Token (Kind)

/-! ### The tables of the parser -/

/-- The parser knows the signs of operators that the grammar has. -/
theorem AttributeOp.ofChar?_eq_some_iff {c : Char} {op : AttributeOp} :
    ofChar? c = some op ↔ OpSign c op := by
  constructor
  · intro h
    unfold ofChar? at h
    split at h <;> cases h <;> constructor
  · intro h
    cases h <;> rfl

/-- The parser knows the signs of combinators that the grammar has. -/
theorem Combinator.ofChar?_eq_some_iff {c : Char} {combinator : Combinator} :
    ofChar? c = some combinator ↔ CombinatorSign c combinator := by
  constructor
  · intro h
    unfold ofChar? at h
    split at h <;> cases h <;> constructor
  · intro h
    cases h <;> rfl

/-- A character that is no sign is not in the table. -/
theorem Combinator.ofChar?_eq_none_iff {c : Char} :
    ofChar? c = none ↔ ∀ combinator, ¬ CombinatorSign c combinator := by
  rw [Option.eq_none_iff_forall_ne_some]
  exact forall_congr' fun combinator => not_congr ofChar?_eq_some_iff

/-- The parser knows the names of pseudo-classes that the grammar has. -/
theorem Pseudo.ofName?_eq_some_iff {name : String} {p : Pseudo} :
    ofName? name = some p ↔ PseudoName name p := by
  constructor
  · intro h
    obtain ⟨before, behind, hnames, -⟩ := List.lookup_eq_some_iff.mp h
    have hmem : (name, p) ∈ names := by
      rw [hnames]
      exact List.mem_append_right _ List.mem_cons_self
    -- One case for each entry of the table.
    simp only [names, List.mem_cons, List.not_mem_nil, or_false, Prod.mk.injEq] at hmem
    rcases hmem with h | h | h | h | h | h | h | h | h | h | h | h | h | h | h | h | h <;>
      (obtain ⟨rfl, rfl⟩ := h; constructor)
  · intro h
    cases h <;> rfl

/-- A name that the grammar does not have is not in the table. -/
theorem Pseudo.ofName?_eq_none_iff {name : String} :
    ofName? name = none ↔ ∀ p, ¬ PseudoName name p := by
  rw [Option.eq_none_iff_forall_ne_some]
  exact forall_congr' fun p => not_congr ofName?_eq_some_iff

/-- A reader succeeds with a value and leaves tokens of these kinds. -/
def Reads {α : Type} {p : List Token → Prop} (x : Except Error (α × Subtype p)) (a : α)
    (us : List Kind) : Prop :=
  ∃ r, x = .ok (a, r) ∧ r.1.map Token.kind = us

/-- What follows a reader that succeeds decides on the whole. -/
theorem Reads.bind {α β : Type} {q : List Token → Prop} {x : Except Error β}
    {f : β → Except Error (α × Subtype q)} {b : β} {a : α} {us : List Kind}
    (hx : x = .ok b) (h : Reads (f b) a us) : Reads (x >>= f) a us := by
  rw [hx]
  exact h

/-- A result tells what it leaves. -/
theorem Reads.ok {α : Type} {p : List Token → Prop} {a : α} {r : Subtype p} {us : List Kind}
    (h : r.1.map Token.kind = us) : Reads (.ok (a, r)) a us :=
  ⟨r, rfl, h⟩

/-- A token of the kind that stands in front, and the tokens behind it. -/
theorem exists_cons_of_map_kind {ts : List Token} {k : Kind} {us : List Kind}
    (h : ts.map Token.kind = k :: us) : ∃ p r, ts = ⟨k, p⟩ :: r ∧ r.map Token.kind = us := by
  obtain ⟨t, r, rfl, rfl, hr⟩ := List.map_eq_cons_iff.mp h
  exact ⟨t.position, r, rfl, hr⟩

/-! ### Single tokens -/

/-- White space is skipped up to a token that is none. Induction on the white space. -/
theorem skipBlank_kinds {ts : List Token} {b : List Kind} (us : List Kind) (hb : Blanks b)
    (hus : us.head? ≠ some .blank) (h : ts.map Token.kind = b ++ us) :
    (skipBlank ts).1.map Token.kind = us := by
  show (ts.dropWhile fun t => t.kind = .blank).map Token.kind = us
  induction b generalizing ts with
  | nil =>
      rw [List.nil_append] at h
      cases ts with
      | nil => exact h
      | cons t r =>
          have ht : t.kind ≠ .blank := by
            rintro ht
            rw [← h, List.map_cons, List.head?_cons, ht] at hus
            exact hus rfl
          rw [List.dropWhile_cons_of_neg (by simpa using ht)]
          exact h
  | cons k b ih =>
      obtain ⟨p, r, rfl, hr⟩ := exists_cons_of_map_kind h
      rw [List.dropWhile_cons_of_pos (by simpa using hb k List.mem_cons_self)]
      exact ih (fun k hk => hb k (List.mem_cons_of_mem _ hk)) hr

/-- A name is read where one stands. -/
theorem ident_reads {ts : List Token} {name : String} {us : List Kind} (expected : Expectation)
    (h : ts.map Token.kind = .ident name :: us) : Reads (ident expected ts) name us := by
  obtain ⟨p, r, rfl, hr⟩ := exists_cons_of_map_kind h
  exact .ok hr

/-- A delimiter is read where it stands. -/
theorem delim_eq_ok {ts : List Token} {c : Char} {us : List Kind} (expected : Expectation)
    (h : ts.map Token.kind = .delim c :: us) :
    ∃ r, delim c expected ts = .ok r ∧ r.1.map Token.kind = us := by
  obtain ⟨p, r, rfl, hr⟩ := exists_cons_of_map_kind h
  exact ⟨_, if_pos rfl, hr⟩

/-! ### Attributes -/

/-- The end of an attribute selector without a test. -/
theorem attributeOp_close {ts : List Token} {us : List Kind}
    (h : ts.map Token.kind = .delim ']' :: us) : Reads (attributeOp ts) none us := by
  obtain ⟨p, r, rfl, hr⟩ := exists_cons_of_map_kind h
  exact .ok hr

/-- An operator is read where the grammar has one. -/
theorem attributeOp_reads {ts : List Token} {ops us : List Kind} {op : AttributeOp}
    (hop : OpKinds ops op) (h : ts.map Token.kind = ops ++ us) :
    Reads (attributeOp ts) (some op) us := by
  cases hop with
  | equals =>
      obtain ⟨p, r, rfl, hr⟩ := exists_cons_of_map_kind h
      exact .ok hr
  | @other c op hop =>
      obtain ⟨p, r, rfl, hr⟩ := exists_cons_of_map_kind h
      obtain ⟨rest, hrest, hus⟩ := delim_eq_ok .equalsSign hr
      have hc : c ≠ ']' ∧ c ≠ '=' := by
        constructor <;> (rintro rfl; cases hop)
      rw [attributeOp, if_neg hc.1, if_neg hc.2, AttributeOp.ofChar?_eq_some_iff.mpr hop]
      exact .bind hrest (.ok hus)

/-- A value is read where the grammar has one. -/
theorem attributeValue_reads {ts : List Token} {k : Kind} {value : String} {us : List Kind}
    (hvalue : ValueKind k value) (h : ts.map Token.kind = k :: us) :
    Reads (attributeValue ts) value us := by
  cases hvalue <;>
  · obtain ⟨p, r, rfl, hr⟩ := exists_cons_of_map_kind h
    exact .ok hr

/-- An attribute selector is read where the grammar has one, part by part. -/
theorem attributeTest_reads {ts : List Token} {as us : List Kind} {s : Simple}
    (ha : AttributeKinds as s) (h : ts.map Token.kind = as ++ us) :
    Reads (attributeTest ts) s us := by
  cases ha with
  | bare name h₁ h₂ =>
      have h := skipBlank_kinds (.ident name :: _) h₁ (by simp) (by simpa using h)
      obtain ⟨r₁, hr₁, h⟩ := ident_reads .attributeName h
      have h := skipBlank_kinds (.delim ']' :: us) h₂ (by simp) (by simpa using h)
      obtain ⟨r₂, hr₂, h⟩ := attributeOp_close h
      exact .bind hr₁ (.bind hr₂ (.ok h))
  | @test b₁ b₂ b₃ b₄ ops op k value name h₁ h₂ hop h₃ hvalue h₄ =>
      have hops : (ops ++ (b₃ ++ k :: (b₄ ++ .delim ']' :: us))).head? ≠ some .blank := by
        cases hop <;> simp
      have hk : k ≠ .blank := by cases hvalue <;> simp
      have h := skipBlank_kinds (.ident name :: _) h₁ (by simp) (by simpa using h)
      obtain ⟨r₁, hr₁, h⟩ := ident_reads .attributeName h
      have h := skipBlank_kinds _ h₂ hops (by simpa using h)
      obtain ⟨r₂, hr₂, h⟩ := attributeOp_reads hop h
      have h := skipBlank_kinds (k :: _) h₃ (by simpa using hk) h
      obtain ⟨r₃, hr₃, h⟩ := attributeValue_reads hvalue h
      have h := skipBlank_kinds (.delim ']' :: us) h₄ (by simp) h
      obtain ⟨r₄, hr₄, h⟩ := delim_eq_ok .closingBracket h
      exact .bind hr₁ (.bind hr₂ (.bind hr₃ (.bind hr₄ (.ok h))))

/-! ### Compounds -/

/-- Tokens that cannot continue a compound. -/
def endsCompound : List Kind → Bool
  | [] | .blank :: _ => true
  | .delim c :: _ => c = ',' || c = ')' || (Combinator.ofChar? c).isSome
  | _ => false

/-- Tokens that start with a simple selector. -/
def startsSimple : List Kind → Bool
  | .hash _ :: _ => true
  | .delim c :: _ => c = '.' || c = '[' || c = ':'
  | _ => false

/-- Simple selectors start with a token that only they start with. -/
theorem startsSimple_of_ne_nil {ks : List Kind} {ss : List Simple} (h : SimplesKinds ks ss)
    (hne : ss ≠ []) (us : List Kind) : startsSimple (ks ++ us) := by
  cases h with
  | nil => exact absurd rfl hne
  | _ => rfl

/-- Behind the element name of a compound, simple selectors start or the compound ends. -/
theorem startsSimple_or_endsCompound {ks us : List Kind} {ss : List Simple}
    (h : SimplesKinds ks ss) (hus : endsCompound us) :
    startsSimple (ks ++ us) ∨ endsCompound (ks ++ us) := by
  cases h with
  | nil => exact .inr hus
  | _ => exact .inl rfl

/-- An element name is read where the grammar has one. Without one, it counts that something else
does not look like one. -/
theorem typeSelector_eq {ts : List Token} {es us : List Kind} {element : Option String}
    (helement : ElementKinds es element) (hus : element = none → startsSimple us)
    (h : ts.map Token.kind = es ++ us) :
    ∃ r, typeSelector ts = (element, r) ∧ r.1.map Token.kind = us := by
  cases helement with
  | none =>
      -- Neither a name nor a `*` starts a simple selector.
      have hus := hus rfl
      refine ⟨.all ts, ?_, h⟩
      rw [typeSelector]
      · rintro name p r rfl
        rw [List.nil_append] at h
        rw [← h] at hus
        cases hus
      · rintro p r rfl
        rw [List.nil_append] at h
        rw [← h] at hus
        cases hus
  | ident name =>
      obtain ⟨p, r, rfl, hr⟩ := exists_cons_of_map_kind h
      exact ⟨_, rfl, hr⟩
  | any =>
      obtain ⟨p, r, rfl, hr⟩ := exists_cons_of_map_kind h
      exact ⟨_, rfl, hr⟩

/-- The text of `:contains` is read where the grammar has one. -/
theorem containsText_reads {ts : List Token} {k : Kind} {text : String} {us : List Kind}
    (htext : TextKind k text) (h : ts.map Token.kind = k :: us) :
    Reads (containsText ts) text us := by
  cases htext <;>
  · obtain ⟨p, r, rfl, hr⟩ := exists_cons_of_map_kind h
    exact .ok hr

/-- An argument is opened by a bracket, with the white space behind it. -/
theorem openArgument_eq {ts : List Token} {b : List Kind} (us : List Kind) (hb : Blanks b)
    (hus : us.head? ≠ some .blank) (h : ts.map Token.kind = .delim '(' :: (b ++ us)) :
    ∃ r, openArgument ts = (true, r) ∧ r.1.map Token.kind = us := by
  obtain ⟨p, r, rfl, hr⟩ := exists_cons_of_map_kind h
  exact ⟨_, rfl, skipBlank_kinds _ hb hus hr⟩

/-- Where no bracket follows, there is no argument. -/
theorem openArgument_none {ts : List Token} {us : List Kind}
    (hus : startsSimple us ∨ endsCompound us) (h : ts.map Token.kind = us) :
    openArgument ts = (false, .all ts) := by
  rw [openArgument]
  rintro p r rfl
  rw [← h] at hus
  rcases hus with hus | hus <;> cases hus

/-- An argument is closed by a bracket, with the white space in front of it. -/
theorem closeArgument_eq_ok {ts : List Token} {b us : List Kind} (hb : Blanks b)
    (h : ts.map Token.kind = b ++ .delim ')' :: us) :
    ∃ r, closeArgument ts = .ok r ∧ r.1.map Token.kind = us := by
  obtain ⟨r, hr, hus⟩ := delim_eq_ok .closingParenthesis (skipBlank_kinds _ hb (by simp) h)
  refine ⟨(skipBlank ts).tail r, ?_, hus⟩
  rw [closeArgument, hr]
  rfl

/-- Behind white space a compound has ended, if what follows cannot continue it. -/
theorem endsCompound_of_blanks {b us : List Kind} (hb : Blanks b) (hus : endsCompound us) :
    endsCompound (b ++ us) := by
  cases b with
  | nil => exact hus
  | cons k b =>
      rw [hb k List.mem_cons_self]
      rfl

/-- White space starts no simple selector. -/
theorem head_ne_blank_of_startsSimple {us : List Kind} (h : startsSimple us) :
    us.head? ≠ some .blank := by
  match us, h with
  | .hash _ :: _, _ | .delim _ :: _, _ => simp

/-- What does not start a simple selector is left. -/
theorem simples_of_not_starts {ts : List Token}
    (h : ∀ t ∈ ts.head?, startsSimple [t.kind] = false) : simples ts = .ok ([], .all ts) := by
  rw [simples]
  · rfl
  · rintro name p r rfl
    cases h _ rfl
  · rintro p r rfl
    cases h _ rfl
  · rintro p r rfl
    cases h _ rfl
  · rintro p q r rfl
    cases h _ rfl
  · rintro p r rfl
    cases h _ rfl

/-- What ends a compound starts no simple selector. -/
theorem startsSimple_eq_false_of_endsCompound {k : Kind} {us : List Kind}
    (h : endsCompound (k :: us)) : startsSimple [k] = false := by
  cases k with
  | delim c =>
      rw [Bool.eq_false_iff]
      intro hstarts
      obtain rfl | rfl | rfl : c = '.' ∨ c = '[' ∨ c = ':' := by
        simpa [startsSimple, or_assoc] using hstarts
      all_goals cases h
  | hash => cases h
  | ident | string | number | blank => rfl

/-- Simple selectors are read as long as there are any. -/
theorem simples_reads {ks : List Kind} {ss : List Simple} (hks : SimplesKinds ks ss)
    {ts : List Token} {us : List Kind} (hus : endsCompound us)
    (h : ts.map Token.kind = ks ++ us) : Reads (simples ts) ss us := by
  induction hks generalizing ts us with
  | nil =>
      rw [List.nil_append] at h
      rw [simples_of_not_starts]
      · exact .ok h
      · intro t ht
        obtain ⟨r, rfl⟩ := List.head?_eq_some_iff.mp ht
        rw [← h, List.map_cons] at hus
        exact startsSimple_eq_false_of_endsCompound hus
  | id name more ih =>
      obtain ⟨p, r, rfl, hr⟩ := exists_cons_of_map_kind h
      obtain ⟨rest, hrest, hkinds⟩ := ih hus hr
      rw [simples]
      exact .bind hrest (.ok hkinds)
  | ofClass name more ih =>
      obtain ⟨p, r, rfl, hr⟩ := exists_cons_of_map_kind h
      obtain ⟨r₁, hr₁, h₁⟩ := ident_reads .className hr
      obtain ⟨rest, hrest, hkinds⟩ := ih hus h₁
      rw [simples]
      exact .bind hr₁ (.bind hrest (.ok hkinds))
  | attr ha more ih =>
      obtain ⟨p, r, rfl, hr⟩ := exists_cons_of_map_kind h
      obtain ⟨r₁, hr₁, h₁⟩ := attributeTest_reads ha (by simpa using hr)
      obtain ⟨rest, hrest, hkinds⟩ := ih hus h₁
      rw [simples]
      exact .bind hr₁ (.bind hrest (.ok hkinds))
  | @pseudo ks ss name p hp more ih =>
      obtain ⟨_, r, rfl, hr⟩ := exists_cons_of_map_kind h
      obtain ⟨r₁, hr₁, h₁⟩ := ident_reads .pseudoClassName hr
      have hopen := openArgument_none (startsSimple_or_endsCompound more hus) h₁
      obtain ⟨rest, hrest, hkinds⟩ := ih hus h₁
      rw [simples]
      · refine .bind hr₁ ?_
        simp only
        rw [hopen]
        simp only [Bool.false_eq_true, if_false]
        rw [Pseudo.ofName?_eq_some_iff.mpr hp]
        exact .bind rfl (.bind hrest (.ok hkinds))
      · -- Behind the colon stands a name and no second colon.
        rintro _ _ rfl
        cases hr
  | @contains b₁ b₂ ks ss name text k hname hb₁ htext hb₂ more ih =>
      obtain ⟨_, r, rfl, hr⟩ := exists_cons_of_map_kind h
      obtain ⟨r₁, hr₁, h₁⟩ := ident_reads .pseudoClassName hr
      have hk : k ≠ .blank := by cases htext <;> simp
      obtain ⟨r₂, hopen, h₂⟩ := openArgument_eq (k :: (b₂ ++ .delim ')' :: (ks ++ us))) hb₁
        (by simpa using hk) (by simpa using h₁)
      obtain ⟨r₃, hr₃, h₃⟩ := containsText_reads htext h₂
      obtain ⟨r₄, hr₄, h₄⟩ := closeArgument_eq_ok hb₂ h₃
      obtain ⟨rest, hrest, hkinds⟩ := ih hus h₄
      rw [simples]
      · refine .bind hr₁ ?_
        simp only
        rw [hopen, hname, if_pos rfl, if_neg (by decide), if_pos rfl]
        exact .bind hr₃ (.bind hr₄ (.bind rfl (.bind hrest (.ok hkinds))))
      · rintro _ _ rfl
        cases hr
  | @not b₁ es is b₂ ks element inner ss name hname hb₁ helement hinner hne hb₂ more ihinner ih =>
      obtain ⟨_, r, rfl, hr⟩ := exists_cons_of_map_kind h
      obtain ⟨r₁, hr₁, h₁⟩ := ident_reads .pseudoClassName hr
      -- The argument ends like a compound, at the bracket behind it.
      have hclose : endsCompound (b₂ ++ .delim ')' :: (ks ++ us)) := endsCompound_of_blanks hb₂ rfl
      have hsimple : element = none →
          startsSimple (is ++ (b₂ ++ .delim ')' :: (ks ++ us))) :=
        fun hnone => startsSimple_of_ne_nil hinner (hne hnone) _
      have hhead : (es ++ (is ++ (b₂ ++ .delim ')' :: (ks ++ us)))).head? ≠ some .blank := by
        cases helement with
        | none => exact head_ne_blank_of_startsSimple (hsimple rfl)
        | ident | any => simp
      obtain ⟨r₂, hopen, h₂⟩ := openArgument_eq _ hb₁ hhead (by simpa using h₁)
      obtain ⟨r₃, hr₃, h₃⟩ := typeSelector_eq helement hsimple h₂
      obtain ⟨r₄, hr₄, h₄⟩ := ihinner hclose h₃
      obtain ⟨r₅, hr₅, h₅⟩ := closeArgument_eq_ok hb₂ h₄
      obtain ⟨rest, hrest, hkinds⟩ := ih hus h₅
      have hsome : ¬ (element.isNone && inner.isEmpty) = true := by
        cases element with
        | none => simpa using hne rfl
        | some _ => simp
      rw [simples]
      · refine .bind hr₁ ?_
        simp only
        have hr₃' : typeSelector (Tail.of r₁ r₂).1 = (element, r₃) := hr₃
        rw [hopen, hname, if_pos rfl, if_pos rfl]
        simp only
        rw [hr₃']
        refine .bind hr₄ ?_
        simp only
        rw [if_neg hsome]
        exact .bind hr₅ (.bind rfl (.bind hrest (.ok hkinds)))
      · rintro _ _ rfl
        cases hr

/-- Tokens that start with a compound. -/
def startsCompound : List Kind → Bool
  | .ident _ :: _ | .delim '*' :: _ => true
  | us => startsSimple us

/-- A compound starts with a token that only compounds start with. -/
theorem startsCompound_of_kinds {ks : List Kind} {c : Compound} (h : CompoundKinds ks c)
    (us : List Kind) :
    startsCompound (ks ++ us) := by
  cases h with
  | mk helement hsimples hne =>
      cases helement with
      | ident | any => rfl
      | none =>
          have hstart := startsSimple_of_ne_nil hsimples (hne rfl) us
          rw [List.nil_append]
          rw [startsCompound]
          · exact hstart
          · rintro name r heq
            rw [heq] at hstart
            cases hstart
          · rintro r heq
            rw [heq] at hstart
            cases hstart

/-- A compound has a token. -/
theorem CompoundKinds.ne_nil {ks : List Kind} {c : Compound} (h : CompoundKinds ks c) :
    ks ≠ [] := by
  rintro rfl
  exact absurd (startsCompound_of_kinds h []) (by decide)

/-- **A compound is read** where the grammar has one and what follows cannot continue it. -/
theorem compound_reads {ts : List Token} {ks us : List Kind} {c : Compound}
    (expected : Expectation) (hc : CompoundKinds ks c) (hus : endsCompound us)
    (h : ts.map Token.kind = ks ++ us) : Reads (compound expected ts) c us := by
  -- A compound takes tokens, which is how the parser tells one from none.
  have hpos := List.length_pos_iff.mpr hc.ne_nil
  cases hc with
  | @mk es ss element simples helement hsimples hne =>
      have hsimple : element = none → startsSimple (ss ++ us) := fun hnone =>
        startsSimple_of_ne_nil hsimples (hne hnone) us
      obtain ⟨r₁, hr₁, h₁⟩ := typeSelector_eq helement hsimple (by simpa using h)
      obtain ⟨r₂, hr₂, h₂⟩ := simples_reads hsimples hus h₁
      have hlength : r₂.1.length < ts.length := by
        have hr := congrArg List.length h₂
        have hts := congrArg List.length h
        rw [List.length_map] at hr hts
        rw [hr, hts, List.length_append]
        omega
      rw [compound, hr₁]
      refine .bind hr₂ ?_
      show Reads (if h : r₂.1.length < ts.length then _ else _) _ _
      rw [dif_pos hlength]
      exact .ok h₂

/-! ### Chains and lists -/

/-- Tokens that cannot continue a chain: white space, and then a comma or the end. -/
def EndsChain (us : List Kind) : Prop :=
  ∃ b vs, us = b ++ vs ∧ Blanks b ∧ (vs = [] ∨ ∃ ws, vs = .delim ',' :: ws)

/-- Where a chain ends, its last compound ends. -/
theorem EndsChain.endsCompound {us : List Kind} (h : EndsChain us) : endsCompound us := by
  obtain ⟨b, vs, rfl, hb, hvs⟩ := h
  refine endsCompound_of_blanks hb ?_
  rcases hvs with rfl | ⟨ws, rfl⟩ <;> rfl

/-- White space starts no compound. -/
theorem head_ne_blank_of_startsCompound {us : List Kind} (h : startsCompound us) :
    us.head? ≠ some .blank := by
  rintro hblank
  match us, hblank with
  | .blank :: us, _ => cases h

/-- A sign in front makes the combinator that it stands for. -/
theorem combinator?_of_delim {ts t : List Token} {c : Char} {p : Nat} {combinator : Combinator}
    (h : (skipBlank ts).1 = ⟨.delim c, p⟩ :: t) (hc : CombinatorSign c combinator) :
    ∃ r, combinator? ts = some (combinator, r) ∧ r.1 = (skipBlank t).1 := by
  have hcomma : c ≠ ',' := by rintro rfl; cases hc
  rw [combinator?]
  split
  · next heq => rw [h] at heq; cases heq
  · next heq => rw [h] at heq; cases heq; exact absurd rfl hcomma
  · next c' _ t' _ heq =>
    rw [h] at heq
    cases heq
    rw [Combinator.ofChar?_eq_some_iff.mpr hc]
    exact ⟨_, rfl, rfl⟩
  · next hdelim => exact absurd h (hdelim _ _ _)

/-- Before a comma and at the end there is no combinator. -/
theorem combinator?_of_end {ts : List Token}
    (h : ∀ t ∈ (skipBlank ts).1.head?, t.kind = .delim ',') : combinator? ts = none := by
  rw [combinator?]
  split
  · rfl
  · rfl
  · next hcomma heq =>
    rw [heq] at h
    cases h _ rfl
    exact absurd rfl hcomma
  · next hnil hcomma hdelim =>
    cases hskip : (skipBlank ts).1 with
    | nil => exact absurd hskip hnil
    | cons t r =>
        obtain ⟨k, p⟩ := t
        rw [hskip] at h
        cases h _ rfl
        exact absurd hskip (hcomma _ _)

/-- Where neither a comma nor a combinator follows, the white space in front is the
combinator. -/
theorem combinator?_of_other {ts t : List Token} {k : Kind} {p : Nat}
    (h : (skipBlank ts).1 = ⟨k, p⟩ :: t) (hcomma : k ≠ .delim ',')
    (hk : ∀ c, k = .delim c → ∀ combinator, ¬ CombinatorSign c combinator) :
    combinator? ts = if h : (skipBlank ts).1.length < ts.length
      then some (.descendant, ⟨(skipBlank ts).1, h⟩) else none := by
  rw [combinator?]
  split
  · next heq => rw [heq] at h; cases h
  · next heq => rw [heq] at h; cases h; exact absurd rfl hcomma
  · next c _ t _ heq =>
    rw [heq] at h
    cases h
    rw [Combinator.ofChar?_eq_none_iff.mpr (hk c rfl)]
  · rfl

/-- What starts a compound is neither a comma nor a combinator. -/
theorem not_link_of_startsCompound {k : Kind} {us : List Kind} (h : startsCompound (k :: us)) :
    k ≠ .delim ',' ∧ ∀ c, k = .delim c → ∀ combinator, ¬ CombinatorSign c combinator := by
  refine ⟨?_, ?_⟩
  · rintro rfl
    cases h
  · rintro c rfl combinator hc
    cases hc <;> cases h

/-- A combinator is found where the grammar has one, in front of a compound. -/
theorem combinator?_eq {ts : List Token} {cs us : List Kind} {combinator : Combinator}
    (hcs : CombinatorKinds cs combinator) (hus : startsCompound us)
    (h : ts.map Token.kind = cs ++ us) :
    ∃ r, combinator? ts = some (combinator, r) ∧ r.1.map Token.kind = us := by
  have hhead := head_ne_blank_of_startsCompound hus
  cases hcs with
  | descendant hb hne =>
      have hskip := skipBlank_kinds _ hb hhead h
      -- White space alone is a combinator only where there is some.
      have hlength : (skipBlank ts).1.length < ts.length := by
        have hr := congrArg List.length hskip
        have hts := congrArg List.length h
        have hpos := List.length_pos_iff.mpr hne
        rw [List.length_map] at hr hts
        rw [hr, hts, List.length_append]
        omega
      match us, hus, hskip with
      | k :: us, hus, hskip =>
          obtain ⟨p, r, hr, _⟩ := exists_cons_of_map_kind hskip
          obtain ⟨hcomma, hk⟩ := not_link_of_startsCompound hus
          rw [combinator?_of_other hr hcomma hk, dif_pos hlength]
          exact ⟨_, rfl, hskip⟩
  | @other b₁ b₂ c combinator h₁ hc h₂ =>
      have hskip := skipBlank_kinds (.delim c :: (b₂ ++ us)) h₁ (by simp) (by simpa using h)
      obtain ⟨p, t, ht, htk⟩ := exists_cons_of_map_kind hskip
      obtain ⟨r, hr, hrt⟩ := combinator?_of_delim ht hc
      exact ⟨r, hr, hrt ▸ skipBlank_kinds _ h₂ hhead htk⟩

/-- No combinator is found where a chain ends. -/
theorem combinator?_eq_none {ts : List Token} {us : List Kind} (hus : EndsChain us)
    (h : ts.map Token.kind = us) : combinator? ts = none := by
  obtain ⟨b, vs, rfl, hb, hvs⟩ := hus
  have hskip : (skipBlank ts).1.map Token.kind = vs :=
    skipBlank_kinds _ hb (by rcases hvs with rfl | ⟨ws, rfl⟩ <;> simp) h
  refine combinator?_of_end fun t ht => ?_
  obtain ⟨r, hr⟩ := List.head?_eq_some_iff.mp ht
  rw [hr, List.map_cons] at hskip
  rcases hvs with rfl | ⟨ws, rfl⟩
  · cases hskip
  · exact (List.cons.inj hskip).1

/-- Where links stand or the chain ends, the compound in front has ended. -/
theorem endsCompound_of_links {ls us : List Kind} {tail : List (Combinator × Compound)}
    (h : LinksKinds ls tail) (hus : EndsChain us) : endsCompound (ls ++ us) := by
  cases h with
  | nil => exact hus.endsCompound
  | @cons cs ks ls combinator next tail hcs hnext more =>
      cases hcs with
      | descendant hb hne =>
          cases cs with
          | nil => exact absurd rfl hne
          | cons k b =>
              rw [hb k List.mem_cons_self]
              rfl
      | other h₁ hc h₂ =>
          simp only [List.append_assoc]
          rw [← Combinator.ofChar?_eq_some_iff] at hc
          exact endsCompound_of_blanks h₁ (by simp [endsCompound, hc])

/-- The links of a chain are read where the grammar has them. Induction on the derivation. -/
theorem links_reads {ls : List Kind} {tail : List (Combinator × Compound)}
    (h : LinksKinds ls tail) {ts : List Token} {us : List Kind} (hus : EndsChain us)
    (hts : ts.map Token.kind = ls ++ us) : Reads (links ts) tail us := by
  induction h generalizing ts with
  | nil =>
      rw [links, combinator?_eq_none hus hts]
      exact .ok hts
  | @cons cs ks ls combinator next tail hcs hnext more ih =>
      simp only [List.append_assoc] at hts
      obtain ⟨r, hr, hkinds⟩ := combinator?_eq hcs (startsCompound_of_kinds hnext _) hts
      obtain ⟨r₁, hr₁, h₁⟩ := compound_reads .selectorAfterCombinator hnext
        (endsCompound_of_links more hus) hkinds
      obtain ⟨rest, hrest, hlast⟩ := ih h₁
      rw [links, hr]
      exact .bind hr₁ (.bind hrest (.ok hlast))

/-- A chain is read where the grammar has one and what follows ends it. -/
theorem complex_reads {ts : List Token} {cs us : List Kind} {c : Complex}
    (hc : ComplexKinds cs c) (hus : EndsChain us) (h : ts.map Token.kind = cs ++ us) :
    Reads (complex ts) c us := by
  cases hc with
  | mk hhead htail =>
      simp only [List.append_assoc] at h
      obtain ⟨r, hr, h₁⟩ := compound_reads .selector hhead (endsCompound_of_links htail hus) h
      obtain ⟨rest, hrest, h₂⟩ := links_reads htail hus h₁
      exact .bind hr (.bind hrest (.ok h₂))

/-- A chain does not start with white space. -/
theorem head_ne_blank_of_complex {cs us : List Kind} {c : Complex} (h : ComplexKinds cs c) :
    (cs ++ us).head? ≠ some .blank := by
  cases h with
  | mk hhead htail =>
      rw [List.append_assoc]
      exact head_ne_blank_of_startsCompound (startsCompound_of_kinds hhead _)

/-- **What the grammar has, the parser reads.** -/
theorem group_eq_ok {ks : List Kind} {g : Group} (h : GroupKinds ks g) {ts : List Token}
    (hts : ts.map Token.kind = ks) : group ts = .ok g := by
  induction h generalizing ts with
  | @one b₁ cs b₂ c h₁ hc h₂ =>
      have hskip := skipBlank_kinds (cs ++ b₂) h₁ (head_ne_blank_of_complex hc) hts
      obtain ⟨r, hr, hkinds⟩ := complex_reads hc ⟨b₂, [], by simp, h₂, .inl rfl⟩ hskip
      have hend : (skipBlank r.1).1 = [] :=
        List.map_eq_nil_iff.mp (skipBlank_kinds [] h₂ (by simp) (by simpa using hkinds))
      rw [group, hr]
      simp only [bind, Except.bind]
      split
      · rfl
      · next heq => rw [hend] at heq; cases heq
  | @cons b₁ cs b₂ gs c g h₁ hc h₂ more ih =>
      have hskip := skipBlank_kinds (cs ++ (b₂ ++ .delim ',' :: gs)) h₁
        (head_ne_blank_of_complex hc) hts
      obtain ⟨r, hr, hkinds⟩ := complex_reads hc ⟨b₂, _, rfl, h₂, .inr ⟨gs, rfl⟩⟩ hskip
      obtain ⟨p, rest, hrest, hgs⟩ := exists_cons_of_map_kind
        (skipBlank_kinds (.delim ',' :: gs) h₂ (by simp) hkinds)
      rw [group, hr]
      simp only [bind, Except.bind]
      split
      · next heq => rw [hrest] at heq; cases heq
      · next heq =>
        rw [hrest] at heq
        cases heq
        rw [if_pos rfl, ih hgs]
        rfl

end XPathLocator.Css
