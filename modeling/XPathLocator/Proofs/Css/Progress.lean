import Mathlib.Data.List.DropRight
import XPathLocator.Proofs.Css.Walk
import XPathLocator.Proofs.Except

/-!
# `XPathLocator.Proofs.Css.Progress`: the cursor of the parser only moves on

From every cursor the parser comes to an end, with the cursor no earlier than it was and not
behind the last token (`progress`). What has to be shown for this goes together with what the
parser reads, so each function of `Cursor` is compared with the reader for the same part of a
selector, as it is in `Sound`:

* one round of the loop in a compound moves the cursor, or nothing starts at it and the loop is
  left (`simple_steps`). A compound inside `:not` is read behind its colon, so an induction on
  the number of tokens that are left carries `compound_steps`;
* `link_end` and `item_end` are the rounds of the other loops. White space alone may stand
  before the compound of a link, and it is then what moves the cursor.

That a compound is the longest one there (`longest_compound`) is a consequence of how readers
stop: they look at one token and at nothing behind it, and they take every compound that is
all there is.
-/

set_option autoImplicit false

namespace XPathLocator.Css.Cursor

open Token (Kind)

variable {α β : Type} {ts : List Token} {b i j : Nat}

/-! ### Compounds -/

/-- The compound in front; nothing if none starts there. -/
def maybeCompound : Reader (Option Compound) := do
  let element ← Css.element
  let simples ← reader Css.simples
  return compoundOf? element simples

/-- There is no compound exactly if there is neither an element name nor a simple selector. -/
theorem compoundOf?_eq_none_iff (element : Option String) (simples : List Simple) :
    compoundOf? element simples = none ↔ element = none ∧ simples = [] := by
  simp [compoundOf?]

/-- A compound that is required is one that may be there, or else a refusal. -/
theorem compoundReader_eq (expected : Expectation) :
    compoundReader expected = maybeCompound >>= orRefuse expected := by
  rw [compoundReader, maybeCompound]
  simp only [bind_assoc, pure_bind]
  refine bind_congr fun element => bind_congr fun simples => ?_
  rw [compoundOf?]
  split <;> rfl

/-- The argument of `:not` in the same form: a compound that may be there, required, and the closing
bracket. -/
theorem notReader_eq : notReader = maybeCompound >>= fun found =>
    orRefuse .selectorInNot found >>= fun inner =>
      passes closeArgument >>= fun _ => pure (.not inner.element inner.simples) := by
  rw [notReader, compoundReader_eq, bind_assoc]

/-- What a pseudo-class goes on with. -/
def tailReader : PseudoHead → Reader Simple
  | .plain p => pure (.pseudo p)
  | .not => notReader
  | .contains => containsReader

/-- What stands behind the name of a pseudo-class is its opening, and what the opening calls for. -/
theorem argumentReader_eq (name : String) :
    argumentReader name = headReader name >>= tailReader := by
  rw [argumentReader, headReader, bind_assoc]
  refine bind_congr fun opened => ?_
  cases opened with
  | true =>
      simp only [if_true]
      split
      · rfl
      · split <;> rfl
  | false =>
      simp only [Bool.false_eq_true, if_false]
      cases Pseudo.ofName? name <;> rfl

/-- A pseudo-class behind its colon. -/
def pseudoClassReader : Reader Simple :=
  pseudoHeadReader >>= tailReader

/-- A pseudo-class with the simple selectors behind it. -/
theorem simples_pseudoClass (p : Nat) (ts : List Token) :
    reader Css.simples (⟨.delim ':', p⟩ :: ts) = andMore pseudoClassReader ts := by
  by_cases hcolon : ∃ q r, ts = ⟨.delim ':', q⟩ :: r
  · obtain ⟨q, r, rfl⟩ := hcolon
    rw [simples_colons, andMore, pseudoClassReader, Reader.bind_apply, Reader.bind_apply,
      Reader.bind_apply, pseudoHeadReader, Reader.bind_apply]
    cases reader (Css.ident .pseudoElementName) r <;> rfl
  · have hne : ∀ q r, ts ≠ ⟨.delim ':', q⟩ :: r := fun q r h => hcolon ⟨q, r, h⟩
    have hpseudo : pseudoClassReader ts = pseudoReader ts := by
      rw [pseudoClassReader, Reader.bind_apply, pseudoHeadReader_of_ne hne, ← Reader.bind_apply,
        bind_assoc, pseudoReader]
      simp only [argumentReader_eq]
    rw [simples_colon p ts hne, andMore, andMore, Reader.bind_apply, Reader.bind_apply, hpseudo]

/-- The simple selector in front, if one starts there. -/
def simpleReader : Reader (Round Simple)
  | ⟨.hash name, _⟩ :: r => .ok (.more (.id name), r)
  | ⟨.delim c, p⟩ :: r =>
    if c = '.' then
      (reader (Css.ident .className) >>= fun name => pure (.more (.ofClass name)) :
        Reader (Round Simple)) r
    else if c = '[' then
      (reader Css.attributeTest >>= fun s => pure (.more s) : Reader (Round Simple)) r
    else if c = ':' then
      (pseudoClassReader >>= fun s => pure (.more s) : Reader (Round Simple)) r
    else .ok (.leave, ⟨.delim c, p⟩ :: r)
  | ts => .ok (.leave, ts)

/-- A simple selector with others behind it is a round that goes on. -/
theorem andMore_eq (f : Reader Simple) :
    andMore f = (f >>= fun s => pure (.more s)) >>= goOn (reader Css.simples) := by
  rw [andMore, bind_assoc]
  rfl

/-- Simple selectors are read in rounds. -/
theorem simples_eq (ts : List Token) :
    reader Css.simples ts = (simpleReader >>= goOn (reader Css.simples)) ts := by
  -- Tokens with which no simple selector starts are left.
  have hleave (h : ∀ t ∈ ts.head?, startsSimple [t.kind] = false)
      (hsimple : simpleReader ts = .ok (.leave, ts)) :
      reader Css.simples ts = (simpleReader >>= goOn (reader Css.simples)) ts := by
    rw [simples_nothing ts h, Reader.bind_apply, hsimple]
    rfl
  cases ts with
  | nil => exact hleave (by simp) rfl
  | cons t r =>
      obtain ⟨k, p⟩ := t
      cases k with
      | hash name =>
          rw [simples_hash, andMore_eq]
          rfl
      | delim c =>
          rw [Reader.bind_apply, simpleReader]
          by_cases hclass : c = '.'
          · subst hclass
            rw [if_pos rfl, ← Reader.bind_apply, simples_class, andMore_eq]
            simp only [bind_assoc, pure_bind]
          by_cases hattr : c = '['
          · subst hattr
            rw [if_neg hclass, if_pos rfl, ← Reader.bind_apply, simples_attr, andMore_eq]
          by_cases hcolon : c = ':'
          · subst hcolon
            rw [if_neg hclass, if_neg hattr, if_pos rfl, ← Reader.bind_apply,
              simples_pseudoClass, andMore_eq]
          · rw [if_neg hclass, if_neg hattr, if_neg hcolon, simples_nothing]
            · rfl
            · simp [startsSimple, hclass, hattr, hcolon]
      | _ => exact hleave (by simp [startsSimple]) rfl

/-! ### Walks over compounds -/

section
variable {inner inner' : Walk (Option Compound)} {n : Nat}

/-- A pseudo-class is walked over as it is read, if the compound in its argument is. -/
theorem pseudoClass_yields (hi : Within ts b i)
    (hinner : ∀ k, i ≤ k → k ≤ ts.length → Yields ts b inner k (maybeCompound (ts.drop k))) :
    Yields ts b (pseudoClass ts inner) i (pseudoClassReader (ts.drop i)) := by
  refine .bind hi (pseudoHead_yields hi) fun h j hends hj => ?_
  cases h with
  | plain p => exact .pure _ hj
  | not =>
      rw [tailReader, notReader_eq]
      exact .bind hj (hinner j hends.le hends.le_length) fun found k _ hk =>
        .bind hk (required_yields _ found hk) fun c l _ hl => .map _ hl (close_yields hl)
  | contains =>
      rw [tailReader, containsReader]
      exact .bind hj (containsText_yields hj) fun text k _ hk => .map _ hk (close_yields hk)

/-- **One round of the loop in a compound.** It reads a simple selector and moves, or it finds none
and stays. The compound in an argument stands further on than the round starts. -/
theorem simple_steps (hi : Within ts b i)
    (hinner : ∀ k, i < k → k ≤ ts.length → Yields ts b inner k (maybeCompound (ts.drop k))) :
    Steps ts b .leave (simple ts inner) i (simpleReader (ts.drop i)) := by
  refine .peek hi (fun h => ?_) fun t ht hdrop => ?_
  · show Steps ts b (.leave : Round Simple) _ i (.ok (.leave, []))
    rw [← h]
    exact .pure hi
  · have hi' : Within ts b (i + 1) := hi.of_le (Nat.le_succ i) ht
    obtain ⟨k, p⟩ := t
    cases k with
    | hash name => exact .advance_pure (by simp) hi'
    | delim c =>
        simp only [Option.map_some, simpleReader]
        by_cases hclass : c = '.'
        · rw [if_pos hclass, if_pos hclass]
          exact .advance_map (by simp) hi' (ident_yields _ hi')
        by_cases hattr : c = '['
        · rw [if_neg hclass, if_neg hclass, if_pos hattr, if_pos hattr]
          exact .advance_map (by simp) hi' (attributeTest_yields hi')
        by_cases hcolon : c = ':'
        · rw [if_neg hclass, if_neg hclass, if_neg hattr, if_neg hattr, if_pos hcolon,
            if_pos hcolon]
          exact .advance_map (by simp) hi' (pseudoClass_yields hi' hinner)
        · rw [if_neg hclass, if_neg hclass, if_neg hattr, if_neg hattr, if_neg hcolon,
            if_neg hcolon, ← hdrop]
          exact .pure hi
    | _ =>
        simp only [simpleReader]
        rw [← hdrop]
        exact .pure hi

/-- Where neither a name nor an asterisk stands, there is no element name. -/
theorem element_of_ne {t : Token} (hident : ∀ name, t.kind ≠ .ident name)
    (hany : t.kind ≠ .delim '*') (r : List Token) : Css.element (t :: r) = .ok (none, t :: r) := by
  rw [Css.element, typeSelector]
  · rfl
  · rintro name p r' h
    cases h
    exact hident name rfl
  · rintro p r' h
    cases h
    exact hany rfl

/-- An element name is walked over, or the cursor stays where none is. -/
theorem element_steps (hi : Within ts b i) :
    Steps ts b none (element ts) i (Css.element (ts.drop i)) := by
  refine .peek hi (fun h => ?_) fun t ht hdrop => ?_
  · show Steps ts b none _ i (.ok (none, []))
    rw [← h]
    exact .pure hi
  · have hi' : Within ts b (i + 1) := hi.of_le (Nat.le_succ i) ht
    obtain ⟨k, p⟩ := t
    cases k with
    | ident name => exact .advance_pure (by simp) hi'
    | delim c =>
        by_cases hc : c = '*'
        · subst hc
          exact .advance_pure (by simp) hi'
        · rw [element_of_ne (by simp) (by simpa using hc), ← hdrop]
          simp only [Option.map_some, if_neg hc]
          exact .pure hi
    | _ =>
        rw [element_of_ne (by simp) (by simp), ← hdrop]
        exact .pure hi

/-- A compound is walked over, or the cursor stays where none starts, if the compounds in arguments
are walked over further on. -/
theorem compoundWith_steps (hi : Within ts b i)
    (hinner : ∀ k, i < k → k ≤ ts.length → Yields ts b inner k (maybeCompound (ts.drop k))) :
    Steps ts b none (compoundWith ts inner) i (maybeCompound (ts.drop i)) :=
  .both compoundOf?_eq_none_iff (element_steps hi) fun _ hij hj =>
    .loop simples_eq (hi.of_le hij hj) fun _ hjk hk =>
      simple_steps (hi.of_le (hij.trans hjk) hk) fun l hl => hinner l ((hij.trans hjk).trans_lt hl)

/-- A pseudo-class reads a compound at most once, where the argument of `:not` starts. -/
theorem pseudoClass_congr
    (h : ∀ k, pseudoHead ts n i = some (.ok .not, k) → inner n k = inner' n k) :
    pseudoClass ts inner n i = pseudoClass ts inner' n i := by
  refine Walk.bind_congr fun head k hk => ?_
  cases head with
  | not => exact bind_congr_left _ (h k hk)
  | _ => rfl

/-- Of the walk over an inner compound, only what it does behind an opened `:not` counts. -/
theorem simple_congr (h : ∀ k, i < ts.length → pseudoHead ts n (i + 1) = some (.ok .not, k) →
      inner n k = inner' n k) : simple ts inner n i = simple ts inner' n i := by
  refine Walk.bind_congr fun t k hk => ?_
  obtain ⟨rfl, rfl⟩ : ts[i]? = t ∧ i = k := by
    cases hk
    exact ⟨rfl, rfl⟩
  cases ht : ts[i]? with
  | none => rfl
  | some t =>
      have hi : i < ts.length := (List.getElem?_eq_some_iff.mp ht).1
      simp only [Option.map_some]
      cases t.kind with
      | delim c =>
          simp only
          split
          · rfl
          split
          · rfl
          split
          · exact bind_congr_left _ (pseudoClass_congr fun k hk => h k hi hk)
          · rfl
      | _ => rfl

/-- Of the walk over inner compounds, only what it does under the present limit counts. -/
theorem compoundWith_congr (h : inner n = inner' n) :
    compoundWith ts inner n = compoundWith ts inner' n := by
  have hround : simple ts inner n = simple ts inner' n :=
    funext fun i => simple_congr fun k _ _ => congrFun h k
  show (element ts n >>= fun element => rounds (simple ts inner n) n >>= _) = _
  rw [hround]
  rfl

end

/-- Each compound inside of another one is read with a limit that is lower by one. -/
theorem compound_eq (ts : List Token) :
    compound ts = compoundWith ts (deeper (compound ts)) := by
  funext n
  cases n <;> exact compoundWith_congr rfl

/-- **A compound is walked over, or the cursor stays where none starts.** Induction on the bound for
the tokens that are left, since the compound in an argument stands behind at least one of them. -/
theorem compound_steps (hi : Within ts b i) :
    Steps ts b none (compound ts) i (maybeCompound (ts.drop i)) := by
  -- A compound in `:not` stands behind the cursor, so fewer tokens are left where it starts,
  -- and none can be there if no token is left.
  induction b generalizing i with
  | zero =>
      have hlength := hi.length_le
      rw [compound_eq]
      exact compoundWith_steps hi fun k hik hk => by omega
  | succ b ih =>
      have hlength := hi.length_le
      rw [compound_eq]
      exact compoundWith_steps hi fun k hik hk => (ih ⟨hk, by omega⟩).yields.deeper

/-- The compound in an argument is walked over one call deeper, where one token less is left. -/
theorem deeper_yields (hi : Within ts b i) (hij : i < j) (hj : j ≤ ts.length) :
    Yields ts b (deeper (compound ts)) j (maybeCompound (ts.drop j)) := by
  have hlength := hi.length_le
  cases b with
  | zero => omega
  | succ b => exact (compound_steps ⟨hj, by omega⟩).yields.deeper

/-- The rounds of a loop that never moves the cursor back do not depend on what a round would
do before it. -/
theorem rounds_congr {r r' : Moves (Round α)} (hi : i ≤ ts.length)
    (hagree : ∀ j, i ≤ j → j ≤ ts.length → r j = r' j)
    (hforward : ∀ j, i ≤ j → j ≤ ts.length →
      ∀ x k, r j = some (x, k) → j ≤ k ∧ k ≤ ts.length) (n : Nat) :
    rounds r n i = rounds r' n i := by
  have hfirst := hagree i (Nat.le_refl i) hi
  induction n generalizing i with
  | zero =>
      rw [rounds, rounds]
      exact bind_congr_left _ hfirst
  | succ n ih =>
      rw [rounds, rounds]
      refine (bind_congr_right fun x k hk => ?_).trans (bind_congr_left _ hfirst)
      cases x with
      | more a =>
          obtain ⟨hik, hk⟩ := hforward i (Nat.le_refl i) hi _ k hk
          exact bind_congr_left _ (ih hk (fun j hj => hagree j (hik.trans hj))
            (fun j hj => hforward j (hik.trans hj)) (hagree k hik hk))
      | _ => rfl

/-- To read a compound, it is enough to know how those behind its start are read. -/
theorem compoundWith_eq {inner : Walk (Option Compound)} {n : Nat} (hi : Within ts n i)
    (h : ∀ k, i < k → k ≤ ts.length → inner n k = deeper (compound ts) n k) :
    compoundWith ts inner n i = compound ts n i := by
  rw [compound_eq]
  refine bind_congr_right fun element j hj => ?_
  obtain ⟨hij, hj⟩ := (element_steps hi).yields.le_of_eq_some hj
  refine bind_congr_left _ (rounds_congr hj (fun k hjk hk => ?_) (fun k hjk hk x l hl => ?_) n).symm
  · refine simple_congr fun l hlt hl => (h l ?_ ?_).symm
    all_goals
      have hlater := (pseudoHead_yields (hi.of_le (by omega) hlt)).le_of_eq_some hl
      omega
  · exact (simple_steps (hi.of_le (hij.trans hjk) hk) fun m hm hm' =>
      deeper_yields hi (by omega) hm').yields.le_of_eq_some hl

/-- The compound that has to stand at the cursor. -/
theorem compound_yields (expected : Expectation) (hi : Within ts b i) :
    Yields ts b (compound ts >>= required ts expected) i
      (reader (Css.compound expected) (ts.drop i)) := by
  rw [reader_compound, compoundReader_eq]
  exact .bind hi (compound_steps hi).yields fun found _ _ hj => required_yields _ found hj

/-! ### Chains -/

/-- The combinator in front, perhaps behind white space. -/
def behindBlanks (blank : Bool) : Reader (Option Combinator)
  | [] => .ok (none, [])
  | t :: r =>
    if t.kind = .delim ',' then .ok (none, t :: r)
    else match combinatorOf? t.kind with
      | some c => (Css.blanks >>= fun _ => pure (some c) : Reader (Option Combinator)) r
      | none => .ok (if blank then some .descendant else none, t :: r)

/-- A combinator is looked for behind white space. -/
theorem combinator_eq : Css.combinator = skips >>= behindBlanks := by
  funext ts
  rw [Reader.bind_apply, skips]
  show _ = behindBlanks (decide ((skipBlank ts).1.length < ts.length)) (skipBlank ts).1
  -- Whether there was white space is a comparison of lengths on one side, and an answer on the
  -- other.
  cases hskip : (skipBlank ts).1 with
  | nil =>
      rw [Css.combinator, combinator?_of_end (by simp [hskip]), hskip]
      rfl
  | cons t r =>
      obtain ⟨k, p⟩ := t
      rw [behindBlanks, Css.combinator]
      by_cases hcomma : k = .delim ','
      · rw [combinator?_of_end (by simp [hskip, hcomma]), hskip, if_pos hcomma]
      rw [if_neg hcomma]
      cases hk : combinatorOf? k with
      | some x =>
          obtain ⟨c, rfl, hc⟩ : ∃ c, k = .delim c ∧ Combinator.ofChar? c = some x := by
            cases k with
            | delim c => exact ⟨c, rfl, hk⟩
            | _ => cases hk
          obtain ⟨r', hr, hr'⟩ :=
            combinator?_of_delim hskip (Combinator.ofChar?_eq_some_iff.mp hc)
          rw [hr]
          exact congrArg (fun l => Except.ok (some x, l)) hr'
      | none =>
          have hnone : ∀ c, k = .delim c → ∀ x, ¬ CombinatorSign c x := by
            rintro c rfl
            exact Combinator.ofChar?_eq_none_iff.mp hk
          rw [combinator?_of_other hskip hcomma hnone, ← hskip]
          by_cases hlength : (skipBlank ts).1.length < ts.length
          · rw [dif_pos hlength, if_pos (decide_eq_true hlength)]
          · rw [dif_neg hlength, if_neg (by simpa using hlength)]

/-- A combinator is walked over as it is read. -/
theorem combinator_yields (hi : Within ts b i) :
    Yields ts b (combinator ts) i (Css.combinator (ts.drop i)) := by
  rw [combinator_eq]
  refine .bind hi (skipBlanks_yields hi) fun blank j _ hj =>
    .peek hj (fun h => ?_) fun t ht hdrop => ?_
  · show Yields ts b _ j (.ok (none, []))
    rw [← h]
    exact .pure _ hj
  · simp only [behindBlanks]
    by_cases hcomma : t.kind = .delim ','
    · rw [if_pos hcomma, if_pos hcomma, ← hdrop]
      exact .pure _ hj
    rw [if_neg hcomma, if_neg hcomma]
    cases combinatorOf? t.kind with
    | some c =>
        have hj' : Within ts b (j + 1) := hj.of_le (Nat.le_succ j) ht
        exact .advance (.blanks hj' fun _ k _ hk => .pure _ hk)
    | none =>
        rw [← hdrop]
        exact .pure _ hj

/-- A link in front of a chain, if there is one. -/
def linkReader : Reader (Round (Combinator × Compound)) := do
  match ← Css.combinator with
  | some c =>
    let next ← reader (Css.compound .selectorAfterCombinator)
    return .more (c, next)
  | none => return .leave

/-- Links are read in rounds. -/
theorem linksReader_rounds (ts : List Token) :
    linksReader ts = (linkReader >>= goOn linksReader) ts := by
  rw [linksReader_apply, linkReader, bind_assoc]
  refine congrFun (bind_congr fun c => ?_) ts
  cases c with
  | some c =>
      simp only [bind_assoc, pure_bind]
      rfl
  | none => rfl

/-- Fewer tokens are left where the cursor has moved on. -/
theorem lt_of_length_drop_lt (h : (ts.drop j).length < (ts.drop i).length) : i < j := by
  rw [List.length_drop, List.length_drop] at h
  omega

/-- A combinator takes tokens. -/
theorem length_combinator_lt {l r : List Token} {c : Combinator}
    (h : Css.combinator l = .ok (some c, r)) : r.length < l.length := by
  rw [Css.combinator] at h
  cases hc : combinator? l with
  | none =>
      rw [hc] at h
      cases h
  | some x =>
      rw [hc] at h
      cases h
      exact x.2.2

/-- A round of the loop over a chain moves the cursor, except for the one that leaves the
loop. -/
theorem link_end (hi : Within ts b i) :
    ∃ x k, Ends ts b (link ts) i x k ∧ (linkReader (ts.drop i) = x.map fun r => (r, ts.drop k)) ∧
      (x ≠ .ok .leave → i < k) := by
  obtain ⟨x, j, hends, hout⟩ := combinator_yields hi
  cases x with
  | error e =>
      rw [Css.combinator] at hout
      cases hc : combinator? (ts.drop i) <;> rw [hc] at hout <;> cases hout
  | ok c =>
      rw [linkReader, Reader.bind_apply, hout]
      cases c with
      | none =>
          refine ⟨.ok .leave, j, hends.bind ⟨fun _ _ => rfl, Nat.le_refl j, hends.le_length⟩, rfl,
            fun h => absurd rfl h⟩
      | some c =>
          have hlt : i < j := lt_of_length_drop_lt (length_combinator_lt hout)
          have hnext := Yields.map (fun next => Round.more (c, next)) (hends.within hi)
            (compound_yields .selectorAfterCombinator (hends.within hi))
          rw [bind_assoc] at hnext
          obtain ⟨y, k, hendsy, houty⟩ := hnext
          exact ⟨y, k, hends.bind hendsy, houty, fun _ => hlt.trans_le hendsy.le⟩

/-- A link moves the cursor, since it has a compound. -/
theorem link_turns (hi : Within ts b i) : Turns ts b (link ts) i (linkReader (ts.drop i)) := by
  obtain ⟨x, j, hends, hout, hmoves⟩ := link_end hi
  exact ⟨x, j, hends, hout, fun a ha => hmoves (by simp [ha])⟩

/-- A chain and the white space behind it. -/
def complexReader : Reader Complex := do
  let head ← reader (Css.compound .selector)
  let tail ← linksReader
  return ⟨head, tail⟩

/-- A chain is walked over as it is read, with the white space behind it. -/
theorem complex_yields (hi : Within ts b i) :
    Yields ts b (complex ts) i (complexReader (ts.drop i)) := by
  rw [complexReader, reader_compound, compoundReader_eq, bind_assoc]
  exact .bind hi (compound_steps hi).yields fun found j _ hj =>
    .bind hj (required_yields _ found hj) fun head k _ hk =>
      .map _ hk (.loop linksReader_rounds hk fun l hkl hl => link_turns (hk.of_le hkl hl))

/-- A chain is read by the parser, and then the white space behind it. -/
theorem complexReader_eq :
    complexReader = reader Css.complex >>= fun c => Css.blanks >>= fun _ => pure c := by
  funext ts
  rw [complexReader, reader_bind, reader_bind, Css.complex, bind_assoc]
  refine bind_congr ?_
  rintro ⟨head, r⟩
  simp only
  rw [Reader.bind_apply, linksReader_eq, bind_assoc, bind_assoc]
  refine bind_congr ?_
  rintro ⟨tail, rest⟩
  rfl

/-- A chain takes a token at least, that of its first compound. -/
theorem length_complexReader_lt {l r : List Token} {c : Complex}
    (h : complexReader l = .ok (c, r)) : r.length < l.length := by
  rw [complexReader_eq, reader_bind] at h
  obtain ⟨⟨c', r'⟩, -, hr⟩ := exists_of_bind_eq_ok h
  cases hr
  exact (skipBlank r'.1).2.trans_lt r'.2

/-! ### Lists -/

/-- The end of a list, or a comma. -/
def itemEnd (c : Complex) : Reader (Round Complex)
  | [] => .ok (.last c, [])
  | t :: r => if t.kind = .delim ',' then .ok (.more c, r) else unexpected (t :: r) .commaOrEnd

/-- A chain in a list, and whether it is the last one. -/
def itemReader : Reader (Round Complex) := do
  Css.blanks
  let c ← complexReader
  Css.blanks
  itemEnd c

/-- White space is passed over once and for all. -/
theorem blanks_blanks (f : Reader α) :
    (Css.blanks >>= fun _ => Css.blanks >>= fun _ => f) = Css.blanks >>= fun _ => f := by
  funext ts
  rw [blanks_bind, blanks_bind, blanks_bind]
  exact congrArg f (List.dropWhile_idempotent _ ts)

/-- What ends an item of a list, with the rounds behind it, is what ends a list. -/
theorem itemEnd_goOn (c : Complex) : itemEnd c >>= goOn groupReader = groupEnd c := by
  funext ts
  rw [Reader.bind_apply]
  cases ts with
  | nil => rfl
  | cons t r =>
      rw [itemEnd, groupEnd]
      split
      · rfl
      · exact unexpected_bind _ _ _

/-- A list is read in rounds, one for each chain. -/
theorem groupReader_rounds (ts : List Token) :
    groupReader ts = (itemReader >>= goOn groupReader) ts := by
  have hchain : chainReader = Css.blanks >>= fun _ => complexReader := rfl
  calc groupReader ts = (chainReader >>= groupEnd) ts := congrFun groupReader_eq ts
    _ = (itemReader >>= goOn groupReader) ts := by
      rw [itemReader, hchain, complexReader_eq]
      simp only [bind_assoc, pure_bind, blanks_blanks, itemEnd_goOn]

/-- An item of a list takes a token at least. -/
theorem length_itemReader_lt {l r : List Token} {x : Round Complex}
    (h : itemReader l = .ok (x, r)) : r.length < l.length := by
  rw [itemReader, blanks_bind, Reader.bind_apply] at h
  obtain ⟨⟨c, l'⟩, hc, hend⟩ := exists_of_bind_eq_ok h
  rw [blanks_bind] at hend
  -- The chain takes a token, and white space on either side does not give it back.
  have hlength := length_complexReader_lt hc
  have hl := (skipBlank l).2
  have hl' := (skipBlank l').2
  cases hskip : (skipBlank l').1 with
  | nil =>
      rw [hskip] at hend
      cases hend
      exact (Nat.zero_le _).trans_lt (hlength.trans_le hl)
  | cons t r' =>
      rw [hskip, List.length_cons] at hl'
      rw [hskip, itemEnd] at hend
      split at hend
      · cases hend
        omega
      · exact absurd hend unexpected_ne_ok

/-- A round of the loop over a list moves the cursor, unless it ends with an error. -/
theorem item_end (hi : Within ts b i) :
    ∃ x k, Ends ts b (item ts) i x k ∧ (itemReader (ts.drop i) = x.map fun r => (r, ts.drop k)) ∧
      ∀ r, x = .ok r → i < k := by
  have hitem : Yields ts b (item ts) i (itemReader (ts.drop i)) := by
    refine .blanks hi fun _ j _ hj => .bind hj (complex_yields hj) fun c k _ hk =>
      .blanks hk fun _ l _ hl => .next hl (fun h => ?_) fun t ht => ?_
    · show Yields ts b _ l (.ok (Round.last c, []))
      rw [← h]
      exact .pure _ hl
    · have hl' : Within ts b (l + 1) := hl.of_le (Nat.le_succ l) ht
      rw [itemEnd]
      by_cases hcomma : t.kind = .delim ','
      · simp only [if_pos hcomma]
        exact .pure _ hl'
      · simp only [if_neg hcomma]
        exact .refuse (t :: ts.drop (l + 1)) _ hl'
  obtain ⟨x, k, hends, hout⟩ := hitem
  exact ⟨x, k, hends, hout, fun r hr =>
    lt_of_length_drop_lt (length_itemReader_lt (hout.trans (congrArg _ hr)))⟩

/-- A list is walked over as it is read. -/
theorem group_yields (hi : Within ts b i) :
    Yields ts b (group ts) i (groupReader (ts.drop i)) := by
  refine .loop groupReader_rounds hi fun j hij hj => ?_
  obtain ⟨x, k, hends, hout, hmoves⟩ := item_end (hi.of_le hij hj)
  exact ⟨x, k, hends, hout, fun a => hmoves (.more a)⟩

/-! ### The longest compound -/

/-- The kinds of the tokens from `i` on and before `j`. -/
def between (ts : List Token) (i j : Nat) : List Kind :=
  ((ts.drop i).take (j - i)).map Token.kind

/-- Where no compound is, the first token is reason enough. -/
theorem maybeCompound_eq_none {l r : List Token} (h : maybeCompound l = .ok (none, r))
    {us : List Token} (hus : us.head? = l.head?) : maybeCompound us = .ok (none, us) := by
  obtain ⟨p, r₁, element, rfl, helement⟩ := element_total l
  rw [maybeCompound, Reader.bind_apply, helement.eq_ok r₁ rfl] at h
  obtain ⟨⟨simples, r₂⟩, hsimples, h⟩ := exists_of_bind_eq_ok (x := reader Css.simples r₁) h
  have hnone : compoundOf? element simples = none := (Prod.mk.inj (Except.ok.inj h)).1
  obtain ⟨rfl, rfl⟩ := (compoundOf?_eq_none_iff element simples).mp hnone
  obtain ⟨q, rfl, hq⟩ := (simples_predicts r₁).exists_takes hsimples
  obtain rfl : p = [] := List.map_eq_nil_iff.mp (helement.part.isNone_iff.mp rfl)
  obtain rfl : q = [] := List.map_eq_nil_iff.mp (hq.part.isEmpty_iff.mp rfl)
  rw [maybeCompound, Reader.bind_apply]
  have helement' := helement.eq_ok us hus
  have hsimples' := hq.eq_ok us hus
  rw [List.nil_append] at helement' hsimples'
  rw [helement']
  show (reader Css.simples >>= fun simples => pure (compoundOf? none simples)) us = _
  rw [Reader.bind_apply, hsimples']
  rfl

/-- The parser takes all of the tokens of a compound, if nothing is behind them. -/
theorem reader_compound_eq_ok {l : List Token} {c : Compound} (expected : Expectation)
    (h : CompoundKinds (l.map Token.kind) c) : reader (Css.compound expected) l = .ok (c, []) := by
  obtain ⟨r, hr, hnil⟩ := compound_reads expected h rfl (List.append_nil _).symm
  rw [reader, hr]
  exact congrArg (fun l => Except.ok (c, l)) (List.map_eq_nil_iff.mp hnil)

/-- No tokens behind the cursor make a compound if none starts there. -/
theorem not_compoundKinds (h : maybeCompound (ts.drop i) = .ok (none, ts.drop i)) (k : Nat)
    (c : Compound) : ¬ CompoundKinds (between ts i k) c := by
  intro hc
  have hread := reader_compound_eq_ok .selector hc
  have hk : k - i ≠ 0 := by
    intro hk
    exact hc.ne_nil (by simp [between, hk])
  have hhead : ((ts.drop i).take (k - i)).head? = (ts.drop i).head? := by
    rw [List.head?_take, if_neg hk]
  rw [reader_compound, compoundReader_eq, Reader.bind_apply, maybeCompound_eq_none h hhead] at hread
  exact unexpected_ne_ok hread

/-- The tokens that were read make a compound, and it is the longest one there. -/
theorem longest_compound {c : Compound} {expected : Expectation} (hij : i ≤ j) (hj : j ≤ ts.length)
    (h : reader (Css.compound expected) (ts.drop i) = .ok (c, ts.drop j)) :
    CompoundKinds (between ts i j) c ∧
      ∀ k c', k ≤ ts.length → CompoundKinds (between ts i k) c' → k ≤ j := by
  obtain ⟨p, hp, htakes⟩ := (compound_predicts expected (ts.drop i)).exists_takes h
  have hlength : p.length = j - i := by
    have hlength := congrArg List.length hp
    rw [List.length_append, List.length_drop, List.length_drop] at hlength
    omega
  have htake : (ts.drop i).take (j - i) = p := by
    rw [hp, ← hlength, List.take_left]
  refine ⟨?_, fun k c' hk hc' => ?_⟩
  · rw [between, htake]
    exact htakes.part
  · -- On a longer run the reader would stop where it did, and yet read all of it.
    by_contra hjk
    have hjk' : k - j ≠ 0 := by omega
    have hsplit : (ts.drop i).take (k - i) = p ++ (ts.drop j).take (k - j) := by
      rw [hp, List.take_append, List.take_of_length_le (by omega), hlength]
      congr 2
      omega
    have hhead : ((ts.drop j).take (k - j)).head? = (ts.drop j).head? := by
      rw [List.head?_take, if_neg hjk']
    have hread := htakes.eq_ok _ hhead
    rw [← hsplit, reader_compound_eq_ok expected hc'] at hread
    have hnil := (Prod.mk.inj (Except.ok.inj hread)).2
    have hempty := congrArg List.length hnil
    rw [List.length_take, List.length_drop, List.length_nil] at hempty
    omega

/-! ### The cursor moves on -/

/-- The compound that was read, as those that call for one see it. -/
theorem reader_compound_of_found {c : Compound} {r : List Token} (expected : Expectation)
    (h : maybeCompound (ts.drop i) = .ok (some c, r)) :
    reader (Css.compound expected) (ts.drop i) = .ok (c, r) := by
  rw [reader_compound, compoundReader_eq, Reader.bind_apply, h]
  rfl

/-- A list ends where the parser ends, and with success only behind the last token. -/
theorem group_end (hi : Within ts b i) :
    ∃ x j, Ends ts b (group ts) i x j ∧ Css.group (ts.drop i) = x ∧
      ∀ g, x = .ok g → j = ts.length := by
  obtain ⟨x, j, hends, hout⟩ := group_yields hi
  refine ⟨x, j, hends, ?_⟩
  rw [groupReader] at hout
  cases hgroup : Css.group (ts.drop i) with
  | error e =>
      rw [hgroup] at hout
      cases x with
      | error e' =>
          cases hout
          exact ⟨rfl, by simp⟩
      | ok g => cases hout
  | ok g =>
      rw [hgroup] at hout
      cases x with
      | error e => cases hout
      | ok g' =>
          obtain ⟨rfl, hnil⟩ := Prod.mk.inj (Except.ok.inj hout)
          exact ⟨rfl, fun _ _ => hends.le_length.antisymm (List.drop_eq_nil_iff.mp hnil.symm)⟩

/-- What becomes of a cursor `i`. Each function ends as soon as its limit is the number of the
tokens that are left, and with what the parser reads from them. -/
structure Progress (ts : List Token) (i : Nat) : Prop where
  /-- The cursor stays where no compound starts. Otherwise it moves to the end of the longest
  compound there. -/
  compound : ∃ x j, Ends ts (ts.length - i) (compound ts) i x j ∧
    (x = .ok none → j = i ∧ ∀ k c, ¬ CompoundKinds (between ts i k) c) ∧
    ∀ c, x = .ok (some c) → i < j ∧ CompoundKinds (between ts i j) c ∧
      ∀ k c', k ≤ ts.length → CompoundKinds (between ts i k) c' → k ≤ j
  /-- If there is no compound, the error is about the token at the cursor. -/
  required (expected : Expectation) :
    Yields ts (ts.length - i) (Cursor.compound ts >>= required ts expected) i
      (reader (Css.compound expected) (ts.drop i))
  attributeTest :
    Yields ts (ts.length - i) (attributeTest ts) i (reader Css.attributeTest (ts.drop i))
  /-- The parser reads a pseudo-class with the simple selectors behind it
  (`simples_pseudoClass`). -/
  pseudoClass :
    Yields ts (ts.length - i) (pseudoClass ts (Cursor.compound ts)) i
      (pseudoClassReader (ts.drop i))
  complex :
    Yields ts (ts.length - i) (complex ts) i
      ((reader Css.complex >>= fun c => Css.blanks >>= fun _ => pure c) (ts.drop i))
  group : ∃ x j, Ends ts (ts.length - i) (group ts) i x j ∧ Css.group (ts.drop i) = x ∧
    ∀ g, x = .ok g → j = ts.length
  /-- A round of the loop in `complex` moves the cursor, except for the one that leaves it. -/
  link : ∃ x j, Ends ts (ts.length - i) (link ts) i x j ∧ (x ≠ .ok .leave → i < j)
  /-- A round of the loop in `group` moves the cursor, unless an error ends it. -/
  item : ∃ x j, Ends ts (ts.length - i) (item ts) i x j ∧ ∀ r, x = .ok r → i < j
  /-- The compounds inside of `:not` are read at later cursors: what `inner` does at others
  does not matter. -/
  nested (n : Nat) (hn : ts.length - i ≤ n) (inner : Walk (Option Compound))
    (h : ∀ k, i < k → k ≤ ts.length → inner n k = deeper (Cursor.compound ts) n k) :
    compoundWith ts inner n i = Cursor.compound ts n i

/-- **The cursor of the parser only moves on**, and so the parser ends. -/
theorem progress (ts : List Token) {i : Nat} (hi : i ≤ ts.length) : Progress ts i := by
  have hw : Within ts (ts.length - i) i := ⟨hi, by omega⟩
  constructor
  case compound =>
      obtain ⟨x, j, hends, hout, hstays, hmoves⟩ := compound_steps hw
      refine ⟨x, j, hends, fun hx => ?_, fun c hx => ?_⟩
      · obtain rfl := hstays hx
        subst hx
        exact ⟨rfl, not_compoundKinds hout⟩
      · -- What is found is as long as it can be, since the reader stops where nothing goes on.
        have hlt : i < j := hmoves (by simp [hx])
        subst hx
        exact ⟨hlt, longest_compound hlt.le hends.le_length
          (reader_compound_of_found .selector hout)⟩
  case required =>
      intro expected
      exact compound_yields expected hw
  case attributeTest => exact attributeTest_yields hw
  case pseudoClass =>
      exact pseudoClass_yields hw fun k hik hk => (compound_steps (hw.of_le hik hk)).yields
  case complex =>
      rw [← complexReader_eq]
      exact complex_yields hw
  case group => exact group_end hw
  case link =>
      obtain ⟨x, j, hends, -, hmoves⟩ := link_end hw
      exact ⟨x, j, hends, hmoves⟩
  case item =>
      obtain ⟨x, j, hends, -, hmoves⟩ := item_end hw
      exact ⟨x, j, hends, hmoves⟩
  case nested =>
      intro n hn inner hinner
      exact compoundWith_eq ⟨hi, by omega⟩ hinner

/-- In `a :not(#b)`, no compound starts at the space, and a link goes from there to the end. -/
theorem progress_negation :
    let ts : List Token := [⟨.ident "a", 0⟩, ⟨.blank, 1⟩, ⟨.delim ':', 2⟩, ⟨.ident "not", 3⟩,
      ⟨.delim '(', 6⟩, ⟨.hash "b", 7⟩, ⟨.delim ')', 9⟩]
    1 ≤ ts.length ∧ Progress ts 1 ∧ compound ts 6 1 = some (.ok none, 1) ∧
      link ts 6 1 =
        some (.ok (.more (.descendant, ⟨none, [.not none [.id "b"]]⟩)), ts.length) := by
  intro ts
  have hi : Within ts 6 1 := ⟨by decide, by decide⟩
  have hcompound : compound ts 6 1 = some (.ok none, 1) := by
    obtain ⟨x, j, hends, hout, hstay, -⟩ := compound_steps hi
    have hread : maybeCompound (ts.drop 1) = .ok (none, ts.drop 1) := by with_unfolding_all rfl
    rw [hread] at hout
    cases x with
    | error e => cases hout
    | ok found =>
        obtain rfl : none = found := congrArg Prod.fst (Except.ok.inj hout)
        rw [hends.eq_some 6 le_rfl, hstay rfl]
  have hlink : link ts 6 1 =
      some (.ok (.more (.descendant, ⟨none, [.not none [.id "b"]]⟩)), ts.length) := by
    obtain ⟨x, j, hends, hout, -⟩ := link_end hi
    have hread : linkReader (ts.drop 1) =
        .ok (.more (.descendant, ⟨none, [.not none [.id "b"]]⟩), []) := by
      with_unfolding_all rfl
    rw [hread] at hout
    cases x with
    | error e => cases hout
    | ok found =>
        obtain ⟨rfl, hdrop⟩ := Prod.mk.inj (Except.ok.inj hout)
        have hj : j = ts.length :=
          Nat.le_antisymm hends.le_length (List.drop_eq_nil_iff.mp hdrop.symm)
        rw [hends.eq_some 6 le_rfl, hj]
  exact ⟨by decide, progress _ (by decide), hcompound, hlink⟩

end XPathLocator.Css.Cursor
