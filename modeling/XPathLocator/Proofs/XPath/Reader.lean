import XPathLocator.Proofs.XPath.Grammar
import XPathLocator.Remainder

/-!
# `XPathLocator.Proofs.XPath.Reader`: a text has one parse tree

The rules of `Derives` overlap: a path could end before a predicate or take it, an
operand before an operator or within it. `read?` is a reader by recursive descent
that decides each case by the next token. It finds whatever the rules derive
(`Derives.completes`), and it is a function, so the rules derive one tree at most
(`Derives.unique`, `Parses.unique`).

The rules go to the left and the reader to the right. `Completes` bridges the two:
it says of a derived part not what the reader gives for its tokens, but that the
reader gets from the start of the part to the goal it has behind it. The theorem
is then one induction over the derivation.

The recursion of `read?` ends because each goal takes a token or passes to a
narrower goal. What was left behind an operand is known to be less only when it
is read, so the reader asks (`shorter`) before it goes on there.
-/

set_option autoImplicit false

namespace XPathLocator.XPath

/-- What the reader looks for, with the tree of what it has read so far. -/
inductive Goal
  | expr (rank : Nat)
  /-- Further operators of this rank. -/
  | more (rank : Nat) (left : Tree)
  | step (base : Tree)
  | predicates (base : Tree) (axis : Axis) (test : NodeTest) (found : List Tree)
  /-- Further steps. -/
  | slashes (path : Tree)
  /-- Predicates and steps behind a primary expression. -/
  | filtered (e : Tree)
  /-- Further arguments, or the end of the call. -/
  | arguments (function : QName) (found : List Tree)

/-- The node test in front. -/
def test? : List Token → Option (NodeTest × List Token)
  | .nameTest test :: r => some (test, r)
  | .nodeType type :: .openParen :: .closeParen :: r => some (.type type, r)
  | .nodeType .instruction :: .openParen :: .literal target :: .closeParen :: r =>
    some (.instruction target, r)
  | _ => none

/-- The axis and the node test in front. -/
def step? : List Token → Option (Axis × NodeTest × List Token)
  | .axis axis :: .doubleColon :: r => (test? r).map (axis, ·)
  | .at :: r => (test? r).map (.attributes, ·)
  | ts => (test? ts).map (.child, ·)

/-- Whether a step starts with this token. -/
def Token.startsStep : Token → Bool
  | .axis _ | .at | .nameTest _ | .nodeType _ | .dot | .doubleDot => true
  | _ => false

/-- What is left behind the given token. -/
def expect (t : Token) : List Token → Option (List Token)
  | [] => none
  | u :: r => if u = t then some r else none

/-- What is left, if it is less than there was. -/
def shorter (ts r : List Token) : Option (Tail ts) :=
  if h : r.length < ts.length then some ⟨r, h⟩ else none

/-- How many goals a goal may pass through before it takes a token. -/
def Goal.depth : Goal → Nat
  | .expr rank => 8 - rank + 3
  | .step _ => 2
  | .predicates _ _ _ _ | .filtered _ => 1
  | .more _ _ | .slashes _ | .arguments _ _ => 0

/-- Reads what the goal asks for, and gives the tree and what is left. -/
def read? (goal : Goal) (ts : List Token) : Option (Tree × List Token) :=
  match goal with
  | .expr n =>
    if n = 6 then
      match ts with
      | .operator .minus :: r => do
        let (a, r) ← read? (.expr 6) r
        return (.negate a, r)
      | ts => read? (.expr 7) ts
    else if n < 8 then do
      let (a, r) ← read? (.expr (n + 1)) ts
      let rest ← shorter ts r
      read? (.more n a) rest.1
    else
      match ts with
      | .slash :: r =>
        if r.head?.any Token.startsStep then read? (.step .root) r else return (.root, r)
      | .doubleSlash :: r => read? (.step (.anyBelow .root)) r
      | .literal v :: r => read? (.filtered (.literal v)) r
      | .number d :: r => read? (.filtered (.number d)) r
      | .reference name :: r => read? (.filtered (.reference name)) r
      | .openParen :: r => do
        let (a, r₁) ← read? (.expr 0) r
        let r₂ ← expect .closeParen r₁
        let rest ← shorter r r₂
        read? (.filtered a) rest.1
      | .function f :: .openParen :: .closeParen :: r => read? (.filtered (.call f [])) r
      | .function f :: .openParen :: r => do
        let (a, r₁) ← read? (.expr 0) r
        let rest ← shorter r r₁
        read? (.arguments f [a]) rest.1
      | ts => read? (.step .context) ts
  | .more n left =>
    match ts with
    | .operator op :: r =>
      if op.rank = n then do
        let (right, r₁) ← read? (.expr (n + 1)) r
        let rest ← shorter r r₁
        read? (.more n (.binary op left right)) rest.1
      else return (left, ts)
    | ts => return (left, ts)
  | .step base =>
    match ts with
    | .dot :: r => read? (.slashes (.step base .self (.type .node) [])) r
    | .doubleDot :: r => read? (.slashes (.step base .parent (.type .node) [])) r
    | ts => do
      let (axis, test, r) ← step? ts
      let rest ← shorter ts r
      read? (.predicates base axis test []) rest.1
  | .predicates base axis test found =>
    match ts with
    | .openBracket :: r => do
      let (p, r₁) ← read? (.expr 0) r
      let r₂ ← expect .closeBracket r₁
      let rest ← shorter r r₂
      read? (.predicates base axis test (found ++ [p])) rest.1
    | ts => read? (.slashes (.step base axis test found)) ts
  | .slashes path =>
    match ts with
    | .slash :: r => read? (.step path) r
    | .doubleSlash :: r => read? (.step (.anyBelow path)) r
    | ts => return (path, ts)
  | .filtered e =>
    match ts with
    | .openBracket :: r => do
      let (p, r₁) ← read? (.expr 0) r
      let r₂ ← expect .closeBracket r₁
      let rest ← shorter r r₂
      read? (.filtered (.filter e p)) rest.1
    | ts => read? (.slashes e) ts
  | .arguments f found =>
    match ts with
    | .comma :: r => do
      let (a, r₁) ← read? (.expr 0) r
      let rest ← shorter r r₁
      read? (.arguments f (found ++ [a])) rest.1
    | .closeParen :: r => read? (.filtered (.call f found)) r
    | _ => none
termination_by (ts.length, goal.depth)
decreasing_by
  all_goals
    simp only [Prod.lex_def, Goal.depth, List.length_cons, true_and]
    omega

/-! ### What the reader does at each goal -/

/-- What stands behind a token is shorter, and the reader sees that it is. -/
theorem shorter_append {ts : List Token} (h : ts ≠ []) (r : List Token) :
    ∃ hr, shorter (ts ++ r) r = some ⟨r, hr⟩ := by
  have hlength : r.length < (ts ++ r).length := by
    have := List.length_pos_iff.mpr h
    rw [List.length_append]
    omega
  exact ⟨hlength, dif_pos hlength⟩

section
variable {n : Nat} {ts r : List Token} {a e : Tree}

/-- At a level of binary operators: the level above reads an operand, and more of this level may
follow. -/
theorem read?_expr_of_lt (hn : n < 8) (h6 : n ≠ 6) (ts : List Token) :
    read? (.expr n) ts
      = (read? (.expr (n + 1)) ts).bind fun p =>
          (shorter ts p.2).bind fun rest => read? (.more n p.1) rest.1 := by
  rw [read?.eq_def]
  show (if n = 6 then _ else if n < 8 then _ else _) = _
  rw [if_neg h6, if_pos hn]
  rfl

/-- A sign in front negates what is read behind it. -/
theorem read?_sign (r : List Token) :
    read? (.expr 6) (.operator .minus :: r)
      = (read? (.expr 6) r).bind fun p => some (.negate p.1, p.2) := by
  rw [read?.eq_def]
  rfl

/-- Without a sign in front there is nothing at its level. -/
theorem read?_unsigned (h : ts.head? ≠ some (.operator .minus)) :
    read? (.expr 6) ts = read? (.expr 7) ts := by
  rw [read?.eq_def]
  show (match ts with | .operator .minus :: _ => _ | _ => _) = _
  split
  · exact absurd rfl h
  · rfl

/-- An operator takes the operand behind it, of a higher level, and its level goes on. -/
theorem read?_more (op : Operator) (left : Tree) (r : List Token) :
    read? (.more op.rank left) (.operator op :: r)
      = (read? (.expr (op.rank + 1)) r).bind fun p =>
          (shorter r p.2).bind fun rest =>
            read? (.more op.rank (.binary op left p.1)) rest.1 := by
  rw [read?.eq_def]
  show (if op.rank = op.rank then _ else _) = _
  rw [if_pos rfl]
  rfl

/-- An operand ends where no operator of its rank follows. -/
theorem read?_more_end (h : ∀ op r, ts = .operator op :: r → op.rank ≠ n) (left : Tree) :
    read? (.more n left) ts = some (left, ts) := by
  rw [read?.eq_def]
  show (match ts with | .operator _ :: _ => _ | _ => _) = _
  split
  · rename_i op r
    rw [if_neg (h op r rfl)]
    rfl
  · rfl

/-- A slash is the root, and the start of a path if a step follows. -/
theorem read?_slash (r : List Token) :
    read? (.expr 8) (.slash :: r)
      = if r.head?.any Token.startsStep then read? (.step .root) r else some (.root, r) := by
  rw [read?.eq_def]
  rfl

/-- A bracket in front holds an expression, and what follows it may filter that. -/
theorem read?_openParen (r : List Token) :
    read? (.expr 8) (.openParen :: r)
      = (read? (.expr 0) r).bind fun p =>
          (expect .closeParen p.2).bind fun r₂ =>
            (shorter r r₂).bind fun rest => read? (.filtered p.1) rest.1 := by
  rw [read?.eq_def]
  rfl

/-- A function with arguments reads the first of them behind its bracket. -/
theorem read?_call (f : QName) (h : r.head? ≠ some .closeParen) :
    read? (.expr 8) (.function f :: .openParen :: r)
      = (read? (.expr 0) r).bind fun p =>
          (shorter r p.2).bind fun rest => read? (.arguments f [p.1]) rest.1 := by
  rw [read?.eq_def]
  cases r with
  | nil => rfl
  | cons t r => cases t <;> first | rfl | exact absurd rfl h

/-- A step in front starts a path from the node in focus. -/
theorem read?_relative (h : ts.head?.any Token.startsStep) :
    read? (.expr 8) ts = read? (.step .context) ts := by
  rw [read?.eq_def]
  cases ts with
  | nil => rfl
  | cons t r => cases t <;> first | rfl | cases h

/-- A step is read with its predicates to come. -/
theorem read?_step {us : List Token} {axis : Axis} {test : NodeTest}
    (h : StepTokens us axis test) (base : Tree) (r : List Token) :
    read? (.step base) (us ++ r) = read? (.predicates base axis test []) r := by
  have hstep : step? (us ++ r) = some (axis, test, r) := by
    cases h with
    | full axis h => cases h <;> rfl
    | short h => cases h <;> rfl
    | bare h => cases h <;> rfl
  have hread : read? (.step base) (us ++ r) = (step? (us ++ r)).bind fun p =>
      (shorter (us ++ r) p.2.2).bind fun rest =>
        read? (.predicates base p.1 p.2.1 []) rest.1 := by
    rw [read?.eq_def]
    cases h with
    | full axis h => rfl
    | short h => rfl
    | bare h => cases h <;> rfl
  obtain ⟨_, hshorter⟩ := shorter_append h.ne_nil r
  rw [hread, hstep, Option.bind_some, hshorter]
  rfl

/-- A predicate is read behind its bracket, and others may follow. -/
theorem read?_predicate (base : Tree) (axis : Axis) (test : NodeTest) (found : List Tree)
    (r : List Token) :
    read? (.predicates base axis test found) (.openBracket :: r)
      = (read? (.expr 0) r).bind fun p => (expect .closeBracket p.2).bind fun r₂ =>
          (shorter r r₂).bind fun rest =>
            read? (.predicates base axis test (found ++ [p.1])) rest.1 := by
  rw [read?.eq_def]
  rfl

/-- Without a bracket the step is complete, and the path may go on behind it. -/
theorem read?_predicates_end (base : Tree) (axis : Axis) (test : NodeTest) (found : List Tree)
    (h : ts.head? ≠ some .openBracket) :
    read? (.predicates base axis test found) ts
      = read? (.slashes (.step base axis test found)) ts := by
  rw [read?.eq_def]
  cases ts with
  | nil => rfl
  | cons t r => cases t <;> first | rfl | exact absurd rfl h

/-- A predicate filters what stands in front of it. -/
theorem read?_filter (e : Tree) (r : List Token) :
    read? (.filtered e) (.openBracket :: r)
      = (read? (.expr 0) r).bind fun p => (expect .closeBracket p.2).bind fun r₂ =>
          (shorter r r₂).bind fun rest => read? (.filtered (.filter e p.1)) rest.1 := by
  rw [read?.eq_def]
  rfl

/-- Without a bracket the filtering is over, and a path may go on from there. -/
theorem read?_filtered_end (e : Tree) (h : ts.head? ≠ some .openBracket) :
    read? (.filtered e) ts = read? (.slashes e) ts := by
  rw [read?.eq_def]
  cases ts with
  | nil => rfl
  | cons t r => cases t <;> first | rfl | exact absurd rfl h

/-- An argument is read behind a comma, and others may follow. -/
theorem read?_argument (f : QName) (found : List Tree) (r : List Token) :
    read? (.arguments f found) (.comma :: r)
      = (read? (.expr 0) r).bind fun p =>
          (shorter r p.2).bind fun rest => read? (.arguments f (found ++ [p.1])) rest.1 := by
  rw [read?.eq_def]
  rfl

end

/-! ### The reader finds what the grammar derives -/

/-- Whether an operand of rank `n` ends before these tokens. -/
def Ends (n : Nat) : List Token → Prop
  | [] | .closeParen :: _ | .closeBracket :: _ | .comma :: _ => True
  | .operator op :: _ => op.rank ≤ n
  | _ => False

/-- What ends a level ends every higher level. -/
theorem Ends.mono {m n : Nat} {ts : List Token} (h : Ends m ts) (hmn : m ≤ n) : Ends n ts := by
  cases ts with
  | nil => trivial
  | cons t r => cases t <;> first | trivial | exact Nat.le_trans h hmn

/-- Where a level ends, no predicate starts. -/
theorem Ends.head_ne_openBracket {n : Nat} {ts : List Token} (h : Ends n ts) :
    ts.head? ≠ some .openBracket := by
  cases ts with
  | nil => exact fun h => nomatch h
  | cons t r => rintro ⟨⟩; cases h

/-- Where a level ends, a path does not go on. -/
theorem Ends.read?_slashes {n : Nat} {ts : List Token} (h : Ends n ts) (path : Tree) :
    read? (.slashes path) ts = some (path, ts) := by
  rw [read?.eq_def]
  cases ts with
  | nil => rfl
  | cons t r => cases t <;> first | rfl | cases h

/-- Where an operand ends, there is no tighter operator. -/
theorem Ends.read?_more {n : Nat} {ts : List Token} (h : Ends n ts) (left : Tree) :
    read? (.more (n + 1) left) ts = some (left, ts) := by
  refine read?_more_end (fun op r hts => ?_) left
  subst hts
  exact Nat.ne_of_lt (Nat.lt_succ_of_le h)

/-- Neither a closing bracket nor an operator starts an operand. -/
theorem read?_operand {t : Token} (h : t = .closeParen ∨ t = .operator .minus)
    (r : List Token) : read? (.expr 8) (t :: r) = none := by
  have hstep : read? (.step .context) (t :: r) = none := by
    rw [read?.eq_def]
    rcases h with rfl | rfl <;> rfl
  rw [read?.eq_def]
  rcases h with rfl | rfl <;> exact hstep

/-- No expression starts with a closing bracket. -/
theorem read?_closeParen {n : Nat} (hn : n ≤ 8) (r : List Token) :
    read? (.expr n) (.closeParen :: r) = none := by
  -- The reader goes up from a rank, so the induction comes down from rank 8.
  obtain ⟨k, rfl⟩ : ∃ k, n = 8 - k := ⟨8 - n, by omega⟩
  induction k with
  | zero => exact read?_operand (.inl rfl) r
  | succ k ih =>
      by_cases hk : 8 ≤ k
      · rw [show 8 - (k + 1) = 8 - k by omega]
        exact ih (by omega)
      · by_cases h6 : 8 - (k + 1) = 6
        · rw [h6, read?_unsigned (by simp)]
          rw [show 8 - k = 7 by omega] at ih
          exact ih (by omega)
        · rw [read?_expr_of_lt (by omega) h6, show 8 - (k + 1) + 1 = 8 - k by omega,
            ih (by omega)]
          rfl

/-- What a derivation says of the reader, for each part: whatever it makes of the
rest when it goes on with the tree of the part, it makes of the whole. -/
def Completes : Part → List Token → Tree → Prop
  | .expr n, ts, e => ∀ rest out, Ends n rest → read? (.more n e) rest = some out →
      read? (.expr n) (ts ++ rest) = some out
  | .filtered, ts, e => ∀ rest out, read? (.filtered e) rest = some out →
      read? (.expr 8) (ts ++ rest) = some out
  | .arguments, ts, e => ∀ rest out f found, e = .call f found →
      read? (.arguments f found) rest = some out → read? (.expr 8) (ts ++ rest) = some out
  | .start, ts, e => ∀ rest out, rest.head?.any Token.startsStep →
      read? (.step e) rest = some out → read? (.expr 8) (ts ++ rest) = some out
  | .steps, ts, e => ∀ rest out base axis test found, e = .step base axis test found →
      read? (.predicates base axis test found) rest = some out →
      read? (.expr 8) (ts ++ rest) = some out
  | .location, ts, e => ∀ rest out, rest.head? ≠ some .openBracket →
      read? (.slashes e) rest = some out → read? (.expr 8) (ts ++ rest) = some out

/-- A step starts with a token that only steps start with. -/
theorem StepTokens.startsStep {us : List Token} {axis : Axis} {test : NodeTest}
    (h : StepTokens us axis test) (rest : List Token) :
    (us ++ rest).head?.any Token.startsStep := by
  cases h with
  | full axis h => rfl
  | short h => rfl
  | bare h => cases h <;> rfl

/-- An operand that ends is read to its end. -/
theorem Completes.read? {n : Nat} {ts rest : List Token} {e : Tree}
    (h : Completes (.expr (n + 1)) ts e) (hr : Ends n rest) :
    read? (.expr (n + 1)) (ts ++ rest) = some (e, rest) :=
  h rest _ (hr.mono (Nat.le_succ n)) (hr.read?_more e)

/-- A whole expression is read to its end in front of a token that closes it. -/
theorem Completes.read?_closed {ts : List Token} {e : Tree} (h : Completes (.expr 0) ts e)
    {t : Token} (ht : t = .closeParen ∨ t = .closeBracket ∨ t = .comma) (rest : List Token) :
    XPath.read? (.expr 0) (ts ++ t :: rest) = some (e, t :: rest) := by
  refine h _ _ ?_ (read?_more_end (fun op r hts => ?_) e)
  · rcases ht with rfl | rfl | rfl <;> trivial
  · rcases ht with rfl | rfl | rfl <;> cases hts

/-- Behind a token that closes an expression, less is left. -/
theorem read?_behind (goal : Goal) (ts : List Token) (t : Token) (rest : List Token) :
    ((expect t (t :: rest)).bind fun r => (shorter (ts ++ t :: rest) r).bind fun rest =>
      read? goal rest.1) = read? goal rest := by
  have hbehind := @shorter_append (ts ++ [t]) (by simp) rest
  rw [List.append_assoc, List.singleton_append] at hbehind
  obtain ⟨_, hshorter⟩ := hbehind
  rw [expect, if_pos rfl, Option.bind_some, hshorter]
  rfl

/-- Behind an argument there is a comma or the end of the call. -/
theorem closes_of_read?_arguments {f : QName} {found : List Tree} {ts : List Token}
    {out : Tree × List Token} (h : read? (.arguments f found) ts = some out) :
    ∃ t r, ts = t :: r ∧ (t = .closeParen ∨ t = .closeBracket ∨ t = .comma) := by
  rw [read?.eq_def] at h
  match ts, h with
  | .closeParen :: r, _ => exact ⟨_, r, rfl, .inl rfl⟩
  | .comma :: r, _ => exact ⟨_, r, rfl, .inr (.inr rfl)⟩

/-- The sign has a rank of its own. -/
theorem read?_more_sign (left : Tree) (ts : List Token) :
    read? (.more 6 left) ts = some (left, ts) :=
  read?_more_end (fun op _ _ => by cases op <;> decide) left

/-- A sign is not read at a rank above its own. -/
theorem read?_minus (r : List Token) : read? (.expr 7) (.operator .minus :: r) = none := by
  rw [read?_expr_of_lt (by decide) (by decide), read?_operand (.inr rfl)]
  rfl

/-- A tighter operand is one of a lower rank, up to the same place. -/
theorem Completes.tighter {n : Nat} {ts : List Token} {a : Tree} (hn : n < 8) (hne : ts ≠ [])
    (h : Completes (.expr (n + 1)) ts a) : Completes (.expr n) ts a := by
  intro rest out hr hmore
  have hread := h.read? hr
  -- At the rank of the sign the reader looks for a `-` first, with which no
  -- tighter operand can start.
  by_cases h6 : n = 6
  · subst h6
    rw [read?_more_sign] at hmore
    rw [read?_unsigned, hread, hmore]
    intro hminus
    obtain ⟨r, hts⟩ := List.head?_eq_some_iff.mp hminus
    rw [hts, read?_minus] at hread
    cases hread
  · obtain ⟨_, hshorter⟩ := shorter_append hne rest
    rw [read?_expr_of_lt hn h6, hread, Option.bind_some, hshorter]
    exact hmore

/-- What ends an operand starts no step, so a slash in front of it is a whole path. -/
theorem completes_root : Completes (.expr 8) [.slash] .root := by
  intro rest out hr hmore
  have hstop : rest.head?.any Token.startsStep = false := by
    cases rest with
    | nil => rfl
    | cons t r => cases t <;> first | rfl | cases hr
  rw [read?_more_end (fun op r _ => by cases op <;> decide)] at hmore
  rw [List.singleton_append, read?_slash, hstop]
  exact hmore

/-- A call is read from its name to the end of its first argument. -/
theorem Completes.argument {ts : List Token} {a : Tree} (f : QName) (hne : ts ≠ [])
    (h : Completes (.expr 0) ts a) :
    Completes .arguments (.function f :: .openParen :: ts) (.call f [a]) := by
  intro rest out f' found heq hrest
  cases heq
  obtain ⟨t, r, rfl, ht⟩ := closes_of_read?_arguments hrest
  have hread := h.read?_closed ht r
  obtain ⟨_, hshorter⟩ := shorter_append hne (t :: r)
  rw [List.cons_append, List.cons_append, read?_call, hread, Option.bind_some, hshorter]
  · exact hrest
  · -- An argument never starts with the bracket that would end the call.
    intro hclose
    obtain ⟨s, hs⟩ := List.head?_eq_some_iff.mp hclose
    rw [hs, read?_closeParen (by decide)] at hread
    cases hread

/-- Whatever the grammar derives, the reader takes. -/
theorem Derives.completes {part : Part} {ts : List Token} {e : Tree}
    (h : Derives part ts e) : Completes part ts e := by
  induction h with
  | @binary ts us a b op left right ihl ihr =>
      intro rest out hr hmore
      rw [List.append_assoc, List.cons_append]
      -- The left operand goes on with the operator, whose rank is its own.
      refine ihl _ _ (Nat.le_refl _) ?_
      obtain ⟨_, hshorter⟩ := shorter_append right.operand_ne_nil rest
      rw [read?_more, ihr.read? hr, Option.bind_some, hshorter]
      exact hmore
  | @negate ts a operand ih =>
      intro rest out hr hmore
      rw [read?_more_sign] at hmore
      rw [List.cons_append, read?_sign, ih rest _ hr (read?_more_sign a rest)]
      exact hmore
  | tighter hn operand ih => exact ih.tighter hn operand.operand_ne_nil
  | root => exact completes_root
  | path h ih =>
      intro rest out hr hmore
      rw [read?_more_end (fun op r _ => by cases op <;> decide)] at hmore
      rw [← hmore]
      exact ih rest _ hr.head_ne_openBracket (hr.read?_slashes _)
  | primary h ih =>
      intro rest out hr hmore
      rw [read?_more_end (fun op r _ => by cases op <;> decide)] at hmore
      rw [← hmore]
      refine ih rest _ ?_
      rw [read?_filtered_end _ hr.head_ne_openBracket]
      exact hr.read?_slashes _
  | literal | number | reference | callEmpty =>
      intro rest out hrest
      rw [read?.eq_def]
      exact hrest
  | group inner ih =>
      intro rest out hrest
      rw [List.cons_append, List.append_assoc, List.singleton_append, read?_openParen,
        ih.read?_closed (.inl rfl), Option.bind_some]
      exact (read?_behind _ _ _ _).trans hrest
  | call h ih =>
      intro rest out hrest
      rw [List.append_assoc, List.singleton_append]
      -- Either rule shows that the tree is a call, which the reader goes on with.
      cases h with
      | argument | nextArgument =>
          refine ih _ _ _ _ rfl ?_
          rw [read?.eq_def]
          exact hrest
  | argument f h ih => exact ih.argument f h.operand_ne_nil
  | nextArgument h next ih ihn =>
      intro rest out f found heq hrest
      cases heq
      rw [List.append_assoc, List.cons_append]
      refine ih _ _ _ _ rfl ?_
      obtain ⟨t, r, rfl, ht⟩ := closes_of_read?_arguments hrest
      obtain ⟨_, hshorter⟩ := shorter_append next.operand_ne_nil (t :: r)
      rw [read?_argument, ihn.read?_closed ht, Option.bind_some, hshorter]
      exact hrest
  | filter h predicate ih ihp =>
      intro rest out hrest
      rw [List.append_assoc, List.cons_append, List.append_assoc, List.singleton_append]
      refine ih _ _ ?_
      rw [read?_filter, ihp.read?_closed (.inr (.inl rfl)), Option.bind_some]
      exact (read?_behind _ _ _ _).trans hrest
  | relative =>
      intro rest out hstep hrest
      rw [List.nil_append, read?_relative hstep]
      exact hrest
  | absolute =>
      intro rest out hstep hrest
      rw [List.singleton_append, read?_slash, if_pos hstep]
      exact hrest
  | absoluteBelow =>
      intro rest out hstep hrest
      rw [read?.eq_def]
      exact hrest
  | afterStep _ ih | belowStep _ ih =>
      intro rest out hstep hrest
      rw [List.append_assoc, List.singleton_append]
      refine ih _ _ (by simp) ?_
      rw [read?.eq_def]
      exact hrest
  | afterFiltered _ ih | belowFiltered _ ih =>
      intro rest out hstep hrest
      rw [List.append_assoc, List.singleton_append]
      refine ih _ _ ?_
      rw [read?_filtered_end _ (by simp), read?.eq_def]
      exact hrest
  | step h head ih =>
      intro rest out base axis test found heq hrest
      cases heq
      rw [List.append_assoc]
      refine ih _ _ (head.startsStep rest) ?_
      rw [read?_step head]
      exact hrest
  | predicate h predicate ih ihp =>
      intro rest out base axis test found heq hrest
      cases heq
      rw [List.append_assoc, List.cons_append, List.append_assoc, List.singleton_append]
      refine ih _ _ _ _ _ _ rfl ?_
      rw [read?_predicate, ihp.read?_closed (.inr (.inl rfl)), Option.bind_some]
      exact (read?_behind _ _ _ _).trans hrest
  | steps h ih =>
      intro rest out hrest hslashes
      -- Either rule shows that the tree is a step, and it takes no predicate here.
      cases h with
      | step | predicate =>
          refine ih _ _ _ _ _ _ rfl ?_
          rw [read?_predicates_end _ _ _ _ hrest]
          exact hslashes
  | self _ ih | parent _ ih =>
      intro rest out hrest hslashes
      rw [List.append_assoc, List.singleton_append]
      refine ih _ _ rfl ?_
      rw [read?.eq_def]
      exact hslashes

/-- **The grammar is unambiguous**: tokens derive at most one parse tree. -/
theorem Derives.unique {ts : List Token} {e e' : Tree} (h : Derives (.expr 0) ts e)
    (h' : Derives (.expr 0) ts e') : e = e' := by
  -- The reader is a function, and with nothing behind it reads either tree.
  have whole : ∀ {e}, Derives (.expr 0) ts e → XPath.read? (.expr 0) ts = some (e, []) := by
    intro e h
    have hread := h.completes [] _ trivial (read?_more_end (by simp) e)
    rwa [List.append_nil] at hread
  have heq := (whole h).symm.trans (whole h')
  cases heq
  rfl

/-- A text has at most one parse tree. -/
theorem Parses.unique {text : String} {e e' : Tree} (h : Parses text e)
    (h' : Parses text e') : e = e' := by
  obtain ⟨ts, hts, hd⟩ := h
  obtain ⟨ts', hts', hd'⟩ := h'
  rw [hts] at hts'
  cases hts'
  exact hd.unique hd'

end XPathLocator.XPath
