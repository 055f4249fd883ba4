import XPathLocator.Proofs.Css.Cursor
import XPathLocator.Proofs.Css.Sound
import XPathLocator.Proofs.Except

/-!
# `XPathLocator.Proofs.Css.Walk`: walks end as readers do

A walk of `Cursor` is compared with the reader for the same part of a selector (`Sound`). The
reader gets the tokens from the cursor on, and what it leaves has to be what stands from the
walk's last cursor on.

`Within ts b i` bounds the tokens behind the cursor `i` by `b`, and this is the measure of the
whole development: a walk from there ends under every limit from `b` on (`Ends`). `Yields` adds
what the reader says. `Steps` adds that the cursor stays if nothing is found and moves if
something is. Sequences of walks are put together with `Yields.bind` and `Steps.both`.

`rounds_end` is the lemma about loops, and the induction on the tokens that are left. It asks
of a round that it moves the cursor where the loop goes on behind it (`Turns`). Each walk over
single tokens, white space, an attribute selector or the opening of a pseudo-class has one
lemma here, with the name of the walk and `_yields` or `_steps`.
-/

set_option autoImplicit false

namespace XPathLocator.Css.Cursor

open Token (Kind)

variable {α β : Type} {ts : List Token} {b i j : Nat}

/-- The cursor is not behind the end of the tokens, and at most `b` of them are left. -/
structure Within (ts : List Token) (b i : Nat) : Prop where
  le_length : i ≤ ts.length
  length_le : ts.length ≤ i + b

/-- A cursor that has moved on, though not behind the end, has no more tokens left than before. -/
theorem Within.of_le (hi : Within ts b i) (hij : i ≤ j) (hj : j ≤ ts.length) : Within ts b j :=
  ⟨hj, hi.length_le.trans (Nat.add_le_add_right hij b)⟩

/-- From the cursor `i` the walk ends with `x` and the cursor at `j`, as long as the limit is
at least `b`. The cursor has not gone back, and not behind the end of the tokens. -/
structure Ends (ts : List Token) (b : Nat) (walk : Walk α) (i : Nat) (x : Except Error α)
    (j : Nat) : Prop where
  eq_some : ∀ n, b ≤ n → walk n i = some (x, j)
  le : i ≤ j
  le_length : j ≤ ts.length

/-- From the cursor `i` the walk ends with `out`: a value and the tokens that are left then, or
an error. -/
def Yields (ts : List Token) (b : Nat) (walk : Walk α) (i : Nat)
    (out : Except Error (α × List Token)) : Prop :=
  ∃ x j, Ends ts b walk i x j ∧ out = x.map fun a => (a, ts.drop j)

/-- The walk ends with `out`. It leaves the cursor where it was if it finds `nothing`, and
moves it otherwise, also with an error. -/
def Steps (ts : List Token) (b : Nat) (nothing : α) (walk : Walk α) (i : Nat)
    (out : Except Error (α × List Token)) : Prop :=
  ∃ x j, Ends ts b walk i x j ∧ (out = x.map fun a => (a, ts.drop j)) ∧
    (x = .ok nothing → j = i) ∧ (x ≠ .ok nothing → i < j)

/-- What a walk ends with does not depend on whether it moves. -/
theorem Steps.yields {nothing : α} {walk : Walk α} {out : Except Error (α × List Token)}
    (h : Steps ts b nothing walk i out) : Yields ts b walk i out := by
  obtain ⟨x, j, hends, hout, _⟩ := h
  exact ⟨x, j, hends, hout⟩

/-- Where a walk that ends as its reader says leaves the cursor: no further back than before, and
not behind the end. -/
theorem Yields.le_of_eq_some {walk : Walk α} {out : Except Error (α × List Token)}
    {x : Except Error α} (h : Yields ts b walk i out) (hx : walk b i = some (x, j)) :
    i ≤ j ∧ j ≤ ts.length := by
  obtain ⟨y, k, hends, -⟩ := h
  cases hx.symm.trans (hends.eq_some b (Nat.le_refl b))
  exact ⟨hends.le, hends.le_length⟩

/-! ### One walk after the other -/

section
variable {f f' : Moves α} {g g' : α → Moves β}

/-- After a walk that succeeds, the next one starts with its value from where it ended. -/
theorem bind_of_ok (g : α → Moves β) {a : α} (h : f i = some (.ok a, j)) :
    (f >>= g) i = g a j := by
  show (f i).bind _ = _
  rw [h]
  rfl

/-- After a walk that fails, nothing more happens. -/
theorem bind_of_error (g : α → Moves β) {e : Error} (h : f i = some (.error e, j)) :
    (f >>= g) i = some (.error e, j) := by
  show (f i).bind _ = _
  rw [h]
  rfl

/-- Only the answer from the cursor counts of what comes first. -/
theorem bind_congr_left (g : α → Moves β) (h : f i = f' i) : (f >>= g) i = (f' >>= g) i := by
  show (f i).bind _ = (f' i).bind _
  rw [h]

/-- Of what comes next, only the answers from where the first walk ended count, with the value it
ended with. -/
theorem bind_congr_right (h : ∀ a k, f i = some (.ok a, k) → g a k = g' a k) :
    (f >>= g) i = (f >>= g') i := by
  cases hf : f i with
  | none =>
      show (f i).bind _ = (f i).bind _
      rw [hf]
      rfl
  | some x =>
      obtain ⟨x, k⟩ := x
      cases x with
      | error e => rw [bind_of_error _ hf, bind_of_error _ hf]
      | ok a => rw [bind_of_ok _ hf, bind_of_ok _ hf, h a k hf]

/-- The same for two walks under one limit, as the loops have them. -/
theorem Walk.bind_congr {f : Walk α} {g g' : α → Walk β} {n : Nat}
    (h : ∀ a k, f n i = some (.ok a, k) → g a n k = g' a n k) : (f >>= g) n i = (f >>= g') n i := by
  show (f n >>= fun a => g a n) i = (f n >>= fun a => g' a n) i
  exact bind_congr_right h

end

namespace Ends

variable {f : Walk α} {g : α → Walk β}

/-- The bound on the tokens that are left is kept by every walk. -/
theorem within {x : Except Error α} (h : Ends ts b f i x j) (hi : Within ts b i) :
    Within ts b j :=
  hi.of_le h.le h.le_length

/-- Two walks, one after the other, end where the second one ends. -/
theorem bind {a : α} {y : Except Error β} {k : Nat} (hf : Ends ts b f i (.ok a) j)
    (hg : Ends ts b (g a) j y k) : Ends ts b (f >>= g) i y k :=
  ⟨fun n hn => (bind_of_ok (g · n) (hf.eq_some n hn)).trans (hg.eq_some n hn), hf.le.trans hg.le,
    hg.le_length⟩

/-- If the first of two walks fails, they end there. -/
theorem bind_error {e : Error} (g : α → Walk β) (hf : Ends ts b f i (.error e) j) :
    Ends ts b (f >>= g) i (.error e) j :=
  ⟨fun n hn => bind_of_error (g · n) (hf.eq_some n hn), hf.le, hf.le_length⟩

/-- Under a limit that is higher by one, the body of a call ends as before. -/
theorem deeper {x : Except Error α} (h : Ends ts b f i x j) :
    Ends ts (b + 1) (deeper f) i x j := by
  refine ⟨fun n hn => ?_, h.le, h.le_length⟩
  cases n with
  | zero => exact absurd hn (Nat.not_succ_le_zero b)
  | succ n => exact h.eq_some n (Nat.le_of_succ_le_succ hn)

end Ends

namespace Yields

variable {f : Walk α} {r : Reader α} {g : α → Walk β} {s : α → Reader β}

/-- A walk that does nothing ends as the reader that reads nothing. -/
theorem pure (a : α) (hi : Within ts b i) :
    Yields ts b (Pure.pure a) i ((Pure.pure a : Reader α) (ts.drop i)) :=
  ⟨.ok a, i, ⟨fun _ _ => rfl, Nat.le_refl i, hi.le_length⟩, rfl⟩

/-- A walk that fails at once ends as the reader that fails at once. -/
theorem throw (e : Error) (hi : Within ts b i) :
    Yields ts b (MonadExcept.throw e : Walk α) i (.error e) :=
  ⟨.error e, i, ⟨fun _ _ => rfl, Nat.le_refl i, hi.le_length⟩, rfl⟩

/-- A walk that refuses the token in front reports what the reader reports there. -/
theorem refuse (us : List Token) (expected : Expectation) (hi : Within ts b i) :
    Yields ts b (refuse us.head? expected : Walk α) i (unexpected us expected) := by
  refine ⟨unexpected us.head?.toList expected, i,
    ⟨fun _ _ => rfl, Nat.le_refl i, hi.le_length⟩, ?_⟩
  cases us <;> rfl

/-- **One walk after the other** ends as one reader after the other. The second walk has to end as
its reader only from where the first one can end. -/
theorem bind (hi : Within ts b i) (hf : Yields ts b f i (r (ts.drop i)))
    (hg : ∀ a j, Ends ts b f i (.ok a) j → Within ts b j →
      Yields ts b (g a) j (s a (ts.drop j))) :
    Yields ts b (f >>= g) i ((r >>= s) (ts.drop i)) := by
  obtain ⟨x, j, hends, hout⟩ := hf
  rw [Reader.bind_apply, hout]
  cases x with
  | error e => exact ⟨.error e, j, hends.bind_error g, rfl⟩
  | ok a =>
      obtain ⟨y, k, hendsg, houtg⟩ := hg a j hends (hends.within hi)
      exact ⟨y, k, hends.bind hendsg, houtg⟩

/-- The last walk: what it finds makes the value. -/
theorem map (h : α → β) (hi : Within ts b i) (hf : Yields ts b f i (r (ts.drop i))) :
    Yields ts b (f >>= fun a => Pure.pure (h a)) i
      ((r >>= fun a => Pure.pure (h a)) (ts.drop i)) :=
  .bind hi hf fun a _ _ hj => .pure (h a) hj

/-- The body of a call ends as its reader does, with a limit that is higher by one. -/
theorem deeper {out : Except Error (α × List Token)} (h : Yields ts b f i out) :
    Yields ts (b + 1) (deeper f) i out := by
  obtain ⟨x, j, hends, hout⟩ := h
  exact ⟨x, j, hends.deeper, hout⟩

end Yields

/-- Two walks in a row find nothing if neither of them does. -/
theorem Steps.both {γ : Type} {f : Walk α} {r : Reader α} {g : Walk β} {s : Reader β}
    {h : α → β → γ} {a₀ : α} {b₀ : β} {nothing : γ}
    (hnothing : ∀ a c, h a c = nothing ↔ a = a₀ ∧ c = b₀)
    (hf : Steps ts b a₀ f i (r (ts.drop i)))
    (hg : ∀ j, i ≤ j → j ≤ ts.length → Steps ts b b₀ g j (s (ts.drop j))) :
    Steps ts b nothing (f >>= fun a => g >>= fun c => pure (h a c)) i
      ((r >>= fun a => s >>= fun c => pure (h a c)) (ts.drop i)) := by
  obtain ⟨x, j, hendsf, houtf, hstaysf, hmovesf⟩ := hf
  rw [Reader.bind_apply, houtf]
  cases x with
  | error e => exact ⟨.error e, j, hendsf.bind_error _, rfl, by simp, fun _ => hmovesf (by simp)⟩
  | ok a =>
      obtain ⟨y, k, hendsg, houtg, hstaysg, hmovesg⟩ := hg j hendsf.le hendsf.le_length
      show Steps ts b nothing _ i ((s >>= fun c => pure (h a c)) (ts.drop j))
      rw [Reader.bind_apply, houtg]
      have hij := hendsf.le
      cases y with
      | error e =>
          exact ⟨.error e, k, hendsf.bind (hendsg.bind_error _), rfl, by simp, fun _ =>
            hij.trans_lt (hmovesg (by simp))⟩
      | ok c =>
          have hpure : Ends ts b (pure (h a c)) k (.ok (h a c)) k :=
            ⟨fun _ _ => rfl, Nat.le_refl k, hendsg.le_length⟩
          -- Nothing is read where neither part reads anything, and where one does, it moves on.
          refine ⟨.ok (h a c), k, hendsf.bind (hendsg.bind hpure), rfl, fun hac => ?_,
            fun hac => ?_⟩
          · obtain ⟨rfl, rfl⟩ := (hnothing a c).mp (Except.ok.inj hac)
            exact (hstaysg rfl).trans (hstaysf rfl)
          · by_cases ha : a = a₀
            · refine hij.trans_lt (hmovesg fun hc => hac ?_)
              rw [(hnothing a c).mpr ⟨ha, Except.ok.inj hc⟩]
            · exact (hmovesf fun h => ha (Except.ok.inj h)).trans_le hendsg.le

/-! ### Loops -/

/-- A round ends with `out`. If the loop goes on behind it, then it has moved the cursor. -/
def Turns (ts : List Token) (b : Nat) (round : Walk (Round α)) (i : Nat)
    (out : Except Error (Round α × List Token)) : Prop :=
  ∃ x j, Ends ts b round i x j ∧ (out = x.map fun r => (r, ts.drop j)) ∧
    ∀ a, x = .ok (.more a) → i < j

/-- A round that finds nothing, and stays for that, may be the last one of a loop. -/
theorem Steps.turns {round : Walk (Round α)} {out : Except Error (Round α × List Token)}
    (h : Steps ts b .leave round i out) : Turns ts b round i out := by
  obtain ⟨x, j, hends, hout, -, hmoves⟩ := h
  exact ⟨x, j, hends, hout, fun a ha => hmoves (by simp [ha])⟩

/-- One round of a loop for readers, and those behind it. -/
def goOn (read : Reader (List α)) : Round α → Reader (List α)
  | .leave => pure []
  | .last a => pure [a]
  | .more a => do
    let items ← read
    return a :: items

section
variable {round : Moves (Round α)} {a : α}

/-- A loop ends with the round that finds nothing. -/
theorem rounds_leave (n : Nat) (h : round i = some (.ok .leave, j)) :
    rounds round n i = some (.ok [], j) := by
  rw [rounds, bind_of_ok _ h]
  rfl

/-- A loop ends with a round that says it is the last. -/
theorem rounds_last (n : Nat) (h : round i = some (.ok (.last a), j)) :
    rounds round n i = some (.ok [a], j) := by
  rw [rounds, bind_of_ok _ h]
  rfl

/-- A loop ends with a round that fails. -/
theorem rounds_error {e : Error} (n : Nat) (h : round i = some (.error e, j)) :
    rounds round n i = some (.error e, j) := by
  rw [rounds, bind_of_error _ h]

/-- A round that asks for more has the rest of the loop behind it, which costs one from the limit.
-/
theorem rounds_more {x : Except Error (List α)} {n k : Nat}
    (h : round i = some (.ok (.more a), j)) (hmore : rounds round n j = some (x, k)) :
    rounds round (n + 1) i = some (x.map (a :: ·), k) := by
  rw [rounds, bind_of_ok _ h]
  show (rounds round n >>= fun items => pure (a :: items)) j = _
  cases x with
  | error e => exact bind_of_error _ hmore
  | ok items => exact bind_of_ok _ hmore

end

/-- The rounds of a loop end, as many as there are: each one that goes on has moved the
cursor, so more rounds are allowed than tokens are left. There are no items just if the first
round leaves the loop. -/
theorem rounds_end {round : Walk (Round α)} {read : Reader (List α)} {next : Reader (Round α)}
    (hread : ∀ l, read l = (next >>= goOn read) l) (hi : Within ts b i)
    (hround : ∀ j, i ≤ j → j ≤ ts.length → Turns ts b round j (next (ts.drop j))) :
    ∃ x k, (∀ m n, ts.length ≤ i + m → b ≤ n → rounds (round n) m i = some (x, k)) ∧
      k ≤ ts.length ∧ (read (ts.drop i) = x.map fun items => (items, ts.drop k)) ∧
      ∃ y j, Ends ts b round i y j ∧ j ≤ k ∧ (x = .ok [] ↔ y = .ok .leave) ∧
        (y = .ok .leave → k = j) := by
  induction hn : ts.length - i using Nat.strongRecOn generalizing i with
  | ind l ih =>
  obtain ⟨y, j, hends, hout, hmoves⟩ := hround i (Nat.le_refl i) hi.le_length
  rw [hread, Reader.bind_apply, hout]
  have hj := hends.le_length
  rcases y with e | (_ | a | a)
  case error =>
      exact ⟨.error e, j, fun m n _ hn => rounds_error m (hends.eq_some n hn), hj, rfl, _, _,
        hends, Nat.le_refl j, by simp, by simp⟩
  case ok.leave =>
      exact ⟨.ok [], j, fun m n _ hn => rounds_leave m (hends.eq_some n hn), hj, rfl, _, _,
        hends, Nat.le_refl j, by simp, fun _ => rfl⟩
  case ok.last =>
      exact ⟨.ok [a], j, fun m n _ hn => rounds_last m (hends.eq_some n hn), hj, rfl, _, _,
        hends, Nat.le_refl j, by simp, by simp⟩
  case ok.more =>
      -- Fewer tokens are left behind this round, which is what the induction is on.
      have hlt : i < j := hmoves a rfl
      obtain ⟨x, k, hrounds, hk, hmore, _, _, hnext, hle, _⟩ := ih (ts.length - j) (by omega)
        (hends.within hi) (fun j' hj' => hround j' (hlt.le.trans hj')) rfl
      refine ⟨x.map (a :: ·), k, fun m n hm hn => ?_, hk, ?_, _, _, hends, hnext.le.trans hle,
        ?_, by simp⟩
      · cases m with
        | zero => omega
        | succ m => exact rounds_more (hends.eq_some n hn) (hrounds m n (by omega) hn)
      · show (goOn read (.more a) : Reader (List α)) (ts.drop j) = _
        rw [goOn, Reader.bind_apply, hmore]
        cases x <;> rfl
      · cases x <;> simp [Except.map]

/-- **A loop of walks** ends as a reader that calls itself, if each round ends as one step of that
reader does. -/
theorem Yields.loop {round : Walk (Round α)} {read : Reader (List α)} {next : Reader (Round α)}
    (hread : ∀ l, read l = (next >>= goOn read) l) (hi : Within ts b i)
    (hround : ∀ j, i ≤ j → j ≤ ts.length → Turns ts b round j (next (ts.drop j))) :
    Yields ts b (loop round) i (read (ts.drop i)) := by
  obtain ⟨x, k, hrounds, hk, hout, y, j, hfirst, hjk, _⟩ := rounds_end hread hi hround
  exact ⟨x, k, ⟨fun n hn => hrounds n n (hi.length_le.trans (Nat.add_le_add_left hn i)) hn,
    hfirst.le.trans hjk, hk⟩, hout⟩

/-- A loop moves the cursor if its first round does. -/
theorem Steps.loop {round : Walk (Round α)} {read : Reader (List α)} {next : Reader (Round α)}
    (hread : ∀ l, read l = (next >>= goOn read) l) (hi : Within ts b i)
    (hround : ∀ j, i ≤ j → j ≤ ts.length → Steps ts b .leave round j (next (ts.drop j))) :
    Steps ts b [] (loop round) i (read (ts.drop i)) := by
  obtain ⟨x, k, hrounds, hk, hout, y, j, hfirst, hjk, hnil, hstays⟩ :=
    rounds_end hread hi fun j hij hj => (hround j hij hj).turns
  -- The first round as `rounds_end` speaks of it is the one that `hround` is about.
  obtain ⟨y', j', hfirst', _, hleave, hmoves⟩ := hround i (Nat.le_refl i) hi.le_length
  obtain ⟨rfl, rfl⟩ : y = y' ∧ j = j' := by
    simpa using (hfirst.eq_some b (Nat.le_refl b)).symm.trans (hfirst'.eq_some b (Nat.le_refl b))
  refine ⟨x, k, ⟨fun n hn => hrounds n n (hi.length_le.trans (Nat.add_le_add_left hn i)) hn,
    hfirst.le.trans hjk, hk⟩, hout, fun hx => ?_, fun hx => ?_⟩
  · have hy := hnil.mp hx
    exact (hstays hy).trans (hleave hy)
  · exact (hmoves fun hy => hx (hnil.mpr hy)).trans_le hjk

/-! ### Single tokens -/

/-- Either the cursor is at the end of the tokens or there is one at the cursor. -/
theorem cursor_cases {P : Option Token → List Token → Prop} (hi : Within ts b i)
    (hend : ts.drop i = [] → P none [])
    (htoken : ∀ t, i < ts.length → ts.drop i = t :: ts.drop (i + 1) →
      P (some t) (t :: ts.drop (i + 1))) : P ts[i]? (ts.drop i) := by
  rcases Nat.lt_or_eq_of_le hi.le_length with hlt | rfl
  · have hdrop := List.drop_eq_getElem_cons hlt
    rw [List.getElem?_eq_getElem hlt, hdrop]
    exact htoken _ hlt hdrop
  · rw [List.drop_length, List.getElem?_eq_none (Nat.le_refl _)]
    exact hend List.drop_length

namespace Ends

/-- A look at the next token leaves the cursor alone. -/
theorem peek {f : Option Token → Walk α} {x : Except Error α} (h : Ends ts b (f ts[i]?) i x j) :
    Ends ts b (peek ts >>= f) i x j :=
  ⟨h.eq_some, h.le, h.le_length⟩

/-- A step forward is a walk from the next place. -/
theorem advance {f : Unit → Walk α} {x : Except Error α} (h : Ends ts b (f ()) (i + 1) x j) :
    Ends ts b (advance >>= f) i x j :=
  ⟨h.eq_some, (Nat.le_succ i).trans h.le, h.le_length⟩

end Ends

namespace Yields

variable {f : Option Token → Walk α} {r : Reader α}

/-- A walk that looks at the next token ends as its reader if it does so at the end, and in front of
each token. -/
theorem peek (hi : Within ts b i) (hend : ts.drop i = [] → Yields ts b (f none) i (r []))
    (htoken : ∀ t, i < ts.length → ts.drop i = t :: ts.drop (i + 1) →
      Yields ts b (f (some t)) i (r (t :: ts.drop (i + 1)))) :
    Yields ts b (peek ts >>= f) i (r (ts.drop i)) := by
  obtain ⟨x, j, hends, hout⟩ :=
    cursor_cases (P := fun t l => Yields ts b (f t) i (r l)) hi hend htoken
  exact ⟨x, j, hends.peek, hout⟩

/-- A walk that steps forward ends as what follows does from the next place. -/
theorem advance {g : Unit → Walk α} {out : Except Error (α × List Token)}
    (h : Yields ts b (g ()) (i + 1) out) : Yields ts b (advance >>= g) i out := by
  obtain ⟨x, j, hends, hout⟩ := h
  exact ⟨x, j, hends.advance, hout⟩

/-- A walk that takes the next token ends as its reader if it does so at the end, and behind each
token. -/
theorem next (hi : Within ts b i) (hend : ts.drop i = [] → Yields ts b (f none) i (r []))
    (htoken : ∀ t, i < ts.length →
      Yields ts b (f (some t)) (i + 1) (r (t :: ts.drop (i + 1)))) :
    Yields ts b (next ts >>= f) i (r (ts.drop i)) := by
  rw [Cursor.next, bind_assoc]
  refine .peek hi (fun h => ?_) fun t ht _ => ?_
  · exact hend h
  · show Yields ts b ((Cursor.advance >>= fun _ => Pure.pure (some t)) >>= f) i _
    rw [bind_assoc]
    exact .advance (htoken t ht)

end Yields

namespace Steps

variable {nothing : α}

/-- A walk that finds nothing at once stays where it is. -/
theorem pure (hi : Within ts b i) :
    Steps ts b nothing (Pure.pure nothing) i (.ok (nothing, ts.drop i)) :=
  ⟨.ok nothing, i, ⟨fun _ _ => rfl, Nat.le_refl i, hi.le_length⟩, rfl, fun _ => rfl,
    fun h => absurd rfl h⟩

/-- A walk that looks at the next token stays or moves as what follows does. -/
theorem peek {f : Option Token → Walk α} {r : Reader α} (hi : Within ts b i)
    (hend : ts.drop i = [] → Steps ts b nothing (f none) i (r []))
    (htoken : ∀ t, i < ts.length → ts.drop i = t :: ts.drop (i + 1) →
      Steps ts b nothing (f (some t)) i (r (t :: ts.drop (i + 1)))) :
    Steps ts b nothing (peek ts >>= f) i (r (ts.drop i)) := by
  obtain ⟨x, j, hends, hout⟩ :=
    cursor_cases (P := fun t l => Steps ts b nothing (f t) i (r l)) hi hend htoken
  exact ⟨x, j, hends.peek, hout⟩

/-- Behind the token at the cursor there is something to find. -/
theorem advance {g : Unit → Walk α} {out : Except Error (α × List Token)}
    (hfound : ∀ r, out ≠ .ok (nothing, r)) (h : Yields ts b (g ()) (i + 1) out) :
    Steps ts b nothing (advance >>= g) i out := by
  obtain ⟨x, j, hends, rfl⟩ := h
  refine ⟨x, j, hends.advance, rfl, ?_, fun _ => hends.le⟩
  rintro rfl
  exact absurd rfl (hfound _)

/-- The token at the cursor makes the value. -/
theorem advance_pure {a : α} (ha : a ≠ nothing) (hi : Within ts b (i + 1)) :
    Steps ts b nothing (Cursor.advance >>= fun _ => Pure.pure a) i (.ok (a, ts.drop (i + 1))) :=
  .advance (fun _ h => ha (Prod.mk.inj (Except.ok.inj h)).1) (.pure a hi)

/-- What is found behind that token makes the value. -/
theorem advance_map {f : Walk β} {r : Reader β} {h : β → α} (hfound : ∀ a, h a ≠ nothing)
    (hi : Within ts b (i + 1)) (hf : Yields ts b f (i + 1) (r (ts.drop (i + 1)))) :
    Steps ts b nothing (Cursor.advance >>= fun _ => f >>= fun a => Pure.pure (h a)) i
      ((r >>= fun a => Pure.pure (h a)) (ts.drop (i + 1))) := by
  refine .advance (fun rest => ?_) (.map h hi hf)
  rw [Reader.bind_apply]
  intro hnothing
  obtain ⟨x, -, hx⟩ := exists_of_bind_eq_ok hnothing
  cases hx
  exact hfound _ rfl

end Steps

/-- **Taking one token.** A walk that takes a token if it accepts its kind, and refuses it
otherwise, ends as every reader that does this. -/
theorem take_yields {accept : Kind → Option α} {expected : Expectation} {read : Reader α}
    (hi : Within ts b i) (hnil : read [] = unexpected [] expected)
    (hsome : ∀ t r a, accept t.kind = some a → read (t :: r) = .ok (a, r))
    (hnone : ∀ t r, accept t.kind = none → read (t :: r) = unexpected (t :: r) expected) :
    Yields ts b (take ts accept expected) i (read (ts.drop i)) := by
  refine .next hi (fun _ => ?_) fun t ht => ?_
  · rw [hnil]
    exact .refuse [] expected hi
  · have hi' : Within ts b (i + 1) := hi.of_le (Nat.le_succ i) ht
    simp only [Option.bind_some]
    cases ha : accept t.kind with
    | some a =>
        rw [hsome t _ a ha]
        exact .pure a hi'
    | none =>
        rw [hnone t _ ha]
        exact .refuse (t :: _) expected hi'

/-- A name is taken as the reader takes it. -/
theorem ident_yields (expected : Expectation) (hi : Within ts b i) :
    Yields ts b (ident ts expected) i (reader (Css.ident expected) (ts.drop i)) := by
  refine take_yields hi rfl ?_ ?_
  · rintro ⟨k, p⟩ r a h
    cases k <;> cases h
    rfl
  · rintro ⟨k, p⟩ r h
    cases k <;> first | rfl | cases h

/-- A delimiter is taken as the reader takes it. -/
theorem delim_yields (c : Char) (expected : Expectation) (hi : Within ts b i) :
    Yields ts b (delim ts c expected) i (passes (Css.delim c expected) (ts.drop i)) := by
  refine take_yields hi rfl (fun t r a h => ?_) fun t r h => ?_
  · rw [passes, Css.delim, if_pos (by simpa using h)]
    rfl
  · rw [passes, Css.delim, if_neg (by simpa using h)]
    rfl

/-- The value of an attribute selector is taken as the reader takes it. -/
theorem attributeValue_yields (hi : Within ts b i) :
    Yields ts b (attributeValue ts) i (reader Css.attributeValue (ts.drop i)) := by
  refine take_yields hi rfl ?_ ?_
  · rintro ⟨k, p⟩ r a h
    cases k <;> cases h <;> rfl
  · rintro ⟨k, p⟩ r h
    cases k <;> first | rfl | cases h

/-- The text of `:contains` is taken as the reader takes it. -/
theorem containsText_yields (hi : Within ts b i) :
    Yields ts b (containsText ts) i (reader Css.containsText (ts.drop i)) := by
  refine take_yields hi rfl ?_ ?_
  · rintro ⟨k, p⟩ r a h
    cases k <;> cases h <;> rfl
  · rintro ⟨k, p⟩ r h
    cases k <;> first | rfl | cases h

/-! ### White space -/

/-- A token of white space, or nothing. -/
def blankReader : Reader (Round Unit)
  | [] => .ok (.leave, [])
  | t :: r => if t.kind = .blank then .ok (.more (), r) else .ok (.leave, t :: r)

/-- White space, token by token. -/
def blankTokens : Reader (List Unit) := fun ts =>
  .ok ((ts.takeWhile fun t => t.kind = .blank).map fun _ => (), (skipBlank ts).1)

/-- Passes over white space, and says whether there was any. -/
def skips : Reader Bool := fun ts =>
  .ok (decide ((skipBlank ts).1.length < ts.length), (skipBlank ts).1)

/-- White space in front is skipped. -/
theorem skipBlank_cons_of_pos {t : Token} (ht : t.kind = .blank) (ts : List Token) :
    (skipBlank (t :: ts)).1 = (skipBlank ts).1 := by
  simp [skipBlank, Rest.dropWhile, ht]

/-- Nothing is skipped where no white space stands. -/
theorem skipBlank_cons_of_neg {t : Token} (ht : t.kind ≠ .blank) (ts : List Token) :
    (skipBlank (t :: ts)).1 = t :: ts := by
  simp [skipBlank, Rest.dropWhile, ht]

/-- White space is read token by token: the reader is one round and then itself. -/
theorem blankTokens_eq (ts : List Token) :
    blankTokens ts = (blankReader >>= goOn blankTokens) ts := by
  rw [Reader.bind_apply]
  cases ts with
  | nil => rfl
  | cons t r =>
      by_cases ht : t.kind = .blank
      · rw [blankReader, if_pos ht, blankTokens, skipBlank_cons_of_pos ht,
          List.takeWhile_cons_of_pos (by simpa using ht)]
        rfl
      · rw [blankReader, if_neg ht, blankTokens, skipBlank_cons_of_neg ht,
          List.takeWhile_cons_of_neg (by simpa using ht)]
        rfl

/-- White space was passed if fewer tokens are left. -/
theorem skips_eq : skips = blankTokens >>= fun passed => pure !passed.isEmpty := by
  funext ts
  rw [Reader.bind_apply]
  show Except.ok (decide ((skipBlank ts).1.length < ts.length), (skipBlank ts).1) =
    Except.ok (!((ts.takeWhile fun t => t.kind = .blank).map fun _ => ()).isEmpty,
      (skipBlank ts).1)
  cases ts with
  | nil => rfl
  | cons t r =>
      by_cases ht : t.kind = .blank
      · have hlength := (skipBlank r).2
        simp [skipBlank_cons_of_pos ht, ht, Nat.lt_succ_iff.mpr hlength]
      · simp [skipBlank_cons_of_neg ht, ht]

/-- A round over white space takes one blank, or stays and leaves the loop. -/
theorem blank_steps (hi : Within ts b i) :
    Steps ts b .leave (blank ts) i (blankReader (ts.drop i)) := by
  refine .peek hi (fun h => ?_) fun t ht hdrop => ?_
  · rw [blankReader, ← h]
    exact .pure hi
  · by_cases hblank : t.kind = .blank
    · simp only [if_pos hblank, blankReader]
      exact .advance_pure (by simp) (hi.of_le (Nat.le_succ i) ht)
    · simp only [if_neg hblank, blankReader]
      rw [← hdrop]
      exact .pure hi

/-- The cursor skips the white space that the reader skips. -/
theorem skipBlanks_yields (hi : Within ts b i) :
    Yields ts b (skipBlanks ts) i (skips (ts.drop i)) := by
  rw [skips_eq]
  exact .map _ hi (.loop blankTokens_eq hi fun j hij hj => (blank_steps (hi.of_le hij hj)).turns)

/-- Skipping white space and going on ends as the reader that does so. Whether there was any is told
to the walk alone. -/
theorem Yields.blanks {g : Bool → Walk β} {s : Unit → Reader β} (hi : Within ts b i)
    (hg : ∀ w j, Ends ts b (skipBlanks ts) i (.ok w) j → Within ts b j →
      Yields ts b (g w) j (s () (ts.drop j))) :
    Yields ts b (skipBlanks ts >>= g) i ((Css.blanks >>= s) (ts.drop i)) :=
  .bind (s := fun _ => s ()) hi (skipBlanks_yields hi) hg

/-! ### Attributes -/

/-- The operator of an attribute selector is walked over as it is read. -/
theorem attributeOp_yields (hi : Within ts b i) :
    Yields ts b (attributeOp ts) i (reader Css.attributeOp (ts.drop i)) := by
  refine .next hi (fun _ => .refuse [] _ hi) ?_
  rintro ⟨k, p⟩ ht
  have hi' : Within ts b (i + 1) := hi.of_le (Nat.le_succ i) ht
  cases k with
  | delim c =>
      simp only [Option.map_some]
      by_cases hclose : c = ']'
      · rw [if_pos hclose, reader, Css.attributeOp, if_pos hclose]
        exact .pure _ hi'
      by_cases hequals : c = '='
      · rw [if_neg hclose, if_pos hequals, reader, Css.attributeOp, if_neg hclose, if_pos hequals]
        exact .pure _ hi'
      rw [if_neg hclose, if_neg hequals]
      cases hop : AttributeOp.ofChar? c with
      | some op =>
          rw [attributeOp_operator (AttributeOp.ofChar?_eq_some_iff.mp hop)]
          exact .map _ hi' (delim_yields _ _ hi')
      | none =>
          rw [reader, Css.attributeOp, if_neg hclose, if_neg hequals, hop]
          exact .refuse (⟨.delim c, p⟩ :: ts.drop (i + 1)) _ hi'
  | _ => exact .refuse (⟨_, p⟩ :: ts.drop (i + 1)) _ hi'

/-- An attribute selector is walked over as it is read, part by part. -/
theorem attributeTest_yields (hi : Within ts b i) :
    Yields ts b (attributeTest ts) i (reader Css.attributeTest (ts.drop i)) := by
  rw [reader_attributeTest]
  refine .blanks hi fun _ j _ hj => .bind hj (ident_yields _ hj) fun name j _ hj =>
    .blanks hj fun _ j _ hj => .bind hj (attributeOp_yields hj) fun op j _ hj => ?_
  cases op with
  | none => exact .pure _ hj
  | some op =>
      exact .blanks hj fun _ j _ hj => .bind hj (attributeValue_yields hj) fun value j _ hj =>
        .blanks hj fun _ j _ hj => .map _ hj (delim_yields _ _ hj)

/-! ### Pseudo-classes -/

/-- Finds what is there, or refuses the token in front. -/
def orRefuse (expected : Expectation) : Option α → Reader α
  | some a => pure a
  | none => fun ts => unexpected ts expected

/-- What has been found is handed on, and where nothing has been found the next token is refused. -/
theorem required_yields (expected : Expectation) (found : Option α) (hi : Within ts b i) :
    Yields ts b (required ts expected found) i (orRefuse expected found (ts.drop i)) := by
  cases found with
  | some a => exact .pure a hi
  | none =>
      exact .peek (r := fun l => unexpected l expected) hi (fun _ => .refuse [] _ hi)
        fun t _ _ => .refuse (t :: ts.drop (i + 1)) _ hi

/-- The white space and the bracket behind an argument are walked over as they are read. -/
theorem close_yields (hi : Within ts b i) :
    Yields ts b (close ts) i (passes closeArgument (ts.drop i)) := by
  rw [passes_closeArgument]
  exact .blanks hi fun _ j _ hj => delim_yields _ _ hj

/-- Where no bracket stands there is no argument. -/
theorem opens_of_ne {t : Token} (ht : t.kind ≠ .delim '(') (r : List Token) :
    Css.opens (t :: r) = .ok (false, t :: r) := by
  rw [Css.opens, openArgument]
  · rfl
  · rintro p r' h
    cases h
    exact ht rfl

/-- The bracket that opens an argument is walked over as it is read, with the white space behind it.
-/
theorem opens_yields (hi : Within ts b i) :
    Yields ts b (opens ts) i (Css.opens (ts.drop i)) := by
  refine .peek hi (fun h => ?_) fun t ht hdrop => ?_
  · show Yields ts b _ i (.ok (false, []))
    rw [← h]
    exact .pure false hi
  · by_cases hopen : t.kind = .delim '('
    · obtain ⟨k, p⟩ := t
      cases hopen
      have hi' : Within ts b (i + 1) := hi.of_le (Nat.le_succ i) ht
      exact .advance (.blanks (s := fun _ => Pure.pure true) hi' fun _ j _ hj => .pure true hj)
    · rw [opens_of_ne hopen, ← hdrop]
      obtain ⟨k, p⟩ := t
      cases k with
      | delim c =>
          have hc : c ≠ '(' := fun hc => hopen (congrArg Kind.delim hc)
          simp only [Option.map_some, if_neg hc]
          exact .pure false hi
      | _ => exact .pure false hi

/-- What stands behind the name of a pseudo-class. -/
def headReader (name : String) : Reader PseudoHead := do
  if ← Css.opens then
    if name = "not" then return .not
    else if name = "contains" then return .contains
    else throw (.unsupportedPseudoClass (name ++ "()"))
  else match Pseudo.ofName? name with
    | some p => return .plain p
    | none => throw (.unsupportedPseudoClass name)

/-- The name of a pseudo-class and what stands behind it; behind a second colon, the name of a
pseudo-element, which is refused. -/
def pseudoHeadReader : Reader PseudoHead
  | ⟨.delim ':', _⟩ :: r =>
    (reader (Css.ident .pseudoElementName) >>= fun name =>
      throw (.unsupportedPseudoElement name) : Reader PseudoHead) r
  | ts =>
    (reader (Css.ident .pseudoClassName) >>= fun name => headReader name.toLower :
      Reader PseudoHead) ts

/-- Without a second colon a pseudo-class is read, from its name on. -/
theorem pseudoHeadReader_of_ne {ts : List Token} (h : ∀ p r, ts ≠ ⟨.delim ':', p⟩ :: r) :
    pseudoHeadReader ts =
      (reader (Css.ident .pseudoClassName) >>= fun name => headReader name.toLower) ts := by
  rw [pseudoHeadReader]
  exact h

/-- Behind the name of a pseudo-class the walk decides as the reader does: by the bracket first, and
then by the name. -/
theorem head_yields (name : String) (hi : Within ts b i) :
    Yields ts b (head ts name) i (headReader name (ts.drop i)) := by
  refine .bind hi (opens_yields hi) fun opened j _ hj => ?_
  cases opened with
  | true =>
      simp only [if_true]
      by_cases hnot : name = "not"
      · rw [if_pos hnot, if_pos hnot]
        exact .pure _ hj
      by_cases hcontains : name = "contains"
      · rw [if_neg hnot, if_neg hnot, if_pos hcontains, if_pos hcontains]
        exact .pure _ hj
      · rw [if_neg hnot, if_neg hnot, if_neg hcontains, if_neg hcontains]
        exact .throw _ hj
  | false =>
      simp only [Bool.false_eq_true, if_false]
      cases Pseudo.ofName? name with
      | some p => exact .pure _ hj
      | none => exact .throw _ hj

/-- The opening of a pseudo-class is walked over as it is read. -/
theorem pseudoHead_yields (hi : Within ts b i) :
    Yields ts b (pseudoHead ts) i (pseudoHeadReader (ts.drop i)) := by
  have hname := Yields.bind (s := fun name => headReader name.toLower) hi
    (ident_yields .pseudoClassName hi) fun name j _ hj => head_yields name.toLower hj
  rw [pseudoHead]
  refine .peek hi (fun h => ?_) fun t ht hdrop => ?_
  · rw [h] at hname
    exact hname
  · by_cases hcolon : t.kind = .delim ':'
    · obtain ⟨k, p⟩ := t
      cases hcolon
      have hi' : Within ts b (i + 1) := hi.of_le (Nat.le_succ i) ht
      exact .advance (.bind hi' (ident_yields _ hi') fun name j _ hj => .throw _ hj)
    · have hne : ∀ p r, t :: ts.drop (i + 1) ≠ ⟨.delim ':', p⟩ :: r := by
        rintro p r h
        cases h
        exact hcolon rfl
      rw [if_neg (by simpa using hcolon), pseudoHeadReader_of_ne hne, ← hdrop]
      exact hname

end XPathLocator.Css.Cursor
