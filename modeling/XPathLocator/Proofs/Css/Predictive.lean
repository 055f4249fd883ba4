import XPathLocator.Proofs.Css.Grammar

/-!
# `XPathLocator.Proofs.Css.Predictive`: readers that follow a grammar token by token

A reader takes tokens from the front. `Predicts read L ts` says how it gets on with `ts`
where `L` has the parts it is for:

* it takes a part of `L`, or
* it refuses the first token with which no part can go on, or the end if that comes too
  early, or
* it meets a name that it does not support.

In the first two cases the tokens split into `p`, which is read, and `r`, which is left.
The reader looks no further than the first token of `r`: with any other tokens behind that
one it does the same.

`Predicts` goes from the parts of a reader to the whole. Behind a part of `L` that says
`a`, the rest of the reader is for the parts in `L.behind a N`.
-/

set_option autoImplicit false

namespace XPathLocator.Css

open Token (Kind)

/-- A reader takes tokens from the front and gives a value. -/
abbrev Reader (α : Type) := StateT (List Token) (Except Error) α

/-- The kinds of tokens that make up a part of a selector, each list with what it says. -/
abbrev Language (α : Type) := List Kind → α → Prop

/-- What makes a part of `N` behind each part of `L` that says `a`. -/
def Language.behind {α β : Type} (L : Language α) (a : α) (N : Language β) : Language β :=
  fun ks b => ∀ us, L us a → N (us ++ ks) b

/-- The error is about a pseudo-class or a pseudo-element without an XPath form. -/
def Error.IsPseudo : Error → Prop
  | .unsupportedPseudoClass _ | .unsupportedPseudoElement _ => True
  | _ => False

variable {α β : Type}

/-- The tokens `p` can go on to something that is no syntax error: to a part of `L`, or to
a name that is not supported. -/
def Viable (read : Reader α) (L : Language α) (p : List Token) : Prop :=
  (∃ ks a, L (p.map Token.kind ++ ks) a) ∨
    p ≠ [] ∧ ∃ t e, Error.IsPseudo e ∧ ∀ us, read (p ++ t :: us) = .error e

/-- The reader takes `p`, a part that says `a`, on sight of the first token of `r`. -/
structure Takes (read : Reader α) (L : Language α) (p r : List Token) (a : α) : Prop where
  part : L (p.map Token.kind) a
  eq_ok : ∀ us, us.head? = r.head? → read (p ++ us) = .ok (a, us)

/-- The reader refuses the first token of `r`, or the end if there is none, and another
token in its place would have done. -/
structure Refuses (read : Reader α) (L : Language α) (p r : List Token)
    (expected : Expectation) : Prop where
  viable : Viable read L p
  eq_unexpected : ∀ us, us.head? = r.head? → read (p ++ us) = unexpected us expected

/-- The reader finds a part of `L` in front of any tokens. -/
def Total (read : Reader α) (L : Language α) : Prop :=
  ∀ ts, ∃ p r a, ts = p ++ r ∧ Takes read L p r a

/-- What a reader that follows `L` does with `ts`. -/
inductive Predicts (read : Reader α) (L : Language α) : List Token → Prop
  | takes {p r : List Token} {a : α} (h : Takes read L p r a) : Predicts read L (p ++ r)
  | refuses {p r : List Token} {expected : Expectation}
      (h : Refuses read L p r expected) : Predicts read L (p ++ r)
  | unsupported {ts : List Token} {e : Error} (he : e.IsPseudo) (h : read ts = .error e) :
      Predicts read L ts

/-! ### What is read and what is refused -/

/-- What follows a reader gets its value and the tokens that it leaves. -/
theorem Reader.bind_apply (f : Reader α) (g : α → Reader β) (ts : List Token) :
    (f >>= g) ts = f ts >>= fun x => g x.1 x.2 :=
  rfl

/-- A refusal is no success. -/
theorem unexpected_ne_ok {ts : List Token} {expected : Expectation} {a : α} :
    unexpected ts expected ≠ .ok a := by
  cases ts <;> nofun

/-- Nothing is read behind a refusal. -/
theorem unexpected_bind (us : List Token) (expected : Expectation) (f : α → Except Error β) :
    (unexpected us expected >>= f) = unexpected us expected := by
  cases us <;> rfl

/-- Behind the same tokens, the same next token is seen. -/
theorem head?_append_eq {us vs : List Token} (p : List Token) (h : us.head? = vs.head?) :
    (p ++ us).head? = (p ++ vs).head? := by
  rw [List.head?_append, List.head?_append, h]

/-- Where tokens stand in front, what is behind them is not seen. -/
theorem head?_append_of_ne_nil {p : List Token} (hp : p ≠ []) (us vs : List Token) :
    (p ++ us).head? = (p ++ vs).head? := by
  cases p with
  | nil => exact absurd rfl hp
  | cons t p => rfl

/-- A value comes from the tokens taken. -/
theorem Predicts.exists_takes {read : Reader α} {L : Language α} {ts r : List Token} {a : α}
    (h : Predicts read L ts) (hread : read ts = .ok (a, r)) :
    ∃ p, ts = p ++ r ∧ Takes read L p r a := by
  cases h with
  | @takes p r' a' htakes =>
      rw [htakes.eq_ok r' rfl] at hread
      cases hread
      exact ⟨p, rfl, htakes⟩
  | @refuses p r' expected hrefuses =>
      rw [hrefuses.eq_unexpected r' rfl] at hread
      exact absurd hread unexpected_ne_ok
  | unsupported _ herror =>
      rw [herror] at hread
      cases hread

/-- The reader looks at one token: it takes a part that starts with it, or nothing. -/
theorem Total.of_token {read : Reader α} {L : Language α} {a₀ : α}
    (h : ∀ t r, (∃ p r' a, t :: r = p ++ r' ∧ Takes read L p r' a) ∨
      ∀ us, read (t :: us) = .ok (a₀, t :: us))
    (hnil : read [] = .ok (a₀, [])) (hL : L [] a₀) : Total read L := by
  intro ts
  cases ts with
  | nil =>
      refine ⟨[], [], a₀, rfl, hL, fun us hus => ?_⟩
      cases List.head?_eq_none_iff.mp hus
      exact hnil
  | cons t r =>
      rcases h t r with htakes | hnone
      · exact htakes
      · refine ⟨[], t :: r, a₀, rfl, hL, fun us hus => ?_⟩
        obtain ⟨us, rfl⟩ := List.head?_eq_some_iff.mp hus
        exact hnone us

/-! ### Readers made of readers -/

namespace Predicts

variable {f : Reader α} {g : α → Reader β} {L : Language α} {N : Language β} {ts : List Token}

/-- The reader takes nothing on sight of the first token. -/
theorem nothing {a : α} (h : ∀ us, us.head? = ts.head? → f us = .ok (a, us)) (hL : L [] a) :
    Predicts f L ts :=
  have htakes : Takes f L [] ts a := ⟨hL, h⟩
  .takes htakes

/-- What reads nothing takes nothing, which has to be a part. -/
theorem pure {a : α} (h : L [] a) (ts : List Token) : Predicts (pure a) L ts :=
  .nothing (fun _ _ => rfl) h

/-- The reader refuses the first token, and there is a part to read. -/
theorem refuse (expected : Expectation)
    (h : ∀ us, us.head? = ts.head? → f us = unexpected us expected) (hL : ∃ ks a, L ks a) :
    Predicts f L ts :=
  have hrefuses : Refuses f L [] ts expected := ⟨.inl hL, h⟩
  .refuses hrefuses

/-- Behind the tokens `p`, `f` does what `f'` does. -/
theorem behind {f' : Reader α} {M : Language α} (p : List Token)
    (h : ∀ us, us.head? = ts.head? → f (p ++ us) = f' us) (hf' : Predicts f' M ts)
    (hL : ∀ ks a, M ks a → L (p.map Token.kind ++ ks) a) : Predicts f L (p ++ ts) := by
  cases hf' with
  | @takes q r a hread =>
      have htakes : Takes f L (p ++ q) r a := by
        refine ⟨?_, fun us hus => ?_⟩
        · rw [List.map_append]
          exact hL _ _ hread.part
        · rw [List.append_assoc, h _ (head?_append_eq q hus), hread.eq_ok us hus]
      rw [← List.append_assoc]
      exact .takes htakes
  | @refuses q r expected hread =>
      have hrefuses : Refuses f L (p ++ q) r expected := by
        refine ⟨?_, fun us hus => ?_⟩
        · rcases hread.viable with ⟨ks, a, ha⟩ | ⟨hq, t, e, he, hpseudo⟩
          · exact .inl ⟨ks, a, by rw [List.map_append, List.append_assoc]; exact hL _ _ ha⟩
          · refine .inr ⟨by simp [hq], t, e, he, fun us => ?_⟩
            rw [List.append_assoc, h _ (head?_append_of_ne_nil hq _ _), hpseudo]
        · rw [List.append_assoc, h _ (head?_append_eq q hus), hread.eq_unexpected us hus]
      rw [← List.append_assoc]
      exact .refuses hrefuses
  | unsupported he hread => exact .unsupported he ((h _ rfl).trans hread)

/-- What follows a grammar follows one that has the same parts and more. -/
theorem mono {M : Language α} (h : Predicts f M ts) (hL : ∀ ks a, M ks a → L ks a) :
    Predicts f L ts :=
  .behind [] (fun _ _ => rfl) h hL

/-- In front stands a token that `f` takes at once. -/
theorem cons {f' : Reader α} {M : Language α} (t : Token) (h : ∀ us, f (t :: us) = f' us)
    (hf' : Predicts f' M ts) (hL : ∀ ks a, M ks a → L (t.kind :: ks) a) :
    Predicts f L (t :: ts) :=
  .behind [t] (fun us _ => h us) hf' hL

/-- The reader takes one token. -/
theorem one {t : Token} {a : α} (h : L [t.kind] a) (hf : ∀ us, f (t :: us) = .ok (a, us))
    (r : List Token) : Predicts f L (t :: r) :=
  have htakes : Takes f L [t] r a := ⟨h, fun us _ => hf us⟩
  .takes htakes

/-- The reader looks at one token: it goes on with that or refuses it. -/
theorem of_token {expected : Expectation}
    (h : ∀ t r, t :: r = ts → Predicts f L ts ∨ ∀ us, f (t :: us) = unexpected (t :: us) expected)
    (hnil : f [] = unexpected [] expected) (hL : ∃ ks a, L ks a) : Predicts f L ts := by
  cases ts with
  | nil =>
      refine refuse expected (fun us hus => ?_) hL
      cases List.head?_eq_none_iff.mp hus
      exact hnil
  | cons t r =>
      rcases h t r rfl with hpredicts | hunexpected
      · exact hpredicts
      · refine refuse expected (fun us hus => ?_) hL
        obtain ⟨us, rfl⟩ := List.head?_eq_some_iff.mp hus
        exact hunexpected us

/-- Once a part is taken, the reader goes on behind it. -/
theorem bind_of_takes {p r : List Token} {a : α} (hf : Takes f L p r a)
    (hg : Predicts (g a) (L.behind a N) r) : Predicts (f >>= g) N (p ++ r) := by
  refine .behind p (fun us hus => ?_) hg fun ks b h => h _ hf.part
  rw [Reader.bind_apply, hf.eq_ok us hus]
  rfl

/-- **Behind a reader that always succeeds** the next one decides. -/
theorem bind_of_total (hf : Total f L)
    (hg : ∀ a r, r.length ≤ ts.length → Predicts (g a) (L.behind a N) r) :
    Predicts (f >>= g) N ts := by
  obtain ⟨p, r, a, rfl, h⟩ := hf ts
  exact bind_of_takes h (hg a r (by simp))

/-- One reader after the other. Each part of the first must be able to go on to a part of
the whole, since what the first refuses is then refused by both. -/
theorem bind_parts (hf : Predicts f L ts)
    (hg : ∀ p r a, ts = p ++ r → L (p.map Token.kind) a → Predicts (g a) (L.behind a N) r)
    (hN : ∀ us a, L us a → ∃ ks b, N (us ++ ks) b) : Predicts (f >>= g) N ts := by
  cases hf with
  | takes h => exact bind_of_takes h (hg _ _ _ rfl h.part)
  | @refuses p r expected h =>
      have hrefuses : Refuses (f >>= g) N p r expected := by
        refine ⟨?_, fun us hus => ?_⟩
        · rcases h.viable with ⟨ks, a, ha⟩ | ⟨hp, t, e, he, hpseudo⟩
          · obtain ⟨vs, b, hb⟩ := hN _ a ha
            exact .inl ⟨ks ++ vs, b, by rwa [← List.append_assoc]⟩
          · refine .inr ⟨hp, t, e, he, fun us => ?_⟩
            rw [Reader.bind_apply, hpseudo us]
            rfl
        · rw [Reader.bind_apply, h.eq_unexpected us hus, unexpected_bind]
      exact .refuses hrefuses
  | unsupported he h =>
      refine .unsupported he ?_
      rw [Reader.bind_apply, h]
      rfl

/-- **One reader after the other** follows a grammar if the second one does behind each part that
the first one takes. What the first one takes has to go on to something. -/
theorem bind (hf : Predicts f L ts)
    (hg : ∀ a r, r.length ≤ ts.length → Predicts (g a) (L.behind a N) r)
    (hN : ∀ us a, L us a → ∃ ks b, N (us ++ ks) b) : Predicts (f >>= g) N ts :=
  bind_parts hf (fun _ r a hts _ => hg a r (by simp [hts])) hN

/-- The last reader: with its part, the whole is complete. -/
theorem map {h : α → β} (hf : Predicts f L ts) (hN : ∀ ks a, L ks a → N ks (h a)) :
    Predicts (f >>= fun a => Pure.pure (h a)) N ts := by
  refine .bind hf (fun a r _ => .pure (fun ks ha => ?_) r) fun ks a ha => ⟨[], h a, ?_⟩
  · rw [List.append_nil]
    exact hN ks a ha
  · rw [List.append_nil]
    exact hN ks a ha

end Predicts

end XPathLocator.Css
