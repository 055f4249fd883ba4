import XPathLocator.Proofs.Css.Margin
import XPathLocator.Proofs.Css.Quoted
import XPathLocator.Proofs.Css.Recognition
import XPathLocator.Proofs.Css.Refusal
import XPathLocator.Proofs.Except

/-!
# `XPathLocator.Proofs.Css.Unsupported`: where unsupported constructs are met

The compiler has no XPath for pseudo-elements, for most pseudo-classes with an argument, and for
pseudo-classes that it does not know (`Unsupported`). The parser reads from the left and stops at
the first of them. What is in front is then part of a selector, and it could go on with a
pseudo-class in the place of the construct. What is behind is not read at all: with any other
tokens there, as long as the first is the same, the error is the same. So a text that is reported
as unsupported need not be a selector but for what is unsupported in it.

`Foresees` says this of a reader, beside `Predicts`, and goes from the parts of a reader to the
whole in the same way. Most readers know nothing of pseudo-classes (`Quiet`).
-/

set_option autoImplicit false

namespace XPathLocator.Css

open Token (Kind)

/-- The tokens `ks` name a pseudo-class or a pseudo-element without an XPath form, where `us` are
the tokens behind. A pseudo-class with an argument is refused at its opening bracket. -/
inductive Unsupported : List Kind → List Kind → Error → Prop
  | element (name : String) (us : List Kind) :
      Unsupported [.delim ':', .delim ':', .ident name] us (.unsupportedPseudoElement name)
  | function {name : String} (hnot : name.toLower ≠ "not") (hcontains : name.toLower ≠ "contains")
      (us : List Kind) :
      Unsupported [.delim ':', .ident name, .delim '('] us
        (.unsupportedPseudoClass (name.toLower ++ "()"))
  | name {name : String} {us : List Kind} (h : ∀ p, ¬ PseudoName name.toLower p)
      (hus : us.head? ≠ some (.delim '(')) :
      Unsupported [.delim ':', .ident name] us (.unsupportedPseudoClass name.toLower)

variable {α β : Type}

/-- The reader stops at the construct `c`, on sight of the first token of `r`. A pseudo-class that
it knows could stand there. -/
structure StopsAt (read : Reader α) (L : Language α) (p c r : List Token) (e : Error) : Prop where
  construct : Unsupported (c.map Token.kind) (r.map Token.kind) e
  part : ∃ ks a, L (p.map Token.kind ++ .delim ':' :: .ident "root" :: ks) a
  eq_error : ∀ us, us.head? = r.head? → read (p ++ (c ++ us)) = .error e

/-- If the reader reports something unsupported, it stops at that. -/
def Foresees (read : Reader α) (L : Language α) (ts : List Token) : Prop :=
  ∀ e, e.IsPseudo → read ts = .error e →
    ∃ p c r, ts = p ++ (c ++ r) ∧ StopsAt read L p c r e

/-- The reader never reports anything as unsupported. -/
def Quiet (read : Reader α) : Prop :=
  ∀ ts e, read ts = .error e → ¬ e.IsPseudo

/-! ### Readers that know nothing of pseudo-classes -/

/-- A refused token is a syntax error and nothing else. -/
theorem not_isPseudo_of_unexpected {ts : List Token} {expected : Expectation} {e : Error}
    (h : (unexpected ts expected : Except Error α) = .error e) : ¬ e.IsPseudo := by
  cases ts <;> (cases h; exact id)

/-- What always succeeds reports nothing. -/
theorem Total.quiet {f : Reader α} {L : Language α} (hf : Total f L) : Quiet f := by
  intro ts e h
  obtain ⟨p, r, a, rfl, htakes⟩ := hf ts
  rw [htakes.eq_ok r rfl] at h
  cases h

/-- What reads nothing reports nothing. -/
theorem quiet_pure (a : α) : Quiet (pure a) :=
  nofun

/-- Two readers that report nothing unsupported do not when one comes after the other. -/
theorem Quiet.bind {f : Reader α} {g : α → Reader β} (hf : Quiet f) (hg : ∀ a, Quiet (g a)) :
    Quiet (f >>= g) := by
  intro ts e h
  rw [Reader.bind_apply] at h
  cases hread : f ts with
  | error e' =>
      rw [hread] at h
      cases h
      exact hf ts _ hread
  | ok x =>
      rw [hread] at h
      exact hg x.1 x.2 e h

/-- The reader takes the first token or refuses it. -/
theorem quiet_of_token {f : Reader α} {expected : Expectation}
    (h : ∀ t r, (∃ x, f (t :: r) = .ok x) ∨ f (t :: r) = unexpected (t :: r) expected)
    (hnil : f [] = unexpected [] expected) : Quiet f := by
  intro ts e herror
  cases ts with
  | nil => exact not_isPseudo_of_unexpected (hnil.symm.trans herror)
  | cons t r =>
      rcases h t r with ⟨x, hx⟩ | hrefused
      · cases hx.symm.trans herror
      · exact not_isPseudo_of_unexpected (hrefused.symm.trans herror)

/-- A name is there, or it is a syntax error. -/
theorem quiet_ident (expected : Expectation) : Quiet (reader (ident expected)) := by
  refine quiet_of_token (fun ⟨k, p⟩ r => ?_) rfl
  cases k with
  | ident name => exact .inl ⟨_, rfl⟩
  | _ => exact .inr rfl

/-- A delimiter is there, or it is a syntax error. -/
theorem quiet_delim (c : Char) (expected : Expectation) : Quiet (passes (delim c expected)) := by
  refine quiet_of_token (fun t r => ?_) rfl
  rw [passes, delim]
  by_cases ht : t.kind = .delim c
  · exact .inl ⟨_, by rw [if_pos ht]; rfl⟩
  · exact .inr (by rw [if_neg ht]; rfl)

/-- The value of an attribute is there, or it is a syntax error. -/
theorem quiet_attributeValue : Quiet (reader attributeValue) := by
  refine quiet_of_token (fun ⟨k, p⟩ r => ?_) rfl
  cases k with
  | ident | string | number => exact .inl ⟨_, rfl⟩
  | _ => exact .inr rfl

/-- The text of `:contains` is there, or it is a syntax error. -/
theorem quiet_containsText : Quiet (reader containsText) := by
  refine quiet_of_token (fun ⟨k, p⟩ r => ?_) rfl
  cases k with
  | ident | string => exact .inl ⟨_, rfl⟩
  | _ => exact .inr rfl

/-- An operator is there, or the bracket that closes, or it is a syntax error. -/
theorem quiet_attributeOp : Quiet (reader attributeOp) := by
  intro ts e h
  have hread := map_eq_error_iff.mp h
  cases ts with
  | nil =>
      cases hread
      exact id
  | cons t r =>
      obtain ⟨k, p⟩ := t
      cases k with
      | delim c =>
          cases hop : AttributeOp.ofChar? c with
          | some op =>
              rw [attributeOp_operator (AttributeOp.ofChar?_eq_some_iff.mp hop)] at h
              exact (quiet_delim _ _).bind (fun _ => quiet_pure _) r e h
          | none =>
              rw [attributeOp, hop] at hread
              split at hread
              · cases hread
              split at hread
              · cases hread
              exact not_isPseudo_of_unexpected hread
      | _ =>
          cases hread
          exact id

/-- No pseudo-class stands between the brackets of an attribute selector. -/
theorem quiet_attributeTest : Quiet (reader attributeTest) := by
  rw [reader_attributeTest]
  refine blanks_total.quiet.bind fun _ => (quiet_ident _).bind fun name =>
    blanks_total.quiet.bind fun _ => quiet_attributeOp.bind fun op => ?_
  cases op with
  | none => exact quiet_pure _
  | some op =>
      exact blanks_total.quiet.bind fun _ => quiet_attributeValue.bind fun value =>
        blanks_total.quiet.bind fun _ => (quiet_delim _ _).bind fun _ => quiet_pure _

/-- The bracket behind an argument is there, or it is a syntax error. -/
theorem quiet_closeArgument : Quiet (passes closeArgument) := by
  rw [passes_closeArgument]
  exact blanks_total.quiet.bind fun _ => quiet_delim _ _

/-- No pseudo-class stands in the argument of `:contains`. -/
theorem quiet_containsReader : Quiet containsReader :=
  quiet_containsText.bind fun _ => quiet_closeArgument.bind fun _ => quiet_pure _

/-! ### Readers made of readers -/

/-- A reader that never reports anything as unsupported has nothing to stop at. -/
theorem Quiet.foresees {f : Reader α} (hf : Quiet f) (L : Language α) (ts : List Token) :
    Foresees f L ts :=
  fun e he h => absurd he (hf ts e h)

/-- Where a reader stops at a construct, that is what it reports. -/
theorem StopsAt.foresees {f : Reader α} {L : Language α} {p c r : List Token} {e : Error}
    (h : StopsAt f L p c r e) : Foresees f L (p ++ (c ++ r)) := by
  intro e' _ herror
  rw [h.eq_error r rfl] at herror
  cases herror
  exact ⟨p, c, r, rfl, h⟩

namespace Foresees

variable {f : Reader α} {g : α → Reader β} {L : Language α} {N : Language β} {ts : List Token}

/-- Behind the tokens `p`, `f` does what `f'` does. -/
theorem behind {f' : Reader α} {M : Language α} (p : List Token)
    (h : ∀ us, us.head? = ts.head? → f (p ++ us) = f' us) (hf' : Foresees f' M ts)
    (hL : ∀ ks a, M ks a → L (p.map Token.kind ++ ks) a) : Foresees f L (p ++ ts) := by
  intro e he herror
  obtain ⟨q, c, r, rfl, hstops⟩ := hf' e he ((h ts rfl).symm.trans herror)
  refine ⟨p ++ q, c, r, (List.append_assoc ..).symm, hstops.construct, ?_, fun us hus => ?_⟩
  · obtain ⟨ks, a, ha⟩ := hstops.part
    exact ⟨ks, a, by rw [List.map_append, List.append_assoc]; exact hL _ _ ha⟩
  · rw [List.append_assoc, h _ (head?_append_eq q (head?_append_eq c hus)), hstops.eq_error us hus]

/-- Whether a reader stops at what it reports is not changed by a language with more in it: only
more can then stand there. -/
theorem mono {M : Language α} (h : Foresees f M ts) (hL : ∀ ks a, M ks a → L ks a) :
    Foresees f L ts :=
  behind [] (fun _ _ => rfl) h hL

/-- Once a part is taken, the reader goes on behind it. -/
theorem bind_of_takes {p r : List Token} {a : α} (hf : Takes f L p r a)
    (hg : Foresees (g a) (L.behind a N) r) : Foresees (f >>= g) N (p ++ r) := by
  refine behind p (fun us hus => ?_) hg fun ks b h => h _ hf.part
  rw [Reader.bind_apply, hf.eq_ok us hus]
  rfl

/-- Behind a reader that always succeeds, the next one stops at what it reports. -/
theorem bind_of_total (hf : Total f L)
    (hg : ∀ a r, r.length ≤ ts.length → Foresees (g a) (L.behind a N) r) :
    Foresees (f >>= g) N ts := by
  obtain ⟨p, r, a, rfl, h⟩ := hf ts
  exact bind_of_takes h (hg a r (by simp))

/-- One reader after the other. What the first stops at, the whole stops at. -/
theorem bind_parts (hf : Predicts f L ts) (hf' : Foresees f L ts)
    (hg : ∀ p r a, ts = p ++ r → L (p.map Token.kind) a → Foresees (g a) (L.behind a N) r)
    (hN : ∀ us a, L us a → ∃ ks b, N (us ++ ks) b) : Foresees (f >>= g) N ts := by
  intro e he herror
  cases hread : f ts with
  | ok x =>
      obtain ⟨a, r⟩ := x
      obtain ⟨p, rfl, htakes⟩ := hf.exists_takes hread
      exact bind_of_takes htakes (hg p r a rfl htakes.part) e he herror
  | error e' =>
      have heq : e' = e := by
        rw [Reader.bind_apply, hread] at herror
        cases herror
        rfl
      subst heq
      obtain ⟨p, c, r, rfl, hstops⟩ := hf' e' he hread
      refine ⟨p, c, r, rfl, hstops.construct, ?_, fun us hus => ?_⟩
      · obtain ⟨ks, a, ha⟩ := hstops.part
        obtain ⟨vs, b, hb⟩ := hN _ a ha
        exact ⟨ks ++ vs, b, by simpa using hb⟩
      · rw [Reader.bind_apply, hstops.eq_error us hus]
        rfl

/-- **One reader after the other** stops at what is reported, by whichever of the two. If it is the
first one, the second part can still follow what stands for the construct. -/
theorem bind (hf : Predicts f L ts) (hf' : Foresees f L ts)
    (hg : ∀ a r, r.length ≤ ts.length → Foresees (g a) (L.behind a N) r)
    (hN : ∀ us a, L us a → ∃ ks b, N (us ++ ks) b) : Foresees (f >>= g) N ts :=
  bind_parts hf hf' (fun _ r a hts _ => hg a r (by simp [hts])) hN

/-- The last reader: with its part, the whole is complete. -/
theorem map {h : α → β} (hf : Predicts f L ts) (hf' : Foresees f L ts)
    (hN : ∀ ks a, L ks a → N ks (h a)) : Foresees (f >>= fun a => Pure.pure (h a)) N ts := by
  refine bind hf hf' (fun a r _ => (quiet_pure _).foresees _ r) fun ks a ha => ⟨[], h a, ?_⟩
  rw [List.append_nil]
  exact hN ks a ha

end Foresees

/-! ### Compounds -/

section Compounds
variable {ts : List Token}

/-- Simple selectors stop at what is reported, in the first one or behind it. -/
theorem andMore_foresees {f : Reader Simple} {l : List Kind}
    (hf : Predicts f (fun ks s => SimpleKinds (l ++ ks) s) ts)
    (hf' : Foresees f (fun ks s => SimpleKinds (l ++ ks) s) ts)
    (ih : ∀ r, r.length ≤ ts.length → Foresees (reader simples) SimplesKinds r) :
    Foresees (andMore f) (fun ks ss => SimplesKinds (l ++ ks) ss) ts := by
  refine .bind hf hf' (fun s r hr => .map (simples_predicts r) (ih r hr) ?_) ?_
  · intro ks more hmore us hs
    rw [← List.append_assoc]
    exact hs ks more hmore
  · intro us s hs
    exact ⟨[], [s], by simpa using hs [] [] .nil⟩

/-- A compound stops at what is reported in its simple selectors. -/
theorem compoundReader_foresees (expected : Expectation)
    (ih : ∀ r, r.length ≤ ts.length → Foresees (reader simples) SimplesKinds r) :
    Foresees (compoundReader expected) CompoundKinds ts := by
  refine .bind_of_total element_total fun element r hr =>
    .bind (simples_predicts r) (ih r hr) (fun simples r' _ => ?_)
      fun ks simples hks => hks.exists_compound element
  split
  · exact Quiet.foresees (fun _ _ => not_isPseudo_of_unexpected) _ r'
  · exact (quiet_pure _).foresees _ r'

/-- The argument of `:not` stops at what is reported in it. -/
theorem notReader_foresees {name : String} (hname : name.toLower = "not")
    (ih : ∀ r, r.length ≤ ts.length → Foresees (reader simples) SimplesKinds r) :
    Foresees notReader (ArgumentKinds name) ts := by
  refine .bind (compoundReader_predicts _ fun r _ => simples_predicts r)
    (compoundReader_foresees _ ih)
    (fun c r _ => (quiet_closeArgument.bind fun _ => quiet_pure _).foresees _ r)
    fun cs c hc => ?_
  exact ⟨[.delim ')'], .not c.element c.simples, hc.argument hname blanks_nil⟩

/-- The compiler has an XPath form for a pseudo-class of this name, with or without an argument. -/
def Supported (name : String) (opened : Bool) : Prop :=
  if opened then name = "not" ∨ name = "contains" else ∃ p, PseudoName name p

/-- Behind the name of a pseudo-class with an XPath form, only what is in its argument is reported.
-/
theorem argumentReader_foresees {name : String}
    (h : Supported name.toLower (openArgument ts).1)
    (ih : ∀ r, r.length ≤ ts.length → Foresees (reader simples) SimplesKinds r) :
    Foresees (argumentReader name.toLower)
      (fun ks s => SimpleKinds (.delim ':' :: .ident name :: ks) s) ts := by
  obtain ⟨p, r, opened, rfl, htakes⟩ := opens_total ts
  have hopened : (openArgument (p ++ r)).1 = opened :=
    (Prod.mk.inj (Except.ok.inj (htakes.eq_ok r rfl))).1
  rw [hopened, Supported] at h
  refine .bind_of_takes htakes ?_
  cases opened with
  | true =>
      simp only [if_true] at h ⊢
      split
      · next hnot =>
        exact .mono (notReader_foresees hnot fun r' hr' => ih r' (by simp; omega))
          fun ks s hks => hks.behind_opening
      · next hnot =>
        rw [if_pos (h.resolve_left hnot)]
        exact quiet_containsReader.foresees _ r
  | false =>
      simp only [Bool.false_eq_true, if_false] at h ⊢
      obtain ⟨p, hp⟩ := h
      rw [Pseudo.ofName?_eq_some_iff.mpr hp]
      exact (quiet_pure _).foresees _ r

/-- Without a bracket there is no argument. -/
theorem openArgument_of_ne (h : ∀ o r, ts ≠ ⟨.delim '(', o⟩ :: r) :
    openArgument ts = (false, .all ts) := by
  rw [openArgument]
  exact h

/-- A pseudo-class without an XPath form is refused at its opening bracket, or on sight of what
stands behind its name. -/
theorem argumentReader_unsupported {name : String}
    (h : ¬ Supported name.toLower (openArgument ts).1) :
    ∃ c r e, ts = c ++ r ∧
      Unsupported (.delim ':' :: .ident name :: c.map Token.kind) (r.map Token.kind) e ∧
      ∀ us, us.head? = r.head? → argumentReader name.toLower (c ++ us) = .error e := by
  -- A name with a bracket behind it is refused for what it would take, and the bracket is part of
  -- what was read. Without one the next token is looked at and left.
  by_cases hopen : ∃ o r, ts = ⟨.delim '(', o⟩ :: r
  · obtain ⟨o, r, rfl⟩ := hopen
    obtain ⟨hnot, hcontains⟩ := not_or.mp h
    refine ⟨[_], r, _, rfl, .function hnot hcontains _, fun us _ => ?_⟩
    rw [List.singleton_append, argumentReader, opens_bind, openArgument, if_pos rfl, if_neg hnot,
      if_neg hcontains]
    rfl
  · have hclosed {us : List Token} (hus : us.head? = ts.head?) :
        openArgument us = (false, .all us) := by
      refine openArgument_of_ne fun o r hr => hopen ?_
      rw [hr] at hus
      obtain ⟨r', hr'⟩ := List.head?_eq_some_iff.mp hus.symm
      exact ⟨o, r', hr'⟩
    have hnone : ∀ p, ¬ PseudoName name.toLower p := by
      rw [hclosed rfl] at h
      exact not_exists.mp h
    refine ⟨[], ts, _, rfl, .name hnone fun hhead => ?_, fun us hus => ?_⟩
    · obtain ⟨⟨k, o⟩, ht, rfl⟩ : ∃ t, ts.head? = some t ∧ t.kind = .delim '(' := by
        simpa using hhead
      obtain ⟨r, hr⟩ := List.head?_eq_some_iff.mp ht
      exact hopen ⟨o, r, hr⟩
    · rw [List.nil_append, argumentReader, opens_bind, hclosed hus]
      simp only [Bool.false_eq_true, if_false, Pseudo.ofName?_eq_none_iff.mpr hnone]
      rfl

/-- One pseudo-class without an argument, to stand for others. -/
theorem simplesKinds_root : SimplesKinds [.delim ':', .ident "root"] [.pseudo .root] :=
  .pseudo pseudoName_root .nil

/-- Behind two colons the name is what is reported, once it is there. -/
theorem colons_foresees (p q : Nat) (ts : List Token) :
    Foresees (reader simples) SimplesKinds (⟨.delim ':', p⟩ :: ⟨.delim ':', q⟩ :: ts) := by
  by_cases hname : ∃ name o r, ts = ⟨.ident name, o⟩ :: r
  · obtain ⟨name, o, r, rfl⟩ := hname
    have hstops : StopsAt (reader simples) SimplesKinds []
        [⟨.delim ':', p⟩, ⟨.delim ':', q⟩, ⟨.ident name, o⟩] r (.unsupportedPseudoElement name) :=
      ⟨.element name _, ⟨[], _, simplesKinds_root⟩, fun us _ => simples_colons p _ q⟩
    exact hstops.foresees
  · intro e he herror
    rw [simples_colons, reader_bind, ident_eq_unexpected fun name o r h => hname ⟨name, o, r, h⟩,
      unexpected_bind] at herror
    exact absurd he (not_isPseudo_of_unexpected herror)

/-- A pseudo-class without an XPath form is what is reported; with one, it is something in its
argument or behind it. -/
theorem pseudo_foresees (p : Nat) (hcolon : ∀ q r, ts ≠ ⟨.delim ':', q⟩ :: r)
    (ih : ∀ r, r.length ≤ ts.length → Foresees (reader simples) SimplesKinds r) :
    Foresees (reader simples) SimplesKinds (⟨.delim ':', p⟩ :: ts) := by
  by_cases hname : ∃ name o r, ts = ⟨.ident name, o⟩ :: r
  · obtain ⟨name, o, r, rfl⟩ := hname
    have hread (us : List Token) : reader simples (⟨.delim ':', p⟩ :: ⟨.ident name, o⟩ :: us) =
        andMore (argumentReader name.toLower) us :=
      simples_colon p _ nofun
    have ih : ∀ r', r'.length ≤ r.length → Foresees (reader simples) SimplesKinds r' :=
      fun r' hr' => ih r' (Nat.le_succ_of_le hr')
    by_cases hsupported : Supported name.toLower (openArgument r).1
    · refine .behind [⟨.delim ':', p⟩, ⟨.ident name, o⟩] (fun us _ => hread us)
        (andMore_foresees (l := [.delim ':', .ident name]) ?_ ?_ ih) fun ks ss h => h
      · exact argumentReader_predicts name fun r' _ => simples_predicts r'
      · exact argumentReader_foresees hsupported ih
    · obtain ⟨c, r, e, rfl, hc, herror⟩ := argumentReader_unsupported hsupported
      have hstops : StopsAt (reader simples) SimplesKinds []
          (⟨.delim ':', p⟩ :: ⟨.ident name, o⟩ :: c) r e := by
        refine ⟨hc, ⟨[], _, simplesKinds_root⟩, fun us hus => ?_⟩
        show reader simples (⟨.delim ':', p⟩ :: ⟨.ident name, o⟩ :: (c ++ us)) = _
        rw [hread, andMore, Reader.bind_apply, herror us hus]
        rfl
      exact hstops.foresees
  · intro e he herror
    rw [simples_colon p ts hcolon, andMore, pseudoReader, bind_assoc, reader_bind,
      ident_eq_unexpected fun name o r h => hname ⟨name, o, r, h⟩, unexpected_bind] at herror
    exact absurd he (not_isPseudo_of_unexpected herror)

/-- **Simple selectors stop at what is reported.** Induction on the number of tokens, as for
`simples_predicts`. -/
theorem simples_foresees (ts : List Token) : Foresees (reader simples) SimplesKinds ts := by
  induction ts using simples_induction with
  | nothing ts hstart =>
      intro e _ herror
      rw [simples_nothing ts hstart] at herror
      cases herror
  | hash name p r ih =>
      refine .behind [_] (fun us _ => simples_hash p us name)
        (andMore_foresees (l := [.hash name]) (.pure ?_ r) ((quiet_pure _).foresees _ r) ih)
        fun ks ss h => h
      exact fun ls ss more => .id name more
  | ofClass p r ih =>
      refine .behind [_] (fun us _ => simples_class p us)
        (andMore_foresees (l := [.delim '.']) (.map (ident_predicts _ r) ?_)
          (((quiet_ident _).bind fun _ => quiet_pure _).foresees _ r) ih) fun ks ss h => h
      rintro _ name rfl ls ss more
      exact .ofClass name more
  | attr p r ih =>
      refine .behind [_] (fun us _ => simples_attr p us)
        (andMore_foresees (l := [.delim '[']) (.mono (attributeTest_predicts r) ?_)
          (quiet_attributeTest.foresees _ r) ih) fun ks ss h => h
      exact fun ks s h ls ss more => .attr h more
  | colons p q r => exact colons_foresees p q r
  | colon p r hcolon ih => exact pseudo_foresees p hcolon ih

/-- A compound stops at what is reported. -/
theorem compound_foresees (expected : Expectation) (ts : List Token) :
    Foresees (reader (compound expected)) CompoundKinds ts := by
  rw [reader_compound]
  exact compoundReader_foresees expected fun r _ => simples_foresees r

end Compounds

/-! ### Chains and lists -/

/-- The links of a chain stop at what is reported. Induction on the number of tokens. -/
theorem linksReader_foresees (ts : List Token) : Foresees linksReader TailKinds ts := by
  induction hn : ts.length using Nat.strongRecOn generalizing ts with
  | ind n ih =>
  refine .behind [] (fun us _ => linksReader_apply us) (.bind_of_total combinator_total
    fun c r hr => ?_) fun ks a h => h
  cases c with
  | none => exact (quiet_pure _).foresees _ r
  | some c =>
      refine .bind_parts (compound_predicts _ r) (compound_foresees _ r)
        (fun p r' next hp hnext => ?_) fun ks next hks => hks.exists_tail c
      have hlength : r'.length < n := hn ▸ Nat.lt_of_lt_of_le (hnext.length_lt hp) hr
      exact .map (linksReader_predicts r') (ih _ hlength r' rfl)
        fun _ more hls ks hks => hls.cons hks c

/-- A chain stops at what is reported. -/
theorem chainReader_foresees (ts : List Token) : Foresees chainReader ChainKinds ts :=
  .bind_of_total blanks_total fun _ r _ => .bind (compound_predicts _ r) (compound_foresees _ r)
    (fun _ r' _ => .map (linksReader_predicts r') (linksReader_foresees r')
      fun _ _ hls _ hks => hks.chain hls)
    fun _ _ hks => hks.exists_chain

/-- What follows a chain stops at what is reported, in one of the chains behind the comma. -/
theorem groupEnd_foresees {c : Complex} {ts : List Token}
    (ih : ∀ r, r.length < ts.length → Foresees groupReader GroupKinds r) :
    Foresees (groupEnd c) (Language.behind ChainKinds c GroupKinds) ts := by
  cases ts with
  | nil => nofun
  | cons t r =>
      by_cases hcomma : t.kind = .delim ','
      · refine .behind [t] (M := fun ks g =>
          Language.behind ChainKinds c GroupKinds (.delim ',' :: ks) g)
          (fun us _ => if_pos hcomma)
          (.map (group_predicts r) (ih r (Nat.lt_succ_self _)) fun ks g more _ hc => hc.cons more)
          fun ks g h => ?_
        rw [List.map_singleton, hcomma]
        exact h
      · intro e he herror
        rw [groupEnd, if_neg hcomma] at herror
        exact absurd he (not_isPseudo_of_unexpected herror)

/-- **A list of chains stops at what is reported.** Induction on the number of tokens. -/
theorem group_foresees (ts : List Token) : Foresees groupReader GroupKinds ts := by
  induction hn : ts.length using Nat.strongRecOn generalizing ts with
  | ind n ih =>
  rw [groupReader_eq]
  refine .bind (chainReader_predicts ts) (chainReader_foresees ts) (fun c r hr => ?_)
    fun _ c hc => ⟨[], [c], hc.group⟩
  exact groupEnd_foresees fun r' hr' => ih _ (by omega) r' rfl

/-! ### Selectors but for what is unsupported -/

/-- As many opening parentheses as closing ones, and each behind the one it belongs to. -/
inductive Balanced : List Kind → Prop
  | nil : Balanced []
  | other {k : Kind} {ks : List Kind} (hopen : k ≠ .delim '(') (hclose : k ≠ .delim ')')
      (more : Balanced ks) : Balanced (k :: ks)
  | nested {inner ks : List Kind} (h : Balanced inner) (more : Balanced ks) :
      Balanced (.delim '(' :: (inner ++ .delim ')' :: ks))

/-- A pseudo-class or a pseudo-element of any name, the former with any argument. -/
inductive AnyPseudo : List Kind → Prop
  | name (name : String) : AnyPseudo [.delim ':', .ident name]
  | function (name : String) {ks : List Kind} (h : Balanced ks) :
      AnyPseudo (.delim ':' :: .ident name :: .delim '(' :: (ks ++ [.delim ')']))
  | element (name : String) : AnyPseudo [.delim ':', .delim ':', .ident name]

/-- One list of tokens is another with `:root` for some of its pseudo-classes and
pseudo-elements. -/
inductive Replaces : List Kind → List Kind → Prop
  | nil : Replaces [] []
  | keep {ks js : List Kind} (k : Kind) (more : Replaces ks js) : Replaces (k :: ks) (k :: js)
  | root {cs ks js : List Kind} (h : AnyPseudo cs) (more : Replaces ks js) :
      Replaces (cs ++ ks) (.delim ':' :: .ident "root" :: js)

/-- A selector, if pseudo-classes and pseudo-elements of any name count as those that the grammar
has. -/
def SelectorLike (ks : List Kind) : Prop :=
  ∃ js g, Replaces ks js ∧ GroupKinds js g

/-- Nothing has to be replaced. -/
theorem Replaces.refl (ks : List Kind) : Replaces ks ks := by
  induction ks with
  | nil => exact .nil
  | cons k ks ih => exact .keep k ih

/-- What stands in front may stay as it is. -/
theorem Replaces.append_left (ls : List Kind) {ks js : List Kind} (h : Replaces ks js) :
    Replaces (ls ++ ks) (ls ++ js) := by
  induction ls with
  | nil => exact h
  | cons k ls ih => exact .keep k ih

/-- What is refused is a pseudo-class or a pseudo-element, once its argument is closed. -/
theorem Unsupported.exists_anyPseudo {cs us : List Kind} {e : Error} (h : Unsupported cs us e) :
    ∃ ks, AnyPseudo (cs ++ ks) := by
  cases h with
  | element name => exact ⟨[], .element name⟩
  | @function name => exact ⟨[.delim ')'], .function name .nil⟩
  | @name name => exact ⟨[], .name name⟩

/-- Where the parser stops at a construct, the tokens up to it can go on to a selector, if the
construct counts as one that the grammar has. -/
theorem StopsAt.exists_selectorLike {p c r : List Token} {e : Error}
    (h : StopsAt groupReader GroupKinds p c r e) :
    ∃ ks, SelectorLike ((p ++ c).map Token.kind ++ ks) := by
  obtain ⟨vs, hvs⟩ := h.construct.exists_anyPseudo
  obtain ⟨ks, g, hg⟩ := h.part
  refine ⟨vs ++ ks, _, g, ?_, hg⟩
  have hreplaces := Replaces.append_left (p.map Token.kind) (.root hvs (.refl ks))
  simpa using hreplaces

/-! ### Reports -/

/-- Only pseudo-classes and pseudo-elements are reported as unsupported by the parser. -/
theorem isPseudo_of_group {ts : List Token} {e : Error} (h : group ts = .error e)
    (he : e.isUnsupported) : e.IsPseudo := by
  by_contra hpseudo
  obtain ⟨p, r, expected, rfl, _, herror⟩ := exists_refuses_of_group h hpseudo
  cases r with
  | nil =>
      cases herror
      cases he
  | cons t r =>
      cases herror
      cases he

/-- A text with other tokens than white space is read from its tokens. -/
theorem parse_eq_group_of_mem {css : String} {ts : List Token} {t : Token}
    (h : tokenize css = .ok ts) (ht : t ∈ ts) (hk : t.kind ≠ .blank) : parse css = group ts := by
  refine parse_eq_group ?_ h
  by_contra hempty
  rw [Bool.not_eq_false, Text.isEmpty_trim_iff] at hempty
  obtain ⟨b, hb, hkinds⟩ := kinds?_blank hempty
  rw [tokenize] at h
  rw [kinds?, kindsAt?, h, Except.toOption, Option.map_some, Option.some_inj] at hkinds
  exact hk (hb t.kind (hkinds ▸ List.mem_map_of_mem ht))

/-- A construct has a token that is no white space. -/
theorem Unsupported.exists_mem {cs us : List Kind} {e : Error} (h : Unsupported cs us e) :
    ∃ k ∈ cs, k ≠ .blank := by
  cases h <;> exact ⟨.delim ':', by simp, nofun⟩

variable (compiler : Compiler)

/-- **What is reported as unsupported**: a selector with a place among the siblings of no name, or
a text of which only the front is known. The tokens of the text are those of a selector up to the
first pseudo-class or pseudo-element without an XPath form. A supported one could stand for it, so
with this one there are selectors that start in the same way. But the tokens behind are not looked
at, except that an opening bracket would make an argument: any text that starts with the same
tokens is reported in the same way. -/
theorem compileFrom_unsupported {css axis : String} {e : Error}
    (h : compiler.compileFrom axis css = .error e) (he : e.isUnsupported) :
    ∃ ts, tokenize css = .ok ts ∧
      ((∃ place, e = .elementNameRequired place) ∧ (∃ g, GroupKinds (ts.map Token.kind) g) ∨
        ∃ p c r, ts = p ++ (c ++ r) ∧
          Unsupported (c.map Token.kind) (r.map Token.kind) e ∧
          (∃ ks g, GroupKinds (p.map Token.kind ++ .delim ':' :: .ident "root" :: ks) g) ∧
          (∃ ks, SelectorLike ((p ++ c).map Token.kind ++ ks)) ∧
          ∀ us css', us.head? = r.head? → tokenize css' = .ok (p ++ (c ++ us)) →
            compiler.compileFrom axis css' = .error e) := by
  rcases compileFrom_error_cases compiler h with ⟨_, rfl⟩ | ⟨-, htokens | ⟨ts, hts, hcases⟩⟩
  · cases he
  · -- A string that is not closed is a syntax error.
    obtain ⟨_, _, _, _, _, _, _, rfl⟩ := tokens_eq_error_iff.mp htokens
    cases he
  refine ⟨ts, hts, ?_⟩
  rcases hcases with hgroup | ⟨g, place, hgroup, rfl⟩
  · obtain ⟨p, c, r, rfl, hstops⟩ :=
      group_foresees ts e (isPseudo_of_group hgroup he) (groupReader_eq_error.mpr hgroup)
    refine .inr ⟨p, c, r, rfl, hstops.construct, hstops.part, hstops.exists_selectorLike,
      fun us css' hus hcss' => ?_⟩
    obtain ⟨k, hk, hblank⟩ := hstops.construct.exists_mem
    obtain ⟨t, ht, rfl⟩ := List.mem_map.mp hk
    have hparse := parse_eq_group_of_mem hcss' (t := t) (by simp [ht]) hblank
    rw [groupReader_eq_error.mp (hstops.eq_error us hus)] at hparse
    exact compileFrom_of_parse_error compiler hparse axis
  · exact .inl ⟨⟨place, rfl⟩, g, groupKinds_of_group ts hgroup⟩

/-- The bracket of an argument that is not closed, and not looked at. -/
theorem compileFrom_unsupported_argument :
    Compiler.compileFrom ⟨true⟩ "//" "a:nth-child(2" =
        .error (.unsupportedPseudoClass "nth-child()") ∧
      Error.isUnsupported (.unsupportedPseudoClass "nth-child()") ∧
      ∃ p c r, tokenize "a:nth-child(2" = .ok (p ++ (c ++ r)) ∧
        Unsupported (c.map Token.kind) (r.map Token.kind)
          (.unsupportedPseudoClass "nth-child()") ∧
        (∃ ks g, GroupKinds (p.map Token.kind ++ .delim ':' :: .ident "root" :: ks) g) ∧
        (∃ ks, SelectorLike ((p ++ c).map Token.kind ++ ks)) ∧
        ∀ us css', us.head? = r.head? → tokenize css' = .ok (p ++ (c ++ us)) →
          Compiler.compileFrom ⟨true⟩ "//" css' =
            .error (.unsupportedPseudoClass "nth-child()") := by
  have htokens : tokenize "a:nth-child(2" = .ok [⟨.ident "a", 0⟩, ⟨.delim ':', 1⟩,
      ⟨.ident "nth-child", 2⟩, ⟨.delim '(', 11⟩, ⟨.number "2", 12⟩] := by decide +kernel
  have herror : Compiler.compileFrom ⟨true⟩ "//" "a:nth-child(2" =
      .error (.unsupportedPseudoClass "nth-child()") := by
    rw [Compiler.compileFrom, parse_eq_group (by decide +kernel) htokens]
    with_unfolding_all rfl
  have hunsupported : Error.isUnsupported (.unsupportedPseudoClass "nth-child()") := by decide
  refine ⟨herror, hunsupported, ?_⟩
  obtain ⟨ts, hts, ⟨⟨_, hplace⟩, _⟩ | ⟨p, c, r, rfl, hstops⟩⟩ :=
    compileFrom_unsupported ⟨true⟩ herror hunsupported
  · cases hplace
  · exact ⟨p, c, r, hts, hstops⟩

/-- In front of a token stands the same token, or it opens a pseudo-class or a pseudo-element. -/
theorem Replaces.cons_cases {k : Kind} {ks js : List Kind} (h : Replaces (k :: ks) js) :
    (∃ js', js = k :: js' ∧ Replaces ks js') ∨
      ∃ cs ls js', AnyPseudo cs ∧ k :: ks = cs ++ ls ∧ Replaces ls js' ∧
        js = .delim ':' :: .ident "root" :: js' := by
  generalize hls : k :: ks = ls at h
  cases h with
  | nil => cases hls
  | keep k' more =>
      cases hls
      exact .inl ⟨_, rfl, more⟩
  | root hcs more => exact .inr ⟨_, _, _, hcs, rfl, more, rfl⟩

/-- What stays as it is stands in front of what is left. -/
theorem Replaces.of_cons {k : Kind} {ks js : List Kind} (h : Replaces (k :: ks) js)
    (hk : k ≠ .delim ':') : ∃ js', js = k :: js' ∧ Replaces ks js' := by
  rcases h.cons_cases with hkeep | ⟨cs, ls, js', hcs, hls, _⟩
  · exact hkeep
  · cases hcs <;> cases hls <;> exact absurd rfl hk

/-- Nothing is replaced by nothing only. -/
theorem Replaces.of_nil {js : List Kind} (h : Replaces [] js) : js = [] := by
  generalize hls : ([] : List Kind) = ls at h
  cases h with
  | nil => rfl
  | keep => cases hls
  | root hcs => cases hcs <;> cases hls

/-- A selector that breaks off behind a combinator is none, whatever `:before` stands for, and yet
it is reported as unsupported. -/
theorem compileFrom_unsupported_combinator :
    let kinds : List Kind := [.ident "a", .delim ':', .ident "before", .delim '>']
    kinds? "a:before>".toList = some kinds ∧ ¬ SelectorLike kinds ∧
      ∀ compiler axis, Compiler.compileFrom compiler axis "a:before>" =
        .error (.unsupportedPseudoClass "before") := by
  intro kinds
  have htokens : tokenize "a:before>" = .ok [⟨.ident "a", 0⟩, ⟨.delim ':', 1⟩,
      ⟨.ident "before", 2⟩, ⟨.delim '>', 8⟩] := by decide +kernel
  have hgroup : group [⟨.ident "a", 0⟩, ⟨.delim ':', 1⟩, ⟨.ident "before", 2⟩, ⟨.delim '>', 8⟩] =
      .error (.unsupportedPseudoClass "before") := by with_unfolding_all rfl
  have hends {js : List Kind} (h : Replaces [.delim '>'] js) : js = [.delim '>'] := by
    obtain ⟨js', rfl, hnil⟩ := h.of_cons (by simp)
    rw [hnil.of_nil]
  have hnot (name : String) (g : Group) (e : Error) (herror : group [⟨.ident "a", 0⟩,
      ⟨.delim ':', 0⟩, ⟨.ident name, 0⟩, ⟨.delim '>', 0⟩] = .error e) :
      ¬ GroupKinds [.ident "a", .delim ':', .ident name, .delim '>'] g :=
    fun h => nomatch herror.symm.trans (group_eq_ok h rfl)
  refine ⟨by decide +kernel, ?_, fun compiler axis => ?_⟩
  · rintro ⟨_, g, hreplaces, hg⟩
    obtain ⟨_, rfl, hcolon⟩ := hreplaces.of_cons (by simp)
    -- Only the colon and its name can be replaced, and either way nothing follows the combinator.
    rcases hcolon.cons_cases with ⟨_, rfl, hname⟩ | ⟨cs, ls, _, hcs, hls, hmore, rfl⟩
    · obtain ⟨_, rfl, hmore⟩ := hname.of_cons (by simp)
      rw [hends hmore] at hg
      exact hnot "before" g (.unsupportedPseudoClass "before") (by with_unfolding_all rfl) hg
    · cases hcs with
      | name name =>
          cases hls
          rw [hends hmore] at hg
          exact hnot "root" g (.unexpectedEnd .selectorAfterCombinator)
            (by with_unfolding_all rfl) hg
      | function | element => cases hls
  · rw [Compiler.compileFrom, parse_eq_group (by decide +kernel) htokens, hgroup]
    rfl

end XPathLocator.Css
