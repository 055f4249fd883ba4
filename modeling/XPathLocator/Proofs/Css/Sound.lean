import Mathlib.Data.List.TakeWhile
import XPathLocator.Proofs.Css.Complete
import XPathLocator.Proofs.Css.Predictive

/-!
# `XPathLocator.Proofs.Css.Sound`: the parser follows the grammar

Every reader of the parser follows its part of the grammar (`Predicts`): what it takes, the
grammar has there, and where it refuses a token, with another one it would have gone on.
There is one lemma for each reader, put together from those of its parts.
`groupKinds_of_group` is the first half for whole groups.

The parser proves along its way that it ends, so each reader says of what it leaves that it
is shorter. `reader` and `passes` forget that. The other readers defined here are parts of
the parser's larger functions, so that each of these is a sequence of readers.
-/

set_option autoImplicit false

namespace XPathLocator.Css

open Token (Kind)

/-- A reader of the parser, with what it leaves as a plain list. -/
def reader {α : Type} {P : List Token → List Token → Prop}
    (read : (ts : List Token) → Except Error (α × Subtype (P ts))) : Reader α :=
  fun ts => (read ts).map fun x => (x.1, x.2.1)

/-- A reader of the parser that gives no value. -/
def passes {P : List Token → List Token → Prop}
    (read : (ts : List Token) → Except Error (Subtype (P ts))) : Reader Unit :=
  fun ts => (read ts).map fun r => ((), r.1)

/-- Passes over white space. -/
def blanks : Reader Unit :=
  fun ts => .ok ((), (skipBlank ts).1)

/-- Reads the element name in front, if there is one. -/
def element : Reader (Option String) :=
  fun ts => .ok ((typeSelector ts).1, (typeSelector ts).2.1)

/-- Reads the opening of an argument, if there is one. -/
def opens : Reader Bool :=
  fun ts => .ok ((openArgument ts).1, (openArgument ts).2.1)

section Unfolding
variable {α β : Type} {P : List Token → List Token → Prop}

/-- A function of the last value only goes past the reads before it. -/
theorem map_bind_eq {γ : Type} (x : Except Error α) (f : α → Except Error β) (h : β → γ) :
    (x >>= f).map h = x >>= fun a => (f a).map h := by
  cases x <;> rfl

/-- What comes after a reader of the parser gets its value and the tokens it leaves. -/
theorem reader_bind (read : (ts : List Token) → Except Error (α × Subtype (P ts)))
    (f : α → Reader β) (ts : List Token) :
    (reader read >>= f) ts = read ts >>= fun x => f x.1 x.2.1 := by
  rw [Reader.bind_apply, reader]
  cases read ts <;> rfl

/-- The same for a reader that gives no value. -/
theorem passes_bind (read : (ts : List Token) → Except Error (Subtype (P ts)))
    (f : Unit → Reader β) (ts : List Token) :
    (passes read >>= f) ts = read ts >>= fun r => f () r.1 := by
  rw [Reader.bind_apply, passes]
  cases read ts <;> rfl

/-- White space in front is always passed over, so what comes next starts behind it. -/
theorem blanks_bind (f : Unit → Reader β) (ts : List Token) :
    (blanks >>= f) ts = f () (skipBlank ts).1 :=
  rfl

/-- An element name or its absence is always read, so what comes next starts behind it. -/
theorem element_bind (f : Option String → Reader β) (ts : List Token) :
    (element >>= f) ts = f (typeSelector ts).1 (typeSelector ts).2.1 :=
  rfl

/-- Whether an argument is opened is always told, so what comes next starts behind the opening. -/
theorem opens_bind (f : Bool → Reader β) (ts : List Token) :
    (opens >>= f) ts = f (openArgument ts).1 (openArgument ts).2.1 :=
  rfl

end Unfolding

/-! ### Readers that always succeed -/

/-- White space is taken up to the first token that is none, and nothing refuses it. -/
theorem blanks_total : Total blanks fun ks _ => Blanks ks := by
  intro ts
  have hblank : ∀ t ∈ ts.takeWhile (fun t => decide (t.kind = .blank)), t.kind = .blank :=
    fun t ht => by simpa using List.mem_takeWhile_imp ht
  refine ⟨ts.takeWhile fun t => t.kind = .blank, ts.dropWhile fun t => t.kind = .blank, (),
    List.takeWhile_append_dropWhile.symm, ?_, fun us hus => ?_⟩
  · intro k hk
    obtain ⟨t, ht, rfl⟩ := List.mem_map.mp hk
    exact hblank t ht
  · have hfront : us.dropWhile (fun t => t.kind = .blank) = us := by
      cases us with
      | nil => rfl
      | cons t us =>
          have ht := List.head?_dropWhile_not (fun t : Token => decide (t.kind = .blank)) ts
          rw [← hus] at ht
          exact List.dropWhile_cons_of_neg (by simpa using ht)
    show Except.ok ((), List.dropWhile _ _) = _
    rw [List.dropWhile_append_of_pos (fun t ht => decide_eq_true (hblank t ht)), hfront]

/-- An element name is taken where one stands. On sight of any other token there is none. -/
theorem element_total : Total element ElementKinds := by
  refine .of_token (fun ⟨k, p⟩ r => ?_) rfl .none
  cases k with
  | ident name => exact .inl ⟨[_], r, some name, rfl, .ident name, fun _ _ => rfl⟩
  | delim c =>
      by_cases hc : c = '*'
      · subst hc
        exact .inl ⟨[_], r, some "*", rfl, .any, fun _ _ => rfl⟩
      · refine .inr fun us => ?_
        rw [element, typeSelector]
        · rfl
        · rintro _ _ _ ⟨⟩
        · rintro _ _ ⟨⟩
          exact hc rfl
  | _ => exact .inr fun _ => rfl

/-- The opening of an argument, or nothing. -/
def OpeningKinds (ks : List Kind) (opened : Bool) : Prop :=
  if opened then ∃ b, Blanks b ∧ ks = .delim '(' :: b else ks = []

/-- The opening of an argument is taken where a bracket stands, with the white space behind it. -/
theorem opens_total : Total opens OpeningKinds := by
  refine .of_token (fun ⟨k, p⟩ r => ?_) rfl rfl
  cases k with
  | delim c =>
      by_cases hc : c = '('
      · subst hc
        obtain ⟨q, r', _, rfl, hq⟩ := blanks_total r
        refine .inl ⟨⟨.delim '(', p⟩ :: q, r', true, rfl, ⟨_, hq.part, rfl⟩, fun us hus => ?_⟩
        have hread := hq.eq_ok us hus
        simp only [blanks, Except.ok.injEq, Prod.mk.injEq, true_and] at hread
        show Except.ok (true, (skipBlank (q ++ us)).1) = _
        rw [hread]
      · refine .inr fun us => ?_
        rw [opens, openArgument]
        · rfl
        · rintro _ _ ⟨⟩
          exact hc rfl
  | _ => exact .inr fun _ => rfl

/-! ### Single tokens -/

/-- A name is read, or the token in its place is refused. -/
theorem ident_predicts (expected : Expectation) (ts : List Token) :
    Predicts (reader (ident expected)) (fun ks name => ks = [.ident name]) ts := by
  refine .of_token ?_ rfl ⟨_, "", rfl⟩
  rintro ⟨k, p⟩ r rfl
  cases k with
  | ident name => exact .inl (.one (by rfl) (fun _ => rfl) r)
  | _ => exact .inr fun _ => rfl

/-- Where no name stands, the reader of names refuses what does. -/
theorem ident_eq_unexpected {expected : Expectation} {ts : List Token}
    (h : ∀ name o r, ts ≠ ⟨.ident name, o⟩ :: r) : ident expected ts = unexpected ts expected := by
  rw [ident]
  exact h

/-- A delimiter is read, or the token in its place is refused. -/
theorem delim_predicts (c : Char) (expected : Expectation) (ts : List Token) :
    Predicts (passes (delim c expected)) (fun ks _ => ks = [.delim c]) ts := by
  refine .of_token ?_ rfl ⟨_, (), rfl⟩
  rintro t r rfl
  by_cases ht : t.kind = .delim c
  · refine .inl (.one (a := ()) (by rw [ht]) (fun us => ?_) r)
    rw [passes, delim, if_pos ht]
    rfl
  · refine .inr fun us => ?_
    rw [passes, delim, if_neg ht]
    rfl

/-- The value of an attribute is read, or the token in its place is refused. -/
theorem attributeValue_predicts (ts : List Token) :
    Predicts (reader attributeValue) (fun ks a => ∃ k, ks = [k] ∧ ValueKind k a) ts := by
  refine .of_token ?_ rfl ⟨_, "", _, rfl, .ident ""⟩
  rintro ⟨k, p⟩ r rfl
  cases k with
  | ident value => exact .inl (.one ⟨_, rfl, .ident value⟩ (fun _ => rfl) r)
  | string value => exact .inl (.one ⟨_, rfl, .string value⟩ (fun _ => rfl) r)
  | number value => exact .inl (.one ⟨_, rfl, .number value⟩ (fun _ => rfl) r)
  | _ => exact .inr fun _ => rfl

/-- The text of `:contains` is read, or the token in its place is refused. -/
theorem containsText_predicts (ts : List Token) :
    Predicts (reader containsText) (fun ks a => ∃ k, ks = [k] ∧ TextKind k a) ts := by
  refine .of_token ?_ rfl ⟨_, "", _, rfl, .ident ""⟩
  rintro ⟨k, p⟩ r rfl
  cases k with
  | ident text => exact .inl (.one ⟨_, rfl, .ident text⟩ (fun _ => rfl) r)
  | string text => exact .inl (.one ⟨_, rfl, .string text⟩ (fun _ => rfl) r)
  | _ => exact .inr fun _ => rfl

/-! ### Attributes -/

/-- The operator of an attribute selector, or the bracket that closes it. -/
def OpKindsOrClose (ks : List Kind) : Option AttributeOp → Prop
  | none => ks = [.delim ']']
  | some op => OpKinds ks op

/-- Behind the character of an operator an equals sign must stand. -/
theorem attributeOp_operator {c : Char} {op : AttributeOp} (hop : OpSign c op)
    (p : Nat) (ts : List Token) : reader attributeOp (⟨.delim c, p⟩ :: ts) =
      (passes (delim '=' .equalsSign) >>= fun _ => pure (some op)) ts := by
  have hc : c ≠ ']' ∧ c ≠ '=' := by
    constructor <;> (rintro rfl; cases hop)
  rw [reader, attributeOp, if_neg hc.1, if_neg hc.2,
    AttributeOp.ofChar?_eq_some_iff.mpr hop, passes_bind, map_bind_eq]
  rfl

/-- An operator or the closing bracket is read. A sign without an equals sign behind it is refused
at the token that stands there. -/
theorem attributeOp_predicts (ts : List Token) :
    Predicts (reader attributeOp) OpKindsOrClose ts := by
  refine .of_token ?_ rfl ⟨[.delim ']'], none, rfl⟩
  rintro ⟨k, p⟩ r rfl
  cases k with
  | delim c =>
      by_cases hclose : c = ']'
      · subst hclose
        exact .inl (.one (by rfl) (fun _ => rfl) r)
      by_cases hequals : c = '='
      · subst hequals
        exact .inl (.one OpKinds.equals (fun _ => rfl) r)
      cases hop : AttributeOp.ofChar? c with
      | some op =>
          have hop := AttributeOp.ofChar?_eq_some_iff.mp hop
          refine .inl (.cons _ (attributeOp_operator hop p)
            (.map (h := fun _ => some op) (delim_predicts '=' .equalsSign r) ?_) fun ks a h => h)
          rintro _ _ rfl
          exact OpKinds.other hop
      | none =>
          refine .inr fun us => ?_
          rw [reader, attributeOp, if_neg hclose, if_neg hequals, hop]
          rfl
  | _ => exact .inr fun _ => rfl

/-- An attribute selector behind its opening bracket, part by part. -/
def attributeReader : Reader Simple := do
  blanks
  let name ← reader (ident .attributeName)
  blanks
  match ← reader attributeOp with
  | none => return .attribute name none
  | some op =>
    blanks
    let value ← reader attributeValue
    blanks
    passes (delim ']' .closingBracket)
    return .attribute name (some (op, value))

/-- The reader of attribute selectors is a sequence of smaller readers. -/
theorem reader_attributeTest : reader attributeTest = attributeReader := by
  funext ts
  rw [attributeReader, blanks_bind, reader_bind, reader, attributeTest, map_bind_eq]
  refine bind_congr ?_
  rintro ⟨name, r₁⟩
  rw [blanks_bind, reader_bind, map_bind_eq]
  refine bind_congr ?_
  rintro ⟨op, r₂⟩
  cases op with
  | none => rfl
  | some op =>
      simp only
      rw [map_bind_eq, blanks_bind, reader_bind]
      refine bind_congr ?_
      rintro ⟨value, r₃⟩
      rw [map_bind_eq, blanks_bind, passes_bind]
      rfl

/-- An attribute selector is read behind its bracket, part by part. -/
theorem attributeTest_predicts (ts : List Token) :
    Predicts (reader attributeTest) AttributeKinds ts := by
  rw [reader_attributeTest]
  refine .bind_of_total blanks_total fun _ ts _ => .bind (ident_predicts _ ts)
    (fun name ts _ => .bind_of_total blanks_total fun _ ts _ => .bind (attributeOp_predicts ts)
      (fun op ts _ => ?_) ?_) ?_
  · cases op with
    | none =>
        refine .pure ?_ ts
        rintro _ rfl b₂ h₂ _ rfl b₁ h₁
        simpa using AttributeKinds.bare name h₁ h₂
    | some op =>
        refine .bind_of_total blanks_total fun _ ts _ => .bind (attributeValue_predicts ts)
          (fun value ts _ => .bind_of_total blanks_total fun _ ts _ =>
            .map (delim_predicts _ _ ts) ?_) ?_
        · rintro _ _ rfl b₄ h₄ _ ⟨k, rfl, hvalue⟩ b₃ h₃ ops hop b₂ h₂ _ rfl b₁ h₁
          simpa using AttributeKinds.test name h₁ h₂ hop h₃ hvalue h₄
        · rintro _ value ⟨k, rfl, hvalue⟩
          refine ⟨[.delim ']'], .attribute name (some (op, value)), ?_⟩
          rintro b₃ h₃ ops hop b₂ h₂ _ rfl b₁ h₁
          simpa using AttributeKinds.test name h₁ h₂ hop h₃ hvalue blanks_nil
  · rintro us (_ | op) hop
    · refine ⟨[], .attribute name none, ?_⟩
      cases hop
      rintro b₂ h₂ _ rfl b₁ h₁
      simpa using AttributeKinds.bare name h₁ h₂
    · refine ⟨[.ident "", .delim ']'], .attribute name (some (op, "")), ?_⟩
      rintro b₂ h₂ _ rfl b₁ h₁
      simpa using AttributeKinds.test name h₁ h₂ hop blanks_nil (.ident "") blanks_nil
  · rintro _ name rfl
    refine ⟨[.delim ']'], .attribute name none, fun b₁ h₁ => ?_⟩
    simpa using AttributeKinds.bare name h₁ blanks_nil

/-! ### Compounds -/

/-- The end of an argument is white space and a bracket, read one after the other. -/
theorem passes_closeArgument : passes closeArgument =
    blanks >>= fun _ => passes (delim ')' .closingParenthesis) := by
  funext ts
  rw [blanks_bind, passes, closeArgument, map_bind_eq]
  rfl

/-- The bracket that closes an argument is read behind white space, or what stands in its place is
refused. -/
theorem closeArgument_predicts (ts : List Token) :
    Predicts (passes closeArgument) (fun ks _ => ∃ b, Blanks b ∧ ks = b ++ [.delim ')']) ts := by
  rw [passes_closeArgument]
  refine .bind_of_total blanks_total fun _ ts _ => .mono (delim_predicts _ _ ts) ?_
  rintro _ _ rfl b hb
  exact ⟨b, hb, rfl⟩

/-- A simple selector, whatever others stand behind it. -/
def SimpleKinds (ks : List Kind) (s : Simple) : Prop :=
  ∀ ls ss, SimplesKinds ls ss → SimplesKinds (ks ++ ls) (s :: ss)

/-- A simple selector and those behind it. -/
def andMore (f : Reader Simple) : Reader (List Simple) := do
  let s ← f
  let more ← reader simples
  return s :: more

/-- A compound, part by part. -/
def compoundReader (expected : Expectation) : Reader Compound := do
  let element ← element
  let simples ← reader simples
  if element.isNone && simples.isEmpty then
    fun ts => unexpected ts expected
  else
    return ⟨element, simples⟩

/-- The argument of `:not`, part by part. -/
def notReader : Reader Simple := do
  let inner ← compoundReader .selectorInNot
  passes closeArgument
  return .not inner.element inner.simples

/-- The argument of `:contains`, part by part. -/
def containsReader : Reader Simple := do
  let text ← reader containsText
  passes closeArgument
  return .contains text

/-- A pseudo-class behind its name. -/
def argumentReader (name : String) : Reader Simple := do
  if ← opens then
    if name = "not" then notReader
    else if name = "contains" then containsReader
    else throw (.unsupportedPseudoClass (name ++ "()"))
  else match Pseudo.ofName? name with
    | some p => return .pseudo p
    | none => throw (.unsupportedPseudoClass name)

/-- A pseudo-class behind its colon. -/
def pseudoReader : Reader Simple := do
  let name ← reader (ident .pseudoClassName)
  argumentReader name.toLower

section Equations
variable (p : Nat) (ts : List Token)

/-- A hash is a simple selector, and more can follow it. -/
theorem simples_hash (name : String) :
    reader simples (⟨.hash name, p⟩ :: ts) = andMore (pure (.id name)) ts := by
  rw [reader, simples]
  simp only [andMore, pure_bind]
  rw [reader_bind, map_bind_eq]
  rfl

/-- Behind a dot a class is read, and then what follows. -/
theorem simples_class :
    reader simples (⟨.delim '.', p⟩ :: ts) =
      andMore (reader (ident .className) >>= fun name => pure (.ofClass name)) ts := by
  rw [reader, simples, map_bind_eq, andMore, bind_assoc, reader_bind]
  refine bind_congr ?_
  rintro ⟨name, r₁⟩
  simp only [pure_bind]
  rw [reader_bind, map_bind_eq]
  rfl

/-- Behind a bracket an attribute selector is read, and then what follows. -/
theorem simples_attr :
    reader simples (⟨.delim '[', p⟩ :: ts) = andMore (reader attributeTest) ts := by
  rw [reader, simples, map_bind_eq, andMore, reader_bind]
  refine bind_congr ?_
  rintro ⟨s, r₁⟩
  rw [reader_bind, map_bind_eq]
  rfl

/-- Behind two colons a name is read, which is then refused as that of a pseudo-element. -/
theorem simples_colons (q : Nat) :
    reader simples (⟨.delim ':', p⟩ :: ⟨.delim ':', q⟩ :: ts) =
      (reader (ident .pseudoElementName) >>= fun name =>
        throw (.unsupportedPseudoElement name)) ts := by
  rw [reader, simples, map_bind_eq, reader_bind]
  rfl

/-- Behind one colon a pseudo-class is read, and then what follows. -/
theorem simples_colon (h : ∀ q r, ts ≠ ⟨.delim ':', q⟩ :: r) :
    reader simples (⟨.delim ':', p⟩ :: ts) = andMore pseudoReader ts := by
  rw [reader, simples.eq_5 p ts h, map_bind_eq, andMore, pseudoReader, bind_assoc, reader_bind]
  refine bind_congr ?_
  rintro ⟨written, r₁⟩
  simp only
  rw [argumentReader, bind_assoc, opens_bind]
  generalize openArgument r₁.1 = o
  obtain ⟨opened, r₂⟩ := o
  -- Both sides go on with the same tokens, one of them by way of `behind`.
  have hbehind : r₂.1 = (r₁.of r₂).1 := rfl
  simp only
  rw [hbehind]
  generalize r₁.of r₂ = behind
  split
  · split
    · rw [notReader, bind_assoc, compoundReader, bind_assoc, element_bind, bind_assoc, reader_bind,
        map_bind_eq]
      refine bind_congr ?_
      rintro ⟨inner, r₄⟩
      simp only
      split
      · rw [unexpected_bind, Reader.bind_apply, unexpected_bind]
        show (unexpected r₄.1 _).map _ = _
        cases r₄.1 <;> rfl
      · rw [pure_bind, bind_assoc, passes_bind, map_bind_eq]
        refine bind_congr fun r₅ => ?_
        simp only [pure_bind]
        rw [reader_bind, map_bind_eq]
        rfl
    · split
      · rw [containsReader, bind_assoc, reader_bind, map_bind_eq]
        refine bind_congr ?_
        rintro ⟨text, r₃⟩
        simp only
        rw [bind_assoc, passes_bind, map_bind_eq]
        refine bind_congr fun r₅ => ?_
        simp only [pure_bind]
        rw [reader_bind, map_bind_eq]
        rfl
      · rfl
  · cases Pseudo.ofName? written.toLower with
    | none => rfl
    | some p =>
        simp only [pure_bind]
        rw [reader_bind, map_bind_eq]
        rfl

/-- Where no simple selector starts, the list of them ends. -/
theorem simples_nothing (h : ∀ t ∈ ts.head?, startsSimple [t.kind] = false) :
    reader simples ts = .ok ([], ts) := by
  rw [reader, simples_of_not_starts h]
  rfl

end Equations

/-- Induction on what is left to read, with a case for each branch of `simples`. Behind the first
token of a simple selector the hypothesis is there for whatever is left. -/
theorem simples_induction {M : List Token → Prop}
    (nothing : ∀ ts, (∀ t ∈ ts.head?, startsSimple [t.kind] = false) → M ts)
    (hash : ∀ name p r, (∀ r', r'.length ≤ r.length → M r') → M (⟨.hash name, p⟩ :: r))
    (ofClass : ∀ p r, (∀ r', r'.length ≤ r.length → M r') → M (⟨.delim '.', p⟩ :: r))
    (attr : ∀ p r, (∀ r', r'.length ≤ r.length → M r') → M (⟨.delim '[', p⟩ :: r))
    (colons : ∀ p q r, M (⟨.delim ':', p⟩ :: ⟨.delim ':', q⟩ :: r))
    (colon : ∀ p r, (∀ q r', r ≠ ⟨.delim ':', q⟩ :: r') → (∀ r', r'.length ≤ r.length → M r') →
      M (⟨.delim ':', p⟩ :: r)) (ts : List Token) : M ts := by
  induction hn : ts.length using Nat.strongRecOn generalizing ts with
  | ind n ih =>
  by_cases hstart : ∀ t ∈ ts.head?, startsSimple [t.kind] = false
  · exact nothing ts hstart
  · obtain ⟨⟨k, p⟩, r, rfl, hk⟩ : ∃ t r, ts = t :: r ∧ startsSimple [t.kind] = true := by
      cases ts with
      | nil => simp at hstart
      | cons t r => exact ⟨t, r, rfl, by simpa using hstart⟩
    have ih : ∀ r', r'.length ≤ r.length → M r' :=
      fun r' hr' => ih r'.length (by rw [← hn, List.length_cons]; omega) r' rfl
    cases k with
    | hash name => exact hash name p r ih
    | delim c =>
        obtain rfl | rfl | rfl : c = '.' ∨ c = '[' ∨ c = ':' := by
          simpa [startsSimple, or_assoc] using hk
        · exact ofClass p r ih
        · exact attr p r ih
        · by_cases hcolons : ∃ q r', r = ⟨.delim ':', q⟩ :: r'
          · obtain ⟨q, r, rfl⟩ := hcolons
            exact colons p q r
          · exact colon p r (fun q r' h => hcolons ⟨q, r', h⟩) ih
    | ident | string | number | blank => cases hk

/-- A simple selector is followed by others. Those behind it are read from fewer tokens, which is
what the induction gives. -/
theorem andMore_predicts {f : Reader Simple} {k : Kind} {ts : List Token}
    (hf : Predicts f (fun ks s => SimpleKinds (k :: ks) s) ts)
    (ih : ∀ r, r.length ≤ ts.length → Predicts (reader simples) SimplesKinds r) :
    Predicts (andMore f) (fun ks ss => SimplesKinds (k :: ks) ss) ts := by
  refine .bind hf (fun s r hr => .map (ih r hr) ?_) ?_
  · intro ls more hmore ks hs
    exact hs ls more hmore
  · intro ks s hs
    exact ⟨[], [s], hs [] [] .nil⟩

/-- The argument of a pseudo-class `name`, with the bracket that closes it. -/
def ArgumentKinds (name : String) (ks : List Kind) (s : Simple) : Prop :=
  ∀ b, Blanks b → SimpleKinds (.delim ':' :: .ident name :: .delim '(' :: (b ++ ks)) s

/-- The simple selectors behind an element name make a compound, perhaps with one more. -/
theorem SimplesKinds.exists_compound {ks : List Kind} {simples : List Simple}
    (hks : SimplesKinds ks simples) (element : Option String) :
    ∃ vs c, Language.behind ElementKinds element CompoundKinds (ks ++ vs) c := by
  cases simples with
  | cons s simples =>
      refine ⟨[], ⟨element, s :: simples⟩, fun es hes => ?_⟩
      rw [List.append_nil]
      exact .mk hes hks (by simp)
  | nil =>
      cases hks
      exact ⟨[.hash ""], ⟨element, [.id ""]⟩, fun es hes => .mk hes (.id "" .nil) (by simp)⟩

/-- A compound follows the grammar if the simple selectors in it do. Where neither an element name
nor a simple selector stands, the token in their place is refused. -/
theorem compoundReader_predicts (expected : Expectation) {ts : List Token}
    (ih : ∀ r, r.length ≤ ts.length → Predicts (reader simples) SimplesKinds r) :
    Predicts (compoundReader expected) CompoundKinds ts := by
  refine .bind_of_total element_total fun element r hr =>
    .bind (ih r hr) (fun simples r' _ => ?_) fun ks simples hks => hks.exists_compound element
  split
  · next hempty =>
    -- Neither a name nor a condition was read, so either could still come.
    refine .refuse _ (fun _ _ => rfl) ⟨[.hash ""], ⟨none, [.id ""]⟩, ?_⟩
    obtain ⟨hnone, hnil⟩ : element = none ∧ simples = [] := by simpa using hempty
    rintro ks hks es hes
    rw [hnil] at hks
    rw [hnone] at hes
    cases hks
    cases hes
    exact .mk .none (.id "" .nil) (by simp)
  · next hempty =>
    refine .pure (fun ks hks es hes => ?_) r'
    rw [List.append_nil]
    refine .mk hes hks ?_
    rintro rfl rfl
    exact hempty rfl

/-- An argument may stand behind the opening of its bracket. -/
theorem ArgumentKinds.behind_opening {name : String} {ks : List Kind} {s : Simple}
    (h : ArgumentKinds name ks s) : Language.behind OpeningKinds true
      (fun ks s => SimpleKinds (.delim ':' :: .ident name :: ks) s) ks s := by
  rintro _ ⟨b, hb, rfl⟩
  exact h b hb

/-- A compound is the argument of `:not`. -/
theorem CompoundKinds.argument {name : String} (hname : name.toLower = "not")
    {cs b : List Kind} {c : Compound} (hc : CompoundKinds cs c) (hb : Blanks b) :
    ArgumentKinds name (cs ++ (b ++ [.delim ')'])) (.not c.element c.simples) := by
  obtain ⟨hes, hss, hne⟩ := hc
  intro b₁ hb₁ ls ss more
  simpa using SimplesKinds.not hname hb₁ hes hss hne hb more

/-- The argument of `:not` follows the grammar if the simple selectors in it do. -/
theorem notReader_predicts {name : String} (hname : name.toLower = "not") {ts : List Token}
    (ih : ∀ r, r.length ≤ ts.length → Predicts (reader simples) SimplesKinds r) :
    Predicts notReader (ArgumentKinds name) ts := by
  refine .bind (compoundReader_predicts _ ih)
    (fun c r _ => .map (closeArgument_predicts r) ?_) fun cs c hc => ?_
  · rintro _ _ ⟨b, hb, rfl⟩ cs hc
    exact hc.argument hname hb
  · exact ⟨[.delim ')'], .not c.element c.simples, hc.argument hname blanks_nil⟩

/-- The argument of `:contains` follows the grammar. -/
theorem containsReader_predicts {name : String} (hname : name.toLower = "contains")
    (ts : List Token) : Predicts containsReader (ArgumentKinds name) ts := by
  have hcontains {k : Kind} {text : String} {b : List Kind} (hk : TextKind k text)
      (hb : Blanks b) : ArgumentKinds name (k :: (b ++ [.delim ')'])) (.contains text) := by
    intro b₁ hb₁ ls ss more
    simpa using SimplesKinds.contains hname hb₁ hk hb more
  refine .bind (containsText_predicts ts)
    (fun text r _ => .map (closeArgument_predicts r) ?_) ?_
  · rintro _ _ ⟨b, hb, rfl⟩ _ ⟨k, rfl, hk⟩
    exact hcontains hk hb
  · rintro _ text ⟨k, rfl, hk⟩
    exact ⟨[.delim ')'], .contains text, hcontains hk blanks_nil⟩

/-- What stands behind the name of a pseudo-class follows the grammar, with an argument and without.
Other names are refused as unsupported. -/
theorem argumentReader_predicts (name : String) {ts : List Token}
    (ih : ∀ r, r.length ≤ ts.length → Predicts (reader simples) SimplesKinds r) :
    Predicts (argumentReader name.toLower)
      (fun ks s => SimpleKinds (.delim ':' :: .ident name :: ks) s) ts := by
  refine .bind_of_total opens_total fun opened r hr => ?_
  cases opened with
  | true =>
      simp only [if_true]
      split
      · next hnot =>
        exact .mono (notReader_predicts hnot fun r' hr' => ih r' (by omega))
          fun ks s hks => hks.behind_opening
      · split
        · next hcontains =>
          exact .mono (containsReader_predicts hcontains r) fun ks s hks => hks.behind_opening
        · exact .unsupported (by trivial) rfl
  | false =>
      simp only [Bool.false_eq_true, if_false]
      split
      · next p hp =>
        refine .pure ?_ r
        rintro _ rfl ls ss more
        exact .pseudo (Pseudo.ofName?_eq_some_iff.mp hp) more
      · exact .unsupported (by trivial) rfl

/-- A name of a pseudo-class, for where one has to be written. -/
theorem pseudoName_root : PseudoName "root".toLower .root :=
  Pseudo.ofName?_eq_some_iff.mp (by decide +kernel)

/-- A pseudo-class follows the grammar behind its colon, if the simple selectors in its argument do.
-/
theorem pseudoReader_predicts {ts : List Token}
    (ih : ∀ r, r.length ≤ ts.length → Predicts (reader simples) SimplesKinds r) :
    Predicts pseudoReader (fun ks s => SimpleKinds (.delim ':' :: ks) s) ts := by
  have hroot : SimpleKinds [.delim ':', .ident "root"] (.pseudo .root) :=
    fun ls ss more => .pseudo pseudoName_root more
  refine .of_token ?_ rfl ⟨[.ident "root"], .pseudo .root, hroot⟩
  rintro ⟨k, p⟩ r rfl
  cases k with
  | ident name =>
      -- Which names can go on is not for the reader of names to say.
      refine .inl (.cons _ (fun us => rfl)
        (argumentReader_predicts name fun r' hr' => ih r' ?_) fun ks s h => h)
      exact Nat.le_succ_of_le hr'
  | _ => exact .inr fun us => rfl

/-- Two colons are not in the grammar, but a name behind them is refused for what it is. -/
theorem colons_predicts (p q : Nat) (ts : List Token) :
    Predicts (reader simples) SimplesKinds (⟨.delim ':', p⟩ :: ⟨.delim ':', q⟩ :: ts) := by
  by_cases hname : ∃ name o r, ts = ⟨.ident name, o⟩ :: r
  · obtain ⟨name, o, r, rfl⟩ := hname
    have he : (Error.unsupportedPseudoElement name).IsPseudo := by trivial
    refine .unsupported he ?_
    rw [simples_colons]
    rfl
  · have hrefuses : Refuses (reader simples) SimplesKinds [⟨.delim ':', p⟩, ⟨.delim ':', q⟩] ts
        .pseudoElementName := by
      refine ⟨.inr ⟨by simp, ⟨.ident "", 0⟩, .unsupportedPseudoElement "", by trivial, ?_⟩, ?_⟩
      · intro us
        exact (simples_colons p _ q).trans rfl
      · intro us hus
        have hident : ident .pseudoElementName us = unexpected us .pseudoElementName := by
          refine ident_eq_unexpected ?_
          rintro name o r rfl
          obtain ⟨r, rfl⟩ := List.head?_eq_some_iff.mp hus.symm
          exact hname ⟨name, o, r, rfl⟩
        show reader simples (⟨.delim ':', p⟩ :: ⟨.delim ':', q⟩ :: us) = _
        rw [simples_colons, reader_bind, hident, unexpected_bind]
    exact .refuses hrefuses

/-- **Simple selectors follow the grammar.** Induction on the number of tokens, with a case for each
way in which a simple selector starts. -/
theorem simples_predicts (ts : List Token) : Predicts (reader simples) SimplesKinds ts := by
  induction ts using simples_induction with
  | nothing ts hstart =>
      refine .nothing (fun us hus => simples_nothing us ?_) .nil
      rwa [hus]
  | hash name p r ih =>
      refine .cons _ (fun us => simples_hash p us name) (andMore_predicts (.pure ?_ r) ih)
        fun ks ss h => h
      exact fun ls ss more => .id name more
  | ofClass p r ih =>
      refine .cons _ (simples_class p) (andMore_predicts (.map (ident_predicts _ r) ?_) ih)
        fun ks ss h => h
      rintro _ name rfl ls ss more
      exact .ofClass name more
  | attr p r ih =>
      refine .cons _ (simples_attr p) (andMore_predicts (.mono (attributeTest_predicts r) ?_) ih)
        fun ks ss h => h
      exact fun ks s h ls ss more => .attr h more
  | colons p q r => exact colons_predicts p q r
  | colon p r hcolon ih =>
      refine .behind [_] (fun us hus => simples_colon p us ?_)
        (andMore_predicts (pseudoReader_predicts ih) ih) fun ks ss h => h
      rintro q r' rfl
      obtain ⟨r', rfl⟩ := List.head?_eq_some_iff.mp hus.symm
      exact hcolon q r' rfl

/-- An element name is absent exactly if it has no token. -/
theorem ElementKinds.isNone_iff {ks : List Kind} {element : Option String}
    (h : ElementKinds ks element) : element.isNone ↔ ks = [] := by
  cases h <;> simp

/-- Simple selectors are absent exactly if they have no token. -/
theorem SimplesKinds.isEmpty_iff {ks : List Kind} {ss : List Simple} (h : SimplesKinds ks ss) :
    ss.isEmpty ↔ ks = [] := by
  cases h <;> simp

/-- The parser tells an empty compound by the tokens that are left. -/
theorem reader_compound (expected : Expectation) :
    reader (compound expected) = compoundReader expected := by
  funext ts
  obtain ⟨p, r, a, hts, hp⟩ := element_total ts
  have helement := hp.eq_ok r rfl
  rw [← hts, element, Except.ok.injEq] at helement
  rw [compoundReader, element_bind, reader_bind, reader, compound]
  generalize typeSelector ts = x at helement ⊢
  obtain ⟨a, r₁⟩ := x
  obtain ⟨rfl, hr⟩ := Prod.mk.inj helement
  simp only
  rw [map_bind_eq]
  cases hsimples : simples r₁.1 with
  | error e => rfl
  | ok x =>
      obtain ⟨ss, r₂⟩ := x
      have hread : reader simples r₁.1 = .ok (ss, r₂.1) := by
        rw [reader, hsimples]
        rfl
      obtain ⟨q, hq, hss⟩ := (simples_predicts r₁.1).exists_takes hread
      have hleft : ts = p ++ (q ++ r₂.1) := hts.trans (congrArg (p ++ ·) (hr.symm.trans hq))
      -- The parser compares lengths where the reader asks whether anything was read.
      have hlength : r₂.1.length < ts.length ↔ ¬ (a.isNone && ss.isEmpty) = true := by
        have hts := congrArg List.length hleft
        rw [List.length_append, List.length_append] at hts
        rw [Bool.and_eq_true, hp.part.isNone_iff, hss.part.isEmpty_iff, List.map_eq_nil_iff,
          List.map_eq_nil_iff, ← List.length_eq_zero_iff, ← List.length_eq_zero_iff]
        omega
      show (if h : r₂.1.length < ts.length then pure ((⟨a, ss⟩ : Compound), (⟨r₂.1, h⟩ : Tail ts))
        else unexpected ts expected).map _ =
          (if (a.isNone && ss.isEmpty) = true then fun us => unexpected us expected
            else pure ⟨a, ss⟩ : Reader Compound) r₂.1
      by_cases h : r₂.1.length < ts.length
      · rw [dif_pos h, if_neg (hlength.mp h)]
        rfl
      · have hsame : ts = r₂.1 := by
          have hsuffix : r₂.1 <:+ ts := ⟨p ++ q, by rw [List.append_assoc]; exact hleft.symm⟩
          exact (hsuffix.eq_of_length_le (Nat.le_of_not_lt h)).symm
        rw [dif_neg h, if_pos (not_not.mp fun hempty => h (hlength.mpr hempty)), ← hsame]
        cases ts <;> rfl

/-- A compound follows the grammar. -/
theorem compound_predicts (expected : Expectation) (ts : List Token) :
    Predicts (reader (compound expected)) CompoundKinds ts := by
  rw [reader_compound]
  exact compoundReader_predicts expected fun r _ => simples_predicts r

/-! ### Chains and lists -/

/-- Reads the combinator in front, or the white space where the chain ends. -/
def combinator : Reader (Option Combinator) := fun ts =>
  match combinator? ts with
  | some (c, r) => .ok (some c, r.1)
  | none => .ok (none, (skipBlank ts).1)

/-- A combinator, or the white space behind a chain. -/
def CombinatorOrBlanks (ks : List Kind) : Option Combinator → Prop
  | some c => CombinatorKinds ks c
  | none => Blanks ks

/-- A combinator is read with the white space around it, or the white space is read that ends a
chain. -/
theorem combinator_total : Total combinator CombinatorOrBlanks := by
  intro ts
  obtain ⟨b, r, _, rfl, hb⟩ := blanks_total ts
  have hskip : ∀ us, us.head? = r.head? → (skipBlank (b ++ us)).1 = us := fun us hus =>
    (Prod.mk.inj (Except.ok.inj (hb.eq_ok us hus))).2
  -- What stands behind the white space tells: nothing more or a comma ends the chain, a combinator
  -- goes on with it, and anything else does only if there was white space.
  by_cases hend : ∀ t ∈ r.head?, t.kind = .delim ','
  · refine ⟨b, r, none, rfl, hb.part, fun us hus => ?_⟩
    rw [combinator, combinator?_of_end (by rwa [hskip us hus, hus])]
    simp only [hskip us hus]
  · obtain ⟨⟨k, p⟩, r, rfl, hcomma⟩ : ∃ t r', r = t :: r' ∧ t.kind ≠ .delim ',' := by
      cases r with
      | nil => simp at hend
      | cons t r => exact ⟨t, r, rfl, by simpa using hend⟩
    by_cases hc : ∃ c x, k = .delim c ∧ CombinatorSign c x
    · obtain ⟨c, x, rfl, hx⟩ := hc
      obtain ⟨b₂, r, _, rfl, hb₂⟩ := blanks_total r
      refine ⟨b ++ ⟨.delim c, p⟩ :: b₂, r, some x, by simp, ?_, fun us hus => ?_⟩
      · rw [List.map_append]
        exact .other hb.part hx hb₂.part
      · obtain ⟨r', hr, hr'⟩ := combinator?_of_delim (hskip (⟨.delim c, p⟩ :: (b₂ ++ us)) rfl) hx
        rw [List.append_assoc, List.cons_append, combinator, hr]
        simp only
        rw [hr', show (skipBlank (b₂ ++ us)).1 = us from
          (Prod.mk.inj (Except.ok.inj (hb₂.eq_ok us hus))).2]
    · have hk : ∀ c, k = .delim c → ∀ x, ¬ CombinatorSign c x :=
        fun c hkc x hx => hc ⟨c, x, hkc, hx⟩
      have hother : ∀ us, us.head? = some ⟨k, p⟩ → combinator (b ++ us) =
          if us.length < (b ++ us).length then .ok (some .descendant, us) else .ok (none, us) := by
        intro us hus
        obtain ⟨us, rfl⟩ := List.head?_eq_some_iff.mp hus
        have hfront := hskip (⟨k, p⟩ :: us) rfl
        rw [combinator, combinator?_of_other hfront hcomma hk, hfront]
        by_cases hlength :
            (⟨k, p⟩ :: us : List Token).length < (b ++ ⟨k, p⟩ :: us : List Token).length
        · rw [dif_pos hlength, if_pos hlength]
        · rw [dif_neg hlength, if_neg hlength]
      cases b with
      | nil =>
          refine ⟨[], _, none, rfl, hb.part, fun us hus => ?_⟩
          exact (hother us hus).trans (if_neg (Nat.lt_irrefl us.length))
      | cons t b =>
          refine ⟨t :: b, _, some .descendant, rfl, .descendant hb.part (by simp), fun us hus => ?_⟩
          rw [hother us hus, if_pos (by rw [List.length_append, List.length_cons]; omega)]

/-- Reads the links of a chain and the white space behind them. -/
def linksReader : Reader (List (Combinator × Compound)) := do
  let tail ← reader links
  blanks
  return tail

/-- The links of a chain and the white space behind them. -/
def TailKinds (ks : List Kind) (tail : List (Combinator × Compound)) : Prop :=
  ∃ ls b, ks = ls ++ b ∧ LinksKinds ls tail ∧ Blanks b

/-- The links of a chain are read together with the white space behind the last one. -/
theorem linksReader_eq (ts : List Token) :
    linksReader ts = links ts >>= fun x => .ok (x.1, (skipBlank x.2.1).1) := by
  rw [linksReader, reader_bind]
  rfl

/-- Links are read one at a time: a combinator, a compound, and then the other links. Without a
combinator the chain ends. -/
theorem linksReader_apply (ts : List Token) :
    linksReader ts = (do
      match ← combinator with
      | none => return []
      | some c =>
        let next ← reader (compound .selectorAfterCombinator)
        let more ← linksReader
        return (c, next) :: more : Reader (List (Combinator × Compound))) ts := by
  rw [Reader.bind_apply, combinator, linksReader_eq ts, links]
  cases combinator? ts with
  | none => rfl
  | some x =>
      obtain ⟨c, r⟩ := x
      show _ = (reader (compound .selectorAfterCombinator) >>= fun next =>
        linksReader >>= fun more => pure ((c, next) :: more)) r.1
      simp only
      rw [bind_assoc, reader_bind]
      refine bind_congr ?_
      rintro ⟨next, r₁⟩
      simp only
      rw [Reader.bind_apply, linksReader_eq, bind_assoc, bind_assoc]
      rfl

/-- A chain may end behind each of its links. -/
theorem CompoundKinds.exists_tail {ks : List Kind} {next : Compound} (h : CompoundKinds ks next)
    (c : Combinator) :
    ∃ vs tail, Language.behind CombinatorOrBlanks (some c) TailKinds (ks ++ vs) tail := by
  refine ⟨[], [(c, next)], fun cs hcs => ?_⟩
  exact ⟨cs ++ (ks ++ []), [], by simp, .cons hcs h .nil, blanks_nil⟩

/-- A compound leaves less than there was. -/
theorem CompoundKinds.length_lt {p r rest : List Token} {c : Compound}
    (h : CompoundKinds (p.map Token.kind) c) (hr : r = p ++ rest) : rest.length < r.length := by
  have hpos := List.length_pos_iff.mpr h.ne_nil
  rw [List.length_map] at hpos
  rw [hr, List.length_append]
  omega

/-- A link in front of the others makes a chain one longer, behind its combinator. -/
theorem TailKinds.cons {ks ls : List Kind} {next : Compound}
    {more : List (Combinator × Compound)} (h : TailKinds ls more) (hks : CompoundKinds ks next)
    (c : Combinator) :
    Language.behind CombinatorOrBlanks (some c) TailKinds (ks ++ ls) ((c, next) :: more) := by
  obtain ⟨ls, b, rfl, hls, hb⟩ := h
  exact fun cs hcs => ⟨cs ++ (ks ++ ls), b, by simp, .cons hcs hks hls, hb⟩

/-- The links of a chain follow the grammar. Induction on the number of tokens, since every compound
takes one. -/
theorem linksReader_predicts (ts : List Token) : Predicts linksReader TailKinds ts := by
  induction hn : ts.length using Nat.strongRecOn generalizing ts with
  | ind n ih =>
  refine .behind [] (fun us _ => linksReader_apply us) (.bind_of_total combinator_total
    fun c r hr => ?_) fun ks a h => h
  cases c with
  | none =>
      refine .pure (fun b hb => ⟨[], b, by simp, .nil, hb⟩) r
  | some c =>
      refine .bind_parts (compound_predicts _ r) (fun p r' next hp hnext => ?_) ?_
      · have hlength : r'.length < n := hn ▸ Nat.lt_of_lt_of_le (hnext.length_lt hp) hr
        exact .map (ih _ hlength r' rfl) fun _ more hls ks hks => hls.cons hks c
      · exact fun ks next hks => hks.exists_tail c

/-- Reads a chain and the white space around it. -/
def chainReader : Reader Complex := do
  blanks
  let head ← reader (compound .selector)
  let tail ← linksReader
  return ⟨head, tail⟩

/-- A chain and the white space around it. -/
def ChainKinds (ks : List Kind) (c : Complex) : Prop :=
  ∃ b₁ cs b₂, ks = b₁ ++ (cs ++ b₂) ∧ Blanks b₁ ∧ ComplexKinds cs c ∧ Blanks b₂

/-- A compound with links behind it is a chain, behind white space. -/
theorem CompoundKinds.chain {ks ls : List Kind} {head : Compound}
    {tail : List (Combinator × Compound)} (hks : CompoundKinds ks head) (h : TailKinds ls tail) :
    Language.behind (fun ks (_ : Unit) => Blanks ks) () ChainKinds (ks ++ ls) ⟨head, tail⟩ := by
  obtain ⟨ls, b₂, rfl, hls, hb₂⟩ := h
  exact fun b₁ hb₁ => ⟨b₁, ks ++ ls, b₂, by simp, hb₁, .mk hks hls, hb₂⟩

/-- A compound is a chain by itself. -/
theorem CompoundKinds.exists_chain {ks : List Kind} {head : Compound} (h : CompoundKinds ks head) :
    ∃ vs c, Language.behind (fun ks (_ : Unit) => Blanks ks) () ChainKinds (ks ++ vs) c :=
  ⟨[], ⟨head, []⟩, h.chain ⟨[], [], rfl, .nil, blanks_nil⟩⟩

/-- A chain follows the grammar, with the white space around it. -/
theorem chainReader_predicts (ts : List Token) : Predicts chainReader ChainKinds ts :=
  .bind_of_total blanks_total fun _ r _ => .bind (compound_predicts _ r)
    (fun _ r' _ => .map (linksReader_predicts r') fun _ _ hls _ hks => hks.chain hls)
    fun _ _ hks => hks.exists_chain

/-- A list of chains, up to the end of the tokens. -/
def groupReader : Reader Group :=
  fun ts => (group ts).map fun g => (g, [])

/-- Reads to the end of a list, behind the chain `c`. -/
def groupEnd (c : Complex) : Reader Group
  | [] => .ok ([c], [])
  | t :: r =>
    if t.kind = .delim ',' then (groupReader >>= fun g => pure (c :: g) : Reader Group) r
    else unexpected (t :: r) .commaOrEnd

/-- A list of chains is read as one chain and what follows it. -/
theorem groupReader_eq : groupReader = chainReader >>= groupEnd := by
  funext ts
  rw [chainReader, bind_assoc, blanks_bind, bind_assoc, reader_bind, groupReader, group,
    map_bind_eq, complex, bind_assoc]
  refine bind_congr ?_
  rintro ⟨head, r⟩
  simp only
  rw [bind_assoc, bind_assoc, Reader.bind_apply, linksReader_eq, bind_assoc]
  refine bind_congr ?_
  rintro ⟨tail, rest⟩
  simp only [pure_bind]
  show _ = groupEnd ⟨head, tail⟩ (skipBlank (r.of rest).1).1
  split
  · next hend =>
    rw [hend]
    rfl
  · next t us hus =>
    rw [hus, groupEnd]
    split
    · rw [map_bind_eq, Reader.bind_apply, groupReader]
      cases group us <;> rfl
    · rfl

/-- A chain is a list by itself. -/
theorem ChainKinds.group {ks : List Kind} {c : Complex} (h : ChainKinds ks c) :
    GroupKinds (ks ++ []) [c] := by
  obtain ⟨b₁, cs, b₂, rfl, hb₁, hc, hb₂⟩ := h
  rw [List.append_nil]
  exact .one hb₁ hc hb₂

/-- A chain and a comma make a list one longer. -/
theorem ChainKinds.cons {ks gs : List Kind} {c : Complex} {g : Group} (h : ChainKinds ks c)
    (more : GroupKinds gs g) : GroupKinds (ks ++ .delim ',' :: gs) (c :: g) := by
  obtain ⟨b₁, cs, b₂, rfl, hb₁, hc, hb₂⟩ := h
  simpa using GroupKinds.cons hb₁ hc hb₂ more

/-- Behind a chain a list ends or goes on with a comma, and any other token is refused there. -/
theorem groupEnd_predicts {c : Complex} {ts : List Token}
    (ih : ∀ r, r.length < ts.length → Predicts groupReader GroupKinds r) :
    Predicts (groupEnd c) (Language.behind ChainKinds c GroupKinds) ts := by
  have hend : Language.behind ChainKinds c GroupKinds [] [c] := fun _ hc => hc.group
  cases ts with
  | nil =>
      refine .nothing (fun us hus => ?_) hend
      cases List.head?_eq_none_iff.mp hus
      rfl
  | cons t r =>
      by_cases hcomma : t.kind = .delim ','
      · refine .cons t (M := fun ks g =>
          Language.behind ChainKinds c GroupKinds (.delim ',' :: ks) g)
          (fun us => if_pos hcomma) (.map (ih r (Nat.lt_succ_self _)) ?_)
          fun ks g h => by rw [hcomma]; exact h
        exact fun ks g more _ hc => hc.cons more
      · refine .refuse .commaOrEnd (fun us hus => ?_) ⟨[], [c], hend⟩
        obtain ⟨us, rfl⟩ := List.head?_eq_some_iff.mp hus
        exact if_neg hcomma

/-- **A list of chains follows the grammar.** Induction on the number of tokens, since every comma
takes one. -/
theorem group_predicts (ts : List Token) : Predicts groupReader GroupKinds ts := by
  induction hn : ts.length using Nat.strongRecOn generalizing ts with
  | ind n ih =>
  rw [groupReader_eq]
  refine .bind (chainReader_predicts ts) (fun c r hr => ?_) fun _ c hc => ⟨[], [c], hc.group⟩
  exact groupEnd_predicts fun r' hr' => ih _ (by omega) r' rfl

/-- **What the parser reads, the grammar has.** -/
theorem groupKinds_of_group (ts : List Token) {g : Group} (h : group ts = .ok g) :
    GroupKinds (ts.map Token.kind) g := by
  have hread : groupReader ts = .ok (g, []) := by
    rw [groupReader, h]
    rfl
  obtain ⟨p, hp, htakes⟩ := (group_predicts ts).exists_takes hread
  rw [hp, List.append_nil]
  exact htakes.part

end XPathLocator.Css
