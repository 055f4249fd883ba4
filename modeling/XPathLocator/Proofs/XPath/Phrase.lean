import XPathLocator.Proofs.XPath.Grammar
import XPathLocator.Proofs.XPath.Literal

/-!
# `XPathLocator.Proofs.XPath.Phrase`: texts that are put together

A compiler of XPath writes texts and never trees. `Written part s e` says that
the text `s` is a `part` of an expression with the tree `e` wherever it stands:
its tokens are the same in front of any text that lets an operand end there.
There is one lemma for each way to put phrases together, and each of them is a
rule of the grammar with the white space that is written between its tokens.

A path that waits for the name of its next step is no phrase of this kind, since
the next token is not behind an operand. `Opens s base axis` is what it is
instead: any node test behind `s` makes it a path whose last step goes on `axis`.
-/

set_option autoImplicit false

namespace XPathLocator.XPath

/-- A text has these tokens in front of any text where an operand can end. -/
def Spells (s : String) (ts : List Token) : Prop :=
  ∀ rest us, stops rest → tokens? true rest = some us →
    tokens? false (s.toList ++ rest) = some (ts ++ us)

/-- A text is a part of an expression, with this parse tree, wherever an operand
can stand. -/
def Written (part : Part) (s : String) (e : Tree) : Prop :=
  ∃ ts, Spells s ts ∧ Derives part ts e

/-- A path that is written up to the node test of a step on `axis`. -/
def Opens (s : String) (base : Tree) (axis : Axis) : Prop :=
  ∃ ts, (∀ c rest us, (c = '*' ∨ isNameStart c) → tokens? false (c :: rest) = some us →
      tokens? false (s.toList ++ c :: rest) = some (ts ++ us)) ∧
    ∀ us test, TestTokens us test → Derives .steps (ts ++ us) (.step base axis test [])

/-- A whole expression on its own. -/
theorem Written.parses {n : Nat} {s : String} {e : Tree} (h : Written (.expr n) s e) :
    Parses s e := by
  obtain ⟨ts, hs, hd⟩ := h
  have htokens := hs [] [] rfl (tokens?_nil true)
  rw [List.append_nil, List.append_nil] at htokens
  exact ⟨ts, htokens, hd.whole⟩

/-- A phrase is written as another part, by a rule that takes the same tokens. -/
theorem Written.map {part part' : Part} {s : String} {e e' : Tree} (h : Written part s e)
    (hd : ∀ ts, Derives part ts e → Derives part' ts e') : Written part' s e' := by
  obtain ⟨ts, hs, h⟩ := h
  exact ⟨ts, hs, hd ts h⟩

/-- A text may be spelled as it is put together. -/
theorem Written.as {part : Part} {s s' : String} {e : Tree} (h : Written part s e)
    (hs : s'.toList = s.toList) : Written part s' e := by
  rw [String.toList_inj] at hs
  exact hs ▸ h

/-- An operand is never empty. -/
theorem Written.isEmpty_eq_false {n : Nat} {s : String} {e : Tree} (h : Written (.expr n) s e) :
    s.isEmpty = false := by
  obtain ⟨ts, hs, hd⟩ := h
  have hne := hd.operand_ne_nil
  refine Bool.eq_false_iff.mpr fun hempty => ?_
  rw [String.isEmpty_iff] at hempty
  have htokens := hs [] [] rfl (tokens?_nil true)
  rw [hempty, List.append_nil, List.append_nil] at htokens
  exact hne (Option.some.inj ((tokens?_nil false).symm.trans htokens)).symm

/-- What is written at one level of operators may stand at any lower one. -/
theorem Written.loosen {m n : Nat} {s : String} {e : Tree} (h : Written (.expr n) s e)
    (hmn : m ≤ n) : Written (.expr m) s e :=
  h.map fun _ h => h.loosen hmn

/-- An operand of any rank is an expression. -/
theorem Written.whole {n : Nat} {s : String} {e : Tree} (h : Written (.expr n) s e) :
    Written (.expr 0) s e :=
  h.loosen (Nat.zero_le n)

/-- A primary expression is an operand of the highest rank. -/
theorem Written.ofFiltered {s : String} {e : Tree} (h : Written .filtered s e) :
    Written (.expr 8) s e :=
  h.map fun _ h => .primary h

/-- A location path is an operand of the highest rank. -/
theorem Written.ofSteps {s : String} {e : Tree} (h : Written .steps s e) :
    Written (.expr 8) s e :=
  h.map fun _ h => .path (.steps h)

/-! ### Operators and brackets -/

/-- An operator with blanks around it ends the operand in front of it. -/
theorem stops_operator (op : Operator) (rest : List Char) :
    stops (' ' :: (op.text.toList ++ ' ' :: rest)) := by
  cases op <;> rfl

/-- Two operands with an operator and blanks between them. -/
theorem Written.binary {s t between : String} {a b : Tree} (op : Operator)
    (hop : between = " " ++ op.text ++ " ") (left : Written (.expr op.rank) s a)
    (right : Written (.expr (op.rank + 1)) t b) :
    Written (.expr op.rank) (s ++ between ++ t) (.binary op a b) := by
  obtain ⟨ts, hs, hd⟩ := left
  obtain ⟨us, ht, hd'⟩ := right
  refine ⟨ts ++ .operator op :: us, fun rest vs hrest hvs => ?_, hd.binary op hd'⟩
  -- The left operand ends at the blank, and behind it a name is an operator.
  have hright : tokens? true (' ' :: (op.text.toList ++ ' ' :: (t.toList ++ rest)))
      = some (.operator op :: (us ++ vs)) := by
    refine tokens?_cons (next?_operator op _) ?_
    rw [tokens?_space (by decide)]
    exact ht rest vs hrest hvs
  have hwhole := hs _ _ (stops_operator op _) hright
  rw [hop]
  simpa using hwhole

/-- Two phrases with `or` between them are a phrase. -/
theorem Written.or {n : Nat} {s t : String} {a b : Tree} (left : Written (.expr n) s a)
    (right : Written (.expr 1) t b) :
    Written (.expr 0) (s ++ " or " ++ t) (.binary .or a b) :=
  Written.binary .or rfl left.whole right

/-- Two phrases with `and` between them are a phrase. -/
theorem Written.and {s t : String} {a b : Tree} (left : Written (.expr 1) s a)
    (right : Written (.expr 2) t b) :
    Written (.expr 1) (s ++ " and " ++ t) (.binary .and a b) :=
  Written.binary .and rfl left right

/-- Two phrases with an equals sign between them are a phrase. -/
theorem Written.eq {s t : String} {a b : Tree} (left : Written (.expr 8) s a)
    (right : Written (.expr 8) t b) :
    Written (.expr 2) (s ++ " = " ++ t) (.binary .eq a b) :=
  Written.binary .eq rfl (left.loosen (by decide)) (right.loosen (by decide))

/-- A union without blanks around its bar. -/
theorem Written.bar {s t : String} {a b : Tree} (left : Written (.expr 7) s a)
    (right : Written (.expr 8) t b) :
    Written (.expr 7) (s ++ "|" ++ t) (.binary .union a b) := by
  obtain ⟨ts, hs, hd⟩ := left
  obtain ⟨us, ht, hd'⟩ := right
  refine ⟨_, fun rest vs hrest hvs => ?_, hd.binary .union hd'⟩
  have hright := tokens?_cons (next?_bar true _) (ht rest vs hrest hvs)
  have hwhole := hs _ _ rfl hright
  simpa using hwhole

/-- An expression in brackets. -/
theorem Written.group {n : Nat} {s : String} {e : Tree} (h : Written (.expr n) s e) :
    Written .filtered ("(" ++ s ++ ")") e := by
  obtain ⟨ts, hs, hd⟩ := h
  refine ⟨_, fun rest us hrest hus => ?_, hd.whole.group⟩
  have hclose : tokens? true (')' :: rest) = some (.closeParen :: us) :=
    tokens?_cons (next?_closeParen _ _) hus
  have hopen : tokens? false ('(' :: (s.toList ++ ')' :: rest))
      = some (.openParen :: (ts ++ .closeParen :: us)) :=
    tokens?_cons (next?_openParen _ _) (hs _ _ rfl hclose)
  simpa using hopen

/-! ### Literals, numbers and calls -/

/-- An operand that is a single token. -/
theorem spells_token {s : String} {t : Token} (ht : t.endsOperand)
    (h : ∀ rest, stops rest → next? false (s.toList ++ rest) = some (t, rest)) :
    Spells s [t] := by
  intro rest us hrest hus
  refine tokens?_cons (h rest hrest) ?_
  rw [ht]
  exact hus

/-- Digits and points go on a name as well as a number, so an operand does not
end in front of them. -/
theorem head_of_stops {c : Char} {r : List Char} (h : stops (c :: r)) :
    c.isDigit = false ∧ c ≠ '.' := by
  have hc : isNameChar c = false ∧ ¬ c = ':' := by
    simpa using (Bool.and_eq_true_iff.mp h).1
  refine ⟨Bool.eq_false_iff.mpr fun h => ?_, fun h => ?_⟩
  · rw [isNameChar_of_isDigit h] at hc
    exact absurd hc.1 (by decide)
  · rw [h] at hc
    exact absurd hc.1 (by decide)

/-- Digits are a number. -/
theorem written_number (d : String) (hd : d.toList.all Char.isDigit) (hne : d ≠ "") :
    Written .filtered d (.number d) := by
  refine ⟨[.number d], spells_token rfl fun rest hrest => ?_, .number d⟩
  have hhead : rest.head?.any (fun c => c.isDigit || c = '.') = false := by
    cases rest with
    | nil => rfl
    | cons c r => simp [head_of_stops hrest]
  rw [next?_number hd (by simpa using hne) hhead, String.ofList_toList]

/-- A name that calls a function in front of a bracket: none of the four that are
tests of the type of a node. -/
abbrev IsFunction (f : String) : Prop :=
  isName f.toList ∧ NodeType.ofName? f = none

/-- A call without arguments. -/
theorem written_callEmpty (f : String) (hf : IsFunction f) :
    Written .filtered (f ++ "()") (.call (.ofName f) []) := by
  refine ⟨_, fun rest us hrest hus => ?_, .callEmpty (.ofName f)⟩
  have hname := next?_function hf.1 (by rw [String.ofList_toList]; exact hf.2) (')' :: rest)
  rw [String.ofList_toList] at hname
  have hclose : tokens? false (')' :: rest) = some (.closeParen :: us) :=
    tokens?_cons (next?_closeParen _ _) hus
  have hcall : tokens? false (f.toList ++ '(' :: ')' :: rest)
      = some (.function (.ofName f) :: .openParen :: .closeParen :: us) :=
    tokens?_cons hname (tokens?_cons (next?_openParen _ _) hclose)
  simpa using hcall

/-- A call up to the end of its first argument. -/
theorem Written.argument {n : Nat} {s : String} {e : Tree} (h : Written (.expr n) s e)
    (f : String) (hf : IsFunction f) :
    Written .arguments (f ++ "(" ++ s) (.call (.ofName f) [e]) := by
  obtain ⟨ts, hs, hd⟩ := h
  refine ⟨_, fun rest us hrest hus => ?_, hd.whole.argument (.ofName f)⟩
  have hname := next?_function hf.1 (by rw [String.ofList_toList]; exact hf.2) (s.toList ++ rest)
  rw [String.ofList_toList] at hname
  have hcall : tokens? false (f.toList ++ '(' :: (s.toList ++ rest))
      = some (.function (.ofName f) :: .openParen :: (ts ++ us)) :=
    tokens?_cons hname (tokens?_cons (next?_openParen _ _) (hs rest us hrest hus))
  simpa using hcall

/-- A further argument of a call. -/
theorem Written.nextArgument {n : Nat} {s t : String} {f : QName} {args : List Tree}
    {e : Tree} (h : Written .arguments s (.call f args)) (next : Written (.expr n) t e) :
    Written .arguments (s ++ ", " ++ t) (.call f (args ++ [e])) := by
  obtain ⟨ts, hs, hd⟩ := h
  obtain ⟨us, ht, hd'⟩ := next
  refine ⟨_, fun rest vs hrest hvs => ?_, hd.nextArgument hd'.whole⟩
  have hcomma : tokens? true (',' :: ' ' :: (t.toList ++ rest)) = some (.comma :: (us ++ vs)) := by
    refine tokens?_cons (next?_comma _ _) ?_
    rw [tokens?_space (by decide)]
    exact ht rest vs hrest hvs
  have hwhole := hs _ _ rfl hcomma
  simpa using hwhole

/-- The end of a call. -/
theorem Written.call {s : String} {e : Tree} (h : Written .arguments s e) :
    Written .filtered (s ++ ")") e := by
  obtain ⟨ts, hs, hd⟩ := h
  refine ⟨_, fun rest us hrest hus => ?_, hd.call⟩
  have hwhole := hs _ _ rfl (tokens?_cons (next?_closeParen _ rest) hus)
  simpa using hwhole

/-- The end of a call with a number taken from its value. No blank is needed,
since the bracket ends the name that a `-` would otherwise go on with. -/
theorem Written.callMinus {s d : String} {e : Tree} (h : Written .arguments s e)
    (hd : Written .filtered d (.number d)) :
    Written (.expr 4) (s ++ ")-" ++ d) (.binary .minus e (.number d)) := by
  obtain ⟨ts, hs, he⟩ := h
  obtain ⟨us, ht, hn⟩ := hd
  have hleft : Derives (.expr 4) (ts ++ [Token.closeParen]) e :=
    (Derives.primary he.call).loosen (by decide)
  have hright : Derives (.expr 5) us (.number d) :=
    (Derives.primary hn).loosen (by decide)
  refine ⟨_, fun rest vs hrest hvs => ?_, hleft.binary .minus hright⟩
  have hminus : tokens? true (')' :: '-' :: (d.toList ++ rest))
      = some (.closeParen :: .operator .minus :: (us ++ vs)) :=
    tokens?_cons (next?_closeParen _ _)
      (tokens?_cons (next?_minus _ _) (ht rest vs hrest hvs))
  have hwhole := hs _ _ rfl hminus
  simpa using hwhole

/-- A call may have further literals as arguments. Induction on the literals. -/
theorem Written.moreArguments {s : String} {f : QName} {args : List Tree}
    (h : Written .arguments s (.call f args)) {vs : List String}
    (hvs : ∀ v ∈ vs, Literal.needsConcat v = false) :
    Written .arguments (s ++ String.join (vs.map fun v => ", " ++ Literal.ofText v))
      (.call f (args ++ vs.map .literal)) := by
  induction vs generalizing s args with
  | nil => simpa using h
  | cons v vs ih =>
      have hv : Written .filtered (Literal.ofText v) (.literal v) :=
        ⟨_, spells_token rfl fun rest _ =>
          Literal.next?_ofText (hvs v List.mem_cons_self) false rest, .literal v⟩
      have hnext := ih (h.nextArgument hv.ofFiltered)
        (fun w hw => hvs w (List.mem_cons_of_mem _ hw))
      simpa [String.append_assoc] using hnext

/-- To join texts with a separator is to put it in front of each but the first. -/
theorem intercalate_cons (sep s : String) (ss : List String) :
    sep.intercalate (s :: ss) = s ++ String.join (ss.map (sep ++ ·)) := by
  induction ss generalizing s with
  | nil => simp
  | cons t ts ih =>
      rw [String.intercalate_cons_cons, ih, List.map_cons, String.join_cons]
      simp only [String.append_assoc]

/-- A written text is an operand with the tree of the text. -/
theorem written_literal (v : String) : Written .filtered (Literal.ofText v) (Literal.tree v) := by
  cases h : Literal.needsConcat v with
  | false =>
      rw [Literal.tree, h]
      exact ⟨_, spells_token rfl fun rest _ => Literal.next?_ofText h false rest, .literal v⟩
  | true =>
      -- A call of `concat`, whose arguments are single literals and at least two.
      have hall : ∀ w ∈ Literal.concatValues v, Literal.needsConcat w = false :=
        fun _ hw => Literal.needsConcat_of_mem_concatValues hw
      obtain ⟨w, w', ws, hws⟩ := Literal.exists_concatValues_eq h
      rw [Literal.tree, h, if_pos rfl, Literal.ofText, h, if_pos rfl, Literal.concatArguments_eq,
        hws, List.map_cons, intercalate_cons, List.map_map]
      rw [hws] at hall
      have hw : Written .filtered (Literal.ofText w) (.literal w) :=
        ⟨_, spells_token rfl fun rest _ =>
          Literal.next?_ofText (hall w List.mem_cons_self) false rest, .literal w⟩
      have hargs := hw.ofFiltered.argument "concat" (by decide)
      have hcall := (hargs.moreArguments
        fun v hv => hall v (List.mem_cons_of_mem _ hv)).call
      simpa [String.append_assoc, Function.comp_def] using hcall

/-- A comparison with a written text. -/
theorem Written.eqText {s : String} {e : Tree} (h : Written (.expr 8) s e) (v : String) :
    Written (.expr 2) (s ++ " = " ++ Literal.ofText v) (.binary .eq e (Literal.tree v)) :=
  h.eq (written_literal v).ofFiltered

/-- A comparison with a word that needs no choice of quotes. -/
theorem Written.eqWord {s : String} {e : Tree} (h : Written (.expr 8) s e) (v : String)
    (hv : '\'' ∉ v.toList) :
    Written (.expr 2) (s ++ " = '" ++ v ++ "'") (.binary .eq e (.literal v)) := by
  have hconcat : Literal.needsConcat v = false := by simp [Literal.needsConcat, hv]
  have htext := h.eqText v
  rw [Literal.tree, hconcat, Literal.ofText_of_not_mem hv] at htext
  exact htext.as (by simp)

/-- A call of a function of two arguments, the second a written text. -/
theorem Written.callText {n : Nat} {s : String} {e : Tree} (h : Written (.expr n) s e)
    (f v : String) (hf : IsFunction f) :
    Written .filtered (f ++ "(" ++ s ++ ", " ++ Literal.ofText v ++ ")")
      (.apply f [e, Literal.tree v]) :=
  ((h.argument f hf).nextArgument (written_literal v).ofFiltered).call

/-! ### Paths -/

/-- Only the characters of a path that waits for a name count. -/
theorem Opens.as {s s' : String} {base : Tree} {axis : Axis} (h : Opens s base axis)
    (hs : s'.toList = s.toList) : Opens s' base axis := by
  rw [String.toList_inj] at hs
  exact hs ▸ h

/-- A path from the context node, written up to the axis of its first step. -/
theorem opens_axis (axis : Axis) : Opens (axis.name ++ "::") .context axis := by
  refine ⟨[.axis axis, .doubleColon], fun c rest us _ hus => ?_,
    fun us test h => Derives.relative.step (.full axis h)⟩
  have haxis : tokens? false (axis.name.toList ++ ':' :: ':' :: c :: rest)
      = some (.axis axis :: .doubleColon :: us) :=
    tokens?_cons (next?_axis axis _) (tokens?_cons (next?_doubleColon _ _) hus)
  simpa using haxis

/-- A step to the children, which names no axis. -/
theorem opens_bare : Opens "" .context .child :=
  ⟨[], fun _ _ _ _ hus => hus, fun _ _ h => Derives.relative.step (.bare h)⟩

/-- The short form of a step to the attributes. -/
theorem opens_at : Opens "@" .context .attributes := by
  refine ⟨[.at], fun c rest us _ hus => ?_, fun us test h => Derives.relative.step (.short h)⟩
  exact tokens?_cons (next?_at _ _) hus

/-- The elements below the root, at any depth. -/
theorem opens_below : Opens "//" (.anyBelow .root) .child :=
  ⟨[.doubleSlash], fun _ _ _ _ hus => tokens?_cons (next?_doubleSlash _ _) hus,
    fun _ _ h => Derives.absoluteBelow.step (.bare h)⟩

/-- The short form of a step to the context node. -/
theorem written_self : Written .location "." .self := by
  refine ⟨[.dot], fun rest us hrest hus => tokens?_cons ?_ hus, Derives.relative.self⟩
  cases rest with
  | nil => rfl
  | cons c r =>
      -- A digit would make it a number, and another point the parent.
      obtain ⟨hdigit, hpoint⟩ := head_of_stops hrest
      show (if c.isDigit then _ else some (if c = '.' then _ else _)) = _
      rw [hdigit, if_neg (by decide), if_neg hpoint]

/-- A node test does not start with a slash. -/
theorem head_ne_slash {c : Char} (h : c = '*' ∨ isNameStart c) (rest : List Char) :
    (c :: rest).head? ≠ some '/' := by
  rcases h with rfl | h
  · simp
  · intro hc
    cases hc
    exact absurd h (by decide)

/-- A further step to the children. -/
theorem Written.slash {s : String} {e : Tree} (h : Written .location s e) :
    Opens (s ++ "/") e .child := by
  obtain ⟨ts, hs, hd⟩ := h
  refine ⟨ts ++ [Token.slash], fun c rest us hc hus => ?_, fun us test h => hd.afterStep.step (.bare h)⟩
  have hslash := hs _ _ rfl (tokens?_cons (next?_slash (head_ne_slash hc rest)) hus)
  simpa using hslash

/-- A further step to the attributes. -/
theorem Written.slashAt {s : String} {e : Tree} (h : Written .location s e) :
    Opens (s ++ "/@") e .attributes := by
  obtain ⟨ts, hs, hd⟩ := h
  refine ⟨ts ++ [Token.slash, Token.at], fun c rest us _ hus => ?_, fun us test h => ?_⟩
  · have hat : tokens? false ('@' :: c :: rest) = some (.at :: us) :=
      tokens?_cons (next?_at _ _) hus
    have hslash := hs _ _ rfl (tokens?_cons (next?_slash (by simp)) hat)
    simpa using hslash
  · have hstep := hd.afterStep.step (.short h)
    simpa using hstep

/-- A further step to the children, at any depth. -/
theorem Written.slashes {s : String} {e : Tree} (h : Written .location s e) :
    Opens (s ++ "//") (.anyBelow e) .child := by
  obtain ⟨ts, hs, hd⟩ := h
  refine ⟨ts ++ [Token.doubleSlash], fun c rest us _ hus => ?_,
    fun us test h => hd.belowStep.step (.bare h)⟩
  have hslashes := hs _ _ rfl (tokens?_cons (next?_doubleSlash _ _) hus)
  simpa using hslashes

/-- A further step on an axis. -/
theorem Written.slashAxis {s : String} {e : Tree} (h : Written .location s e) (axis : Axis) :
    Opens (s ++ "/" ++ axis.name ++ "::") e axis := by
  obtain ⟨ts, hs, hd⟩ := h
  refine ⟨ts ++ [Token.slash, Token.axis axis, Token.doubleColon],
    fun c rest us hc hus => ?_, fun us test h => ?_⟩
  · have haxis : tokens? false (axis.name.toList ++ ':' :: ':' :: c :: rest)
        = some (.axis axis :: .doubleColon :: us) :=
      tokens?_cons (next?_axis axis _) (tokens?_cons (next?_doubleColon _ _) hus)
    have hname : (axis.name.toList ++ ':' :: ':' :: c :: rest).head? ≠ some '/' := by
      cases axis <;> simp [Axis.name]
    have hslash := hs _ _ rfl (tokens?_cons (next?_slash hname) haxis)
    simpa using hslash
  · have hstep := hd.afterStep.step (.full axis h)
    simpa using hstep

/-- A step that asks for a name. -/
theorem Opens.name {s n : String} {base : Tree} {axis : Axis} (h : Opens s base axis)
    (hn : isName n.toList) :
    Written .steps (s ++ n) (.step base axis (.name (.ofName n)) []) := by
  obtain ⟨ts, hs, hd⟩ := h
  refine ⟨_, fun rest us hrest hus => ?_, hd _ _ (.name _)⟩
  have hname : tokens? false (n.toList ++ rest) = some (.nameTest (.name (.ofName n)) :: us) := by
    have hnext : next? false (n.toList ++ rest) = some (.nameTest (.name (.ofName n)), rest) := by
      rw [next?_nameTest hn hrest, String.ofList_toList]
    exact tokens?_cons hnext hus
  -- What waits for a name test asks for its first character.
  match hnl : n.toList, hn with
  | c :: r, hn =>
      rw [hnl] at hname
      simp only [isName, Bool.and_eq_true] at hn
      have hwhole := hs c _ _ (.inr hn.1) hname
      simpa [hnl] using hwhole

/-- A step that asks for any name. -/
theorem Opens.any {s : String} {base : Tree} {axis : Axis} (h : Opens s base axis) :
    Written .steps (s ++ "*") (.step base axis .any []) := by
  obtain ⟨ts, hs, hd⟩ := h
  refine ⟨_, fun rest us hrest hus => ?_, hd _ _ (.name _)⟩
  have hwhole := hs '*' _ _ (.inl rfl) (tokens?_cons (next?_any _) hus)
  simpa using hwhole

/-- A predicate on the last step. -/
theorem Written.predicate {n : Nat} {s c : String} {base p : Tree} {axis : Axis}
    {test : NodeTest} {ps : List Tree} (h : Written .steps s (.step base axis test ps))
    (hp : Written (.expr n) c p) :
    Written .steps (s ++ "[" ++ c ++ "]") (.step base axis test (ps ++ [p])) := by
  obtain ⟨ts, hs, hd⟩ := h
  obtain ⟨us, hc, hd'⟩ := hp
  refine ⟨_, fun rest vs hrest hvs => ?_, hd.predicate hd'.whole⟩
  have hclose := hc _ _ rfl (tokens?_cons (next?_closeBracket _ rest) hvs)
  have hwhole := hs _ _ rfl (tokens?_cons (next?_openBracket _ _) hclose)
  simpa using hwhole

end XPathLocator.XPath
