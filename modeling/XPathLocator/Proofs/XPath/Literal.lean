import XPathLocator.Proofs.XPath.Spelling
import XPathLocator.XPath.Literal

/-!
# `XPathLocator.Proofs.XPath.Literal`: a written text is read back

`Literal.read?` reads one primary expression that denotes a text, a literal or a
call of `concat` with at least two literals, from the front of a text. The
theorem: behind `Literal.ofText raw` it has read `raw` and nothing more, whatever
the text goes on with.

In the `concat` form each argument is itself `ofText` of a text that needs no
`concat` (`concatArguments_eq`): a piece without apostrophes, or an apostrophe
alone. The texts of the arguments make up the whole (`join_concatValues`), so the
reader needs no case of its own for empty pieces.
-/

set_option autoImplicit false

namespace XPathLocator.XPath.Literal

/-! ### Reading -/

/-- Literals separated by commas up to a closing bracket, and what is left
behind the bracket. -/
def arguments? (s : List Char) : Option (List String × List Char) :=
  match _h₁ : next? false s with
  | some (.literal v, r) =>
    match _h₂ : next? true r with
    | some (.comma, t) => (arguments? t).map fun (vs, rest) => (v :: vs, rest)
    | some (.closeParen, rest) => some ([v], rest)
    | _ => none
  | _ => none
termination_by s.length
decreasing_by exact Nat.lt_trans (next?_length_lt _h₂) (next?_length_lt _h₁)

/-- The text that a primary expression in front denotes, a literal or a call of
`concat` with two literals or more, and what is left behind it. -/
def read? (s : List Char) : Option (String × List Char) :=
  match next? false s with
  | some (.literal v, rest) => some (v, rest)
  | some (.function f, r) =>
    match next? true r with
    | some (.openParen, t) =>
      match arguments? t with
      | some (v :: w :: vs, rest) =>
        if f = .ofName "concat" then some (String.join (v :: w :: vs), rest) else none
      | _ => none
    | _ => none
  | _ => none

/-! ### The values of the arguments -/

/-- The texts of the arguments in the `concat` form. -/
def concatValues (text : String) : List String :=
  ((pieces text.toList).map String.ofList).intersperse "'"

/-- Every text has a piece. -/
theorem pieces_ne_nil (cs : List Char) : pieces cs ≠ [] := by
  induction cs with
  | nil => exact List.cons_ne_nil _ _
  | cons c cs ih =>
      rw [pieces]
      split
      · exact List.cons_ne_nil _ _
      · cases h : pieces cs with
        | nil => exact absurd h ih
        | cons p ps => exact List.cons_ne_nil _ _

/-- No piece holds an apostrophe. -/
theorem not_mem_of_mem_pieces {cs p : List Char} (h : p ∈ pieces cs) : '\'' ∉ p := by
  induction cs generalizing p with
  | nil =>
      cases List.mem_singleton.mp h
      exact List.not_mem_nil
  | cons c cs ih =>
      rw [pieces] at h
      split at h
      · rcases List.mem_cons.mp h with rfl | h
        · exact List.not_mem_nil
        · exact ih h
      · rename_i hc
        -- The character goes to the first piece, and it is no apostrophe.
        cases hps : pieces cs with
        | nil => exact absurd hps (pieces_ne_nil cs)
        | cons q qs =>
            rw [hps, List.modifyHead_cons] at h
            rw [hps] at ih
            rcases List.mem_cons.mp h with rfl | h
            · intro hq
              rcases List.mem_cons.mp hq with rfl | hq
              · exact hc rfl
              · exact ih List.mem_cons_self hq
            · exact ih (List.mem_cons_of_mem _ h)

/-- The pieces with apostrophes between them are the text again. -/
theorem join_intersperse_pieces (cs : List Char) :
    String.join (((pieces cs).map String.ofList).intersperse "'") = .ofList cs := by
  induction cs with
  | nil => rfl
  | cons c cs ih =>
      cases hps : pieces cs with
      | nil => exact absurd hps (pieces_ne_nil cs)
      | cons p ps =>
          rw [hps] at ih
          rw [pieces, hps]
          split
          · rename_i hc
            rw [hc, List.map_cons, List.map_cons, List.intersperse_cons_cons, ← List.map_cons,
              String.join_cons, String.join_cons, ih, String.ofList_cons]
            rfl
          · rw [List.modifyHead_cons, String.ofList_cons, ← ih]
            -- An apostrophe follows the first piece unless it is also the last.
            cases ps <;> simp [String.append_assoc]

/-- The values of the arguments, joined, are the text. -/
theorem join_concatValues (text : String) : String.join (concatValues text) = text := by
  rw [concatValues, join_intersperse_pieces, String.ofList_toList]

/-- A function goes over separators as it goes over the others. -/
theorem map_intersperse {α β : Type} (f : α → β) (a : α) (l : List α) :
    (l.intersperse a).map f = (l.map f).intersperse (f a) := by
  induction l with
  | nil => rfl
  | cons x l ih =>
      cases l with
      | nil => rfl
      | cons y l =>
          rw [List.intersperse_cons_cons, List.map_cons, List.map_cons, ih]
          rfl

/-- What stands in a list with separators is one of them or stood there before. -/
theorem eq_or_mem_of_mem_intersperse {α : Type} {a x : α} {l : List α}
    (h : x ∈ l.intersperse a) : x = a ∨ x ∈ l := by
  induction l with
  | nil => cases h
  | cons y l ih =>
      cases l with
      | nil => exact .inr h
      | cons z l =>
          rw [List.intersperse_cons_cons] at h
          rcases List.mem_cons.mp h with rfl | h
          · exact .inr List.mem_cons_self
          · rcases List.mem_cons.mp h with rfl | h
            · exact .inl rfl
            · exact (ih h).imp id (List.mem_cons_of_mem _)

/-- No argument needs a `concat` of its own. -/
theorem needsConcat_of_mem_concatValues {text v : String} (h : v ∈ concatValues text) :
    needsConcat v = false := by
  rcases eq_or_mem_of_mem_intersperse h with rfl | h
  · decide
  · obtain ⟨p, hp, rfl⟩ := List.mem_map.mp h
    simp [needsConcat, not_mem_of_mem_pieces hp]

/-- A text without apostrophes stands between two of them. -/
theorem ofText_of_not_mem {s : String} (h : '\'' ∉ s.toList) : ofText s = "'" ++ s ++ "'" := by
  have hc : s.toList.contains '\'' = false := by simpa using h
  rw [ofText, needsConcat, hc]
  rfl

/-- Each argument is the literal of its own text. -/
theorem concatArguments_eq (text : String) :
    concatArguments text = (concatValues text).map ofText := by
  rw [concatArguments, concatValues, map_intersperse, List.map_map]
  congr 1
  refine List.map_congr_left fun p hp => ?_
  exact (ofText_of_not_mem (by simpa using not_mem_of_mem_pieces hp)).symm

/-- There is one more piece than there are apostrophes. Induction on the text. -/
theorem length_pieces (cs : List Char) : (pieces cs).length = cs.count '\'' + 1 := by
  induction cs with
  | nil => rfl
  | cons c cs ih =>
      rw [pieces]
      split
      · rename_i hc
        rw [hc, List.length_cons, ih, List.count_cons_self]
      · rename_i hc
        rw [List.length_modifyHead, ih, List.count_cons_of_ne hc]

/-- The `concat` form has at least two arguments, as `concat` demands. -/
theorem exists_concatValues_eq {text : String} (h : needsConcat text) :
    ∃ v w vs, concatValues text = v :: w :: vs := by
  have hmem : '\'' ∈ text.toList := by
    simp only [needsConcat, Bool.and_eq_true] at h
    simpa using h.1
  have hlen : 2 ≤ (pieces text.toList).length := by
    rw [length_pieces]
    exact Nat.succ_le_succ (List.count_pos_iff.mpr hmem)
  match hp : pieces text.toList with
  | [] | [_] => rw [hp] at hlen; simp at hlen
  | p :: q :: ps => exact ⟨_, _, _, by rw [concatValues, hp]; rfl⟩

/-- The parse tree of a written text. -/
def tree (text : String) : Tree :=
  if needsConcat text then .call (.ofName "concat") ((concatValues text).map .literal)
  else .literal text

/-! ### The round trip -/

/-- A text that holds at most one kind of quote is a single literal. -/
theorem next?_ofText {v : String} (h : needsConcat v = false) (b : Bool) (rest : List Char) :
    next? b ((ofText v).toList ++ rest) = some (.literal v, rest) := by
  rw [ofText, h, if_neg (by decide)]
  split
  · rename_i hq
    have hv : '"' ∉ v.toList := by
      rw [needsConcat, hq, Bool.true_and] at h
      simpa using h
    have := next?_literal (b := b) (.inl rfl) hv rest
    simpa using this
  · rename_i hq
    have hv : '\'' ∉ v.toList := by simpa using hq
    have := next?_literal (b := b) (.inr rfl) hv rest
    simpa using this

/-- The last argument stands in front of the closing bracket. -/
theorem arguments?_last {s r rest : List Char} {v : String}
    (hv : next? false s = some (.literal v, r))
    (hr : next? true r = some (.closeParen, rest)) : arguments? s = some ([v], rest) := by
  rw [arguments?]
  split
  · split <;> simp_all
  · simp_all

/-- An argument in front of a comma is followed by the others. -/
theorem arguments?_comma {s r t : List Char} {v : String}
    (hv : next? false s = some (.literal v, r)) (hr : next? true r = some (.comma, t)) :
    arguments? s = (arguments? t).map fun (vs, rest) => (v :: vs, rest) := by
  rw [arguments?]
  split
  · split <;> simp_all
  · simp_all

/-- A blank in front of the arguments makes no difference. -/
theorem arguments?_space (s : List Char) : arguments? (' ' :: s) = arguments? s := by
  rw [arguments?, arguments?]
  rw [next?_space (by decide)]

/-- Written literals with commas between them are read one by one. -/
theorem arguments?_ofText (v : String) (vs : List String)
    (h : ∀ w ∈ v :: vs, needsConcat w = false) (rest : List Char) :
    arguments? ((", ".intercalate ((v :: vs).map ofText)).toList ++ ')' :: rest)
      = some (v :: vs, rest) := by
  have hv : needsConcat v = false := h v List.mem_cons_self
  induction vs generalizing v with
  | nil =>
      rw [List.map_cons, List.map_nil, String.intercalate_singleton]
      exact arguments?_last (next?_ofText hv _ _) (next?_closeParen _ _)
  | cons w vs ih =>
      have htail : ∀ x ∈ w :: vs, needsConcat x = false :=
        fun x hx => h x (List.mem_cons_of_mem _ hx)
      rw [List.map_cons, List.map_cons, String.intercalate_cons_cons, ← List.map_cons,
        String.toList_append, String.toList_append, List.append_assoc, List.append_assoc]
      rw [show ", ".toList = [',', ' '] from rfl, List.cons_append, List.cons_append,
        List.nil_append, arguments?_comma (next?_ofText hv _ _) (next?_comma _ _),
        arguments?_space, ih w htail (htail w List.mem_cons_self)]
      rfl

/-- **A written text is read back**: whatever the text and whatever follows, a
reader takes exactly what was written and has the text as its value. So no quote,
comma or bracket in the text ends it early or takes in what follows. -/
theorem read?_ofText (raw rest : String) :
    read? ((ofText raw ++ rest).toList) = some (raw, rest.toList) := by
  rw [String.toList_append]
  cases h : needsConcat raw with
  | false => rw [read?, next?_ofText h]
  | true =>
      obtain ⟨v, w, vs, hvs⟩ := exists_concatValues_eq h
      have hargs := arguments?_ofText v (w :: vs)
        (fun x hx => needsConcat_of_mem_concatValues (hvs ▸ hx)) rest.toList
      have htext : (ofText raw).toList ++ rest.toList
          = "concat".toList ++ '(' ::
            ((", ".intercalate ((v :: w :: vs).map ofText)).toList ++ ')' :: rest.toList) := by
        rw [ofText, h, if_pos rfl, concatArguments_eq, hvs]
        simp
      rw [htext, read?, next?_function (by decide) (by decide)]
      simp only [next?_openParen, hargs]
      rw [if_pos (by decide), ← hvs, join_concatValues]

end XPathLocator.XPath.Literal
