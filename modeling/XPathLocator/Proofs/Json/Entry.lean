import XPathLocator.Json.Reader

/-!
# `XPathLocator.Proofs.Json.Entry`: JSON objects of one entry

A locator is an object of one entry, a strategy and a value. `entryText` writes such an
object for a key and a string without special characters, and `read?_entryText` reads it
back. Each reader on the way gives its value and leaves the text behind it (`Reads`), and
there is one lemma for each of them, in the order in which they call one another: strings,
values, members, lists of members.
-/

set_option autoImplicit false

namespace XPathLocator.Json

/-- A reader gives this value and leaves this text. -/
def Reads {α : Type} {s : List Char} (x : Option (α × Tail s)) (a : α) (rest : List Char) : Prop :=
  ∃ h, x = some (a, ⟨rest, h⟩)

/-- Whether a character stands for itself in a string. -/
def isPlain (c : Char) : Bool :=
  c ≠ '"' && c ≠ '\\' && 0x20 ≤ c.toNat

/-- The object with one string under one key. -/
def entryText (key value : List Char) : List Char :=
  '\x7b' :: '"' :: (key ++ '"' :: ':' :: '"' :: (value ++ ['"', '\x7d']))

variable {key value : List Char}

/-- Plain characters are read up to the closing quote. Induction on the characters. -/
theorem stringBody?_reads (h : value.all isPlain) (rest : List Char) :
    Reads (stringBody? (value ++ '"' :: rest)) value rest := by
  induction value with
  | nil =>
      refine ⟨Nat.lt_succ_self _, ?_⟩
      show stringBody? ('"' :: rest) = _
      rw [stringBody?]
      rfl
  | cons c cs ih =>
      simp only [List.all_cons, isPlain, Bool.and_eq_true, decide_eq_true_eq] at h
      obtain ⟨⟨⟨hquote, hslash⟩, hspace⟩, hall⟩ := h
      obtain ⟨hlt, hread⟩ := ih hall
      refine ⟨Nat.lt_succ_of_lt hlt, ?_⟩
      show stringBody? (c :: (cs ++ '"' :: rest)) = _
      rw [stringBody?, if_neg (by omega), hread]
      · rfl
      · exact hquote
      · exact hslash

/-- A string of plain characters is read as a value. -/
theorem value?_reads (h : value.all isPlain) (depth : Nat) (rest : List Char) :
    Reads (value? depth ('"' :: (value ++ '"' :: rest))) (.string (.ofList value)) rest := by
  obtain ⟨hlt, hread⟩ := stringBody?_reads h rest
  refine ⟨Nat.lt_succ_of_lt hlt, ?_⟩
  -- The reader decides by the first character, and a quote starts a string.
  rw [value?]
  split
  · next heq => cases heq
  · next heq =>
    cases heq
    rw [hread]
    rfl

/-- A key and a string are read as a member. -/
theorem member?_reads (hkey : key.all isPlain) (hvalue : value.all isPlain) (depth : Nat)
    (rest : List Char) :
    Reads (member? (value? depth) ('"' :: (key ++ '"' :: ':' :: '"' :: (value ++ '"' :: rest))))
      (.ofList key, .string (.ofList value)) rest := by
  obtain ⟨hlt, hread⟩ := stringBody?_reads hkey (':' :: '"' :: (value ++ '"' :: rest))
  obtain ⟨hlt', hread'⟩ := value?_reads hvalue depth rest
  refine ⟨Nat.lt_succ_of_lt (Nat.lt_trans (Nat.lt_succ_of_lt hlt') hlt), ?_⟩
  rw [member?]
  split
  · next heq =>
    cases heq
    rw [hread]
    simp only [Option.bind_eq_bind, Option.bind_some]
    split
    · next heq =>
      cases heq
      rw [hread']
      rfl
    · next heq => exact absurd rfl (heq _)
  · next heq => exact absurd rfl (heq _)

/-- A list of one item, with its closing bracket. -/
theorem items?_reads {α : Type} {item : Reader α} {s rest : List Char} {x : α} {closing : Char}
    (h : Reads (item s) x (closing :: rest)) (hspace : isSpace closing = false)
    (hcomma : closing ≠ ',') : Reads (items? item closing s) [x] rest := by
  obtain ⟨hlt, hread⟩ := h
  refine ⟨Nat.lt_of_succ_lt hlt, ?_⟩
  -- Neither white space nor a comma follows, so the list is at its end.
  have hskip : (skipSpace (closing :: rest)).1 = closing :: rest :=
    List.dropWhile_cons_of_neg (by simp [hspace])
  rw [items?, hread]
  simp only [Option.bind_eq_bind, Option.bind_some]
  split
  · next heq =>
    rw [hskip] at heq
    cases heq
  · next heq =>
    rw [hskip] at heq
    cases heq
    rw [if_neg hcomma, if_pos rfl]

/-- Behind an opening bracket the first item starts, unless the closing one does. -/
theorem bracketed?_reads {α : Type} {item : Reader α} {s t rest : List Char} {xs : List α}
    {c closing : Char} (h : Reads (items? item closing s) xs rest) (hs : (skipSpace s).1 = c :: t)
    (hc : c ≠ closing) : Reads (bracketed? item closing s) xs rest := by
  obtain ⟨hlt, hread⟩ := h
  refine ⟨hlt, ?_⟩
  rw [bracketed?]
  split
  · next heq =>
    rw [hs] at heq
    cases heq
  · next heq =>
    rw [hs] at heq
    cases heq
    rw [if_neg hc, hread]

/-- An object of one member is read as a value. -/
theorem object_reads (hkey : key.all isPlain) (hvalue : value.all isPlain) (depth : Nat) :
    Reads (value? (depth + 1) (entryText key value))
      (.object [(.ofList key, .string (.ofList value))]) [] := by
  have hitems := items?_reads (member?_reads hkey hvalue depth ['\x7d']) (by decide) (by decide)
  obtain ⟨hlt, hread⟩ := bracketed?_reads hitems rfl (by decide)
  refine ⟨Nat.succ_pos _, ?_⟩
  rw [value?]
  split
  · next heq => cases heq
  · next heq =>
    cases heq
    simp only [reduceIte, Char.reduceEq]
    rw [hread]
    rfl

/-- **An object of one entry is read back.** -/
theorem read?_entryText (hkey : key.all isPlain) (hvalue : value.all isPlain) :
    read? (.ofList (entryText key value)) =
      some (.object [(.ofList key, .string (.ofList value))]) := by
  -- The object takes one of the levels of nesting that are allowed.
  have hobject := object_reads hkey hvalue 126
  rw [← String.toList_ofList (l := entryText key value)] at hobject
  obtain ⟨_, hread⟩ := hobject
  rw [read?, readNested?, maxDepth, hread]
  rfl

end XPathLocator.Json
