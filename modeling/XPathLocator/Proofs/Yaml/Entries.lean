import XPathLocator.Proofs.Yaml.Ending

/-!
# `XPathLocator.Proofs.Yaml.Entries`: a reader of plain records

`entries?` reads a mapping of texts from its lines, for documents with nothing but plain scalars,
single quotes and literal blocks. It is a YAML reader in small, with which what is said of readers
in general can be put to the test. It goes through the lines from the last one, and collects the
lines that are empty or indented until it comes to the line that they belong to.

Whether the last line ends in a line break is the concern of a literal block without a hyphen and
of nothing else (`scalar?_closed`). So the reader can do without it behind any other scalar
(`optionalBreak_entries`).
-/

set_option autoImplicit false

namespace XPathLocator.Yaml

/-! ### Lines -/

/-- The lines of a text. A line break at its end starts no further line. -/
def lines : List Char → List (List Char)
  | [] => []
  | c :: s =>
    if isBreak c then [] :: lines s
    else match lines s with
      | [] => [[c]]
      | line :: more => (c :: line) :: more

/-- A line break in front is an empty line. -/
theorem lines_break {c : Char} (h : isBreak c) (s : List Char) :
    lines (c :: s) = [] :: lines s := by
  rw [lines, if_pos h]

/-- Another character in front belongs to the first line. -/
theorem lines_more {c : Char} (h : isBreak c = false) {s line : List Char}
    {more : List (List Char)} (hs : lines s = line :: more) :
    lines (c :: s) = (c :: line) :: more := by
  rw [lines, if_neg (by simp [h]), hs]

/-- A text has a line. -/
theorem exists_lines {s : List Char} (h : s ≠ []) : ∃ line more, lines s = line :: more := by
  cases s with
  | nil => exact absurd rfl h
  | cons c s =>
      rw [lines]
      split
      · exact ⟨_, _, rfl⟩
      · split <;> exact ⟨_, _, rfl⟩

/-- A text behind a line break has its own lines. Induction on the text in front. -/
theorem lines_append {s : List Char} (h : s.getLast?.all isBreak) (t : List Char) :
    lines (s ++ t) = lines s ++ lines t := by
  induction s with
  | nil => rfl
  | cons c s ih =>
      cases s with
      | nil =>
          have hbreak : isBreak c := by simpa using h
          rw [List.singleton_append, lines_break hbreak, lines_break hbreak]
          rfl
      | cons d s =>
          have hs := ih (by simpa [List.getLast?_cons] using h)
          cases hbreak : isBreak c with
          | true => rw [List.cons_append, lines_break hbreak, hs, lines_break hbreak]; rfl
          | false =>
              obtain ⟨line, more, hline⟩ := exists_lines (List.cons_ne_nil d s)
              rw [hline] at hs
              rw [List.cons_append, lines_more hbreak hs, lines_more hbreak hline]
              rfl

/-- A line break behind the last line starts no further one. Induction on the text. -/
theorem lines_concat {s : List Char} (hne : s ≠ []) (h : s.getLast?.any isBreak = false) :
    lines (s ++ ['\n']) = lines s := by
  have hfeed : lines ['\n'] = [[]] := by decide
  induction s with
  | nil => exact absurd rfl hne
  | cons c s ih =>
      cases s with
      | nil =>
          have hbreak : isBreak c = false := by simpa using h
          rw [List.singleton_append, lines_more hbreak hfeed, lines, if_neg (by simp [hbreak])]
          rfl
      | cons d s =>
          have hs := ih (List.cons_ne_nil d s) (by simpa [List.getLast?_cons] using h)
          obtain ⟨line, more, hline⟩ := exists_lines (List.cons_ne_nil d s)
          cases hbreak : isBreak c with
          | true => rw [List.cons_append, lines_break hbreak, hs, lines_break hbreak]
          | false =>
              rw [hline] at hs
              rw [List.cons_append, lines_more hbreak hs, lines_more hbreak hline]

/-- What has no line break stands in the first line of the text behind it. -/
theorem lines_prepend {u s line : List Char} {more : List (List Char)} (hu : u.any isBreak = false)
    (hs : lines s = line :: more) : lines (u ++ s) = (u ++ line) :: more := by
  induction u with
  | nil => exact hs
  | cons c u ih =>
      simp only [List.any_cons, Bool.or_eq_false_iff] at hu
      exact lines_more hu.1 (ih hu.2)

/-- A text without a line break is one line. -/
theorem lines_of_line {s : List Char} (hne : s ≠ []) (h : s.any isBreak = false) :
    lines s = [s] := by
  obtain ⟨c, s, rfl⟩ := List.exists_cons_of_ne_nil hne
  induction s generalizing c with
  | nil =>
      rw [lines, if_neg (by simpa using h)]
      rfl
  | cons d s ih =>
      simp only [List.any_cons, Bool.or_eq_false_iff] at h
      exact lines_more h.1 (ih d (List.cons_ne_nil d s) (by simpa using h.2))

/-! ### Reading -/

/-- A line that belongs to the one above. -/
def isHanging (line : List Char) : Bool :=
  line.head?.all (· = ' ')

/-- A text that hangs has hanging lines, from the second one on or from the first. -/
theorem all_isHanging_lines (s : List Char) :
    (hangs true s → (lines s).all isHanging) ∧ (hangs false s → (lines s).tail.all isHanging) := by
  induction s with
  | nil => exact ⟨fun _ => rfl, fun _ => rfl⟩
  | cons c s ih =>
      obtain ⟨htrue, hfalse⟩ := ih
      cases hbreak : isBreak c with
      | true =>
          rw [lines_break hbreak, hangs, hangs, hbreak]
          simp only [Bool.or_true, Bool.true_and, List.all_cons, List.tail_cons]
          exact ⟨fun h => by rw [htrue h]; rfl, htrue⟩
      | false =>
          rw [hangs, hangs, hbreak]
          simp only [Bool.not_true, Bool.false_or, Bool.or_false, Bool.not_false, Bool.true_or,
            Bool.true_and, Bool.and_eq_true, decide_eq_true_eq]
          cases s with
          | nil =>
              rw [lines_of_line (List.cons_ne_nil c []) (by simpa using hbreak)]
              exact ⟨fun h => by simp [isHanging, h.1], fun _ => rfl⟩
          | cons d s =>
              obtain ⟨line, more, hline⟩ := exists_lines (List.cons_ne_nil d s)
              rw [hline, List.tail_cons] at hfalse
              rw [lines_more hbreak hline, List.tail_cons]
              refine ⟨fun h => ?_, hfalse⟩
              rw [List.all_cons, hfalse h.2, h.1]
              rfl

/-- A text without the doubled quotes in it. -/
def undouble : List Char → List Char
  | '\'' :: '\'' :: s => '\'' :: undouble s
  | c :: s => c :: undouble s
  | [] => []

/-- The text of a literal block under its header. Without a hyphen it keeps the line break behind
its last line. -/
def block? (closed : Bool) (header : List Char) (block : List (List Char)) : Option (List Char) :=
  let text := ['\n'].intercalate (block.map (·.drop 2))
  let body := (text.reverse.dropWhile (· = '\n')).reverse
  if header = ['-'] || block.isEmpty then some body
  else if header.isEmpty then some (body ++ if closed || text ≠ body then ['\n'] else [])
  else if header = ['+'] then some (text ++ if closed then ['\n'] else [])
  else none

/-- The text of a scalar that starts in a line and goes on in the lines below. -/
def scalar? (closed : Bool) (first : List Char) (block : List (List Char)) : Option (List Char) :=
  match first, block with
  | '|' :: header, block => block? closed header block
  | '\'' :: inner, [] => if inner.getLast? = some '\'' then some (undouble inner.dropLast) else none
  | '"' :: _, _ => none
  | text, [] => some text
  | _, _ => none

/-- The key and the text of an entry. -/
def keyedText? (closed : Bool) (first : List Char) (block : List (List Char)) :
    Option (String × String) :=
  match first.takeWhile Char.isAlpha, first.dropWhile Char.isAlpha with
  | c :: key, ':' :: ' ' :: value =>
    (scalar? closed value block).map fun text => (.ofList (c :: key), .ofList text)
  | _, _ => none

/-- Goes on to the line above. It is one more line of the entry that it belongs to, or the first
line of an entry. -/
def readLine (closed : Bool) (line : List Char) :
    List (List Char) × Option (List (String × String)) →
      List (List Char) × Option (List (String × String))
  | (block, found) =>
    if isHanging line then (line :: block, found)
    else ([], found.bind fun entries =>
      -- Only the last entry can lack the line break at its end.
      (keyedText? (closed || !entries.isEmpty) line block).map (· :: entries))

/-- The entries of a mapping of texts. -/
def entries? (text : String) : Option (List (String × String)) :=
  let closed := text.toList.getLast?.any isBreak
  match (lines text.toList).foldr (readLine closed) ([], some []) with
  | ([], entries) => entries
  | _ => none

/-! ### The last line break -/

/-- Where a scalar ends is told without its line break, if it is no literal block or one with a
hyphen. -/
theorem scalar?_closed {first : List Char} {block : List (List Char)}
    (h : block = [] ∨ first.head? ≠ some '|' ∨ '-' ∈ first) (closed closed' : Bool) :
    scalar? closed first block = scalar? closed' first block := by
  rw [scalar?.eq_def, scalar?.eq_def]
  split
  · next header =>
    rcases h with rfl | h | h
    · simp [block?]
    · exact absurd rfl h
    · have hhyphen : '-' ∈ header := by simpa using h
      have hclip : header ≠ [] := List.ne_nil_of_mem hhyphen
      have hkeep : header ≠ ['+'] := by
        rintro rfl
        cases List.mem_singleton.mp hhyphen
      simp [block?, hclip, hkeep]
  all_goals rfl

/-- An entry has its key in front of its scalar. -/
theorem keyedText?_key {key : List Char} (hne : key ≠ []) (hkey : ∀ c ∈ key, c.isAlpha)
    (closed : Bool) (first : List Char) (block : List (List Char)) :
    keyedText? closed (key ++ ':' :: ' ' :: first) block =
      (scalar? closed first block).map fun text => (.ofList key, .ofList text) := by
  have hcolon : (':' :: ' ' :: first).head?.any Char.isAlpha = false := by
    rw [List.head?_cons]
    decide
  obtain ⟨htake, hdrop⟩ := Text.run_append hkey hcolon
  obtain ⟨c, key, rfl⟩ := List.exists_cons_of_ne_nil hne
  rw [keyedText?, htake, hdrop]
  rfl

/-- What starts with no letter is no entry. -/
theorem keyedText?_of_head {first : List Char} (h : first.head?.any Char.isAlpha = false)
    (closed : Bool) (block : List (List Char)) : keyedText? closed first block = none := by
  cases first with
  | nil => rfl
  | cons c first => rw [keyedText?, List.takeWhile_cons_of_neg (by simpa using h)]

/-- The lines below an entry belong to it. -/
theorem foldr_readLine_hanging (closed : Bool) {block : List (List Char)}
    (h : block.all isHanging) : block.foldr (readLine closed) ([], some []) = (block, some []) := by
  induction block with
  | nil => rfl
  | cons line block ih =>
      rw [List.all_cons, Bool.and_eq_true] at h
      rw [List.foldr_cons, ih h.2, readLine, if_pos h.1]

/-- Above an entry that was read, or could not be, every line is a whole one. Induction on the
lines, from the last one. -/
theorem foldr_readLine_closed {found : Option (List (String × String))} (h : found ≠ some [])
    (closed closed' : Bool) (front block : List (List Char)) :
    front.foldr (readLine closed) (block, found) = front.foldr (readLine closed') (block, found) ∧
      (front.foldr (readLine closed) (block, found)).2 ≠ some [] := by
  induction front with
  | nil => exact ⟨rfl, h⟩
  | cons line front ih =>
      obtain ⟨hsame, hfound⟩ := ih
      rw [List.foldr_cons, List.foldr_cons, ← hsame]
      generalize front.foldr (readLine closed) (block, found) = read at hfound ⊢
      obtain ⟨block, found⟩ := read
      rw [readLine, readLine]
      split
      · exact ⟨rfl, hfound⟩
      · cases found with
        | none => exact ⟨rfl, nofun⟩
        | some entries =>
            have hentries : entries ≠ [] := fun hnil => hfound (congrArg some hnil)
            obtain ⟨entry, more, rfl⟩ := List.exists_cons_of_ne_nil hentries
            exact ⟨by simp, by simp⟩

/-- The entries of a document are told without its last line break, if the last entry is. -/
theorem foldr_readLine_last {front block : List (List Char)} {first : List Char}
    (hblock : block.all isHanging) (hfirst : isHanging first = false)
    {closed closed' : Bool} (h : keyedText? closed first block = keyedText? closed' first block) :
    (front ++ first :: block).foldr (readLine closed) ([], some []) =
      (front ++ first :: block).foldr (readLine closed') ([], some []) := by
  have hread (closed : Bool) : readLine closed first (block, some []) =
      ([], (keyedText? closed first block).map ([·])) := by
    rw [readLine, if_neg (by simp [hfirst])]
    simp
  have hfound : (keyedText? closed' first block).map ([·]) ≠ some [] := by
    cases keyedText? closed' first block <;> simp
  rw [List.foldr_append, List.foldr_append, List.foldr_cons, List.foldr_cons,
    foldr_readLine_hanging closed hblock, foldr_readLine_hanging closed' hblock, hread, hread, h]
  exact (foldr_readLine_closed hfound closed closed' front []).1

/-- A line break behind a document changes the entries only by what it changes in the lines. -/
theorem entries?_append {text : String} (hne : text ≠ "")
    (hbreak : text.toList.getLast?.any isBreak = false)
    (h : (lines text.toList).foldr (readLine true) ([], some []) =
      (lines text.toList).foldr (readLine false) ([], some [])) :
    entries? (text ++ "\n") = entries? text := by
  have hne' : text.toList ≠ [] := fun hnil => hne (String.toList_eq_nil_iff.mp hnil)
  have htext : (text ++ "\n").toList = text.toList ++ ['\n'] := String.toList_append ..
  have hclosed : (text.toList ++ ['\n']).getLast?.any isBreak = true := by
    rw [List.getLast?_concat]
    decide
  rw [entries?, entries?, htext, lines_concat hne' hbreak, hclosed, hbreak, h]

/-! ### Scalars -/

/-- The lines of a scalar that is told without a line break behind it. Below the first one they
hang, and only a scalar of one line starts with a letter. -/
structure ScalarLines (s first : List Char) (block : List (List Char)) : Prop where
  lines_eq : lines s = first :: block
  hanging : block.all isHanging
  start : block = [] ∨ first.head?.any Char.isAlpha = false
  told (closed closed' : Bool) : scalar? closed first block = scalar? closed' first block

/-- What stands behind a quotation mark goes on in its line. -/
theorem exists_scalarLines_quoted {q : Char} (hbreak : isBreak q = false)
    (halpha : q.isAlpha = false) (hbar : q ≠ '|') {s : List Char} (hne : s ≠ [])
    (hhangs : hangs false (q :: s)) : ∃ first block, ScalarLines (q :: s) first block := by
  obtain ⟨line, block, hs⟩ := exists_lines hne
  have hlines := lines_more hbreak hs
  have hhanging := (all_isHanging_lines (q :: s)).2 hhangs
  rw [hlines] at hhanging
  exact ⟨q :: line, block, hlines, hhanging, .inr (by simpa using halpha),
    scalar?_closed (.inr (.inl (by simpa using hbar)))⟩

/-- A scalar that ends in no line break is told without one behind it. Only a plain scalar starts
with a letter, and it has one line. -/
theorem Style.Writes.exists_scalarLines {style : Style} {t scalar : String}
    (h : style.Writes t scalar) (hbreak : scalar.toList.getLast?.any isBreak = false) :
    ∃ first block, ScalarLines scalar.toList first block := by
  have hhangs := h.hangs
  cases h.form with
  | plain hne hline =>
      have hne' : t.toList ≠ [] := fun hnil => hne (String.toList_eq_nil_iff.mp hnil)
      exact ⟨t.toList, [], lines_of_line hne' hline, rfl, .inl rfl, scalar?_closed (.inl rfl)⟩
  | single inner =>
      have hchars : ("'" ++ inner ++ "'").toList = '\'' :: (inner.toList ++ ['\'']) := by simp
      rw [hchars] at hhangs ⊢
      exact exists_scalarLines_quoted (by decide) (by decide) (by decide) (by simp) hhangs
  | double inner =>
      have hchars : ("\"" ++ inner ++ "\"").toList = '"' :: (inner.toList ++ ['"']) := by simp
      rw [hchars] at hhangs ⊢
      exact exists_scalarLines_quoted (by decide) (by decide) (by decide) (by simp) hhangs
  | literal header block hheader hstrip hne hlast =>
      have hblock : block.toList ≠ [] := by
        intro hnil
        rw [hnil] at hlast
        exact hne (String.toList_eq_nil_iff.mp (List.getLast?_eq_none_iff.mp hlast.symm))
      have hchars : ("|" ++ header ++ "\n" ++ block).toList =
          ('|' :: header.toList) ++ ('\n' :: block.toList) := by simp
      have hheaderLine : ∀ header ∈ ["-", "", "+", "2-", "2", "2+"],
          ('|' :: header.toList).any isBreak = false := by decide
      have hlines : lines ("|" ++ header ++ "\n" ++ block).toList =
          ('|' :: header.toList) :: lines block.toList := by
        rw [hchars, lines_prepend (hheaderLine header hheader) (lines_break (by decide) _),
          List.append_nil]
      have hhyphen : '-' ∈ '|' :: header.toList := by
        have hstrips : ∀ header ∈ ["-", "2-"], '-' ∈ '|' :: header.toList := by decide
        refine hstrips header (hstrip ?_)
        rwa [String.toList_append, List.getLast?_append, hlast,
          Option.or_of_isSome (by rw [← hlast]; simpa using hblock)] at hbreak
      have hhanging := (all_isHanging_lines _).2 hhangs
      rw [hlines] at hhanging
      exact ⟨_, _, hlines, hhanging, .inr rfl, scalar?_closed (.inr (.inr hhyphen))⟩

/-- A document ends in a line break. -/
theorem getLast?_write (value : Json) : (write value).toList.getLast?.all isBreak := by
  rw [write, closeLine]
  split
  · next h =>
    cases hlast : (print value).toList.getLast? with
    | none => rfl
    | some c => rwa [hlast] at h
  · rw [String.toList_append]
    have hlast : ((print value).toList ++ "\n".toList).getLast? = some '\n' :=
      List.getLast?_concat ..
    rw [hlast]
    decide

/-- An entry of one line is told without a line break behind it. -/
theorem keyedText?_line (closed closed' : Bool) (line : List Char) :
    keyedText? closed line [] = keyedText? closed' line [] := by
  rw [keyedText?, keyedText?]
  split
  · rw [scalar?_closed (.inl rfl) closed closed']
  · rfl

/-- **The reader can do without the last line break** of a document that `write` writes, whatever is
made of the entries. -/
theorem optionalBreak_entries (f : List (String × String) → Json) :
    OptionalBreak write fun text => (entries? text).map f where
  text {style t scalar} h hbreak := by
    obtain ⟨first, block, hlines, hblock, hfirst, -⟩ := h.exists_scalarLines hbreak
    have hread : (lines scalar.toList).foldr (readLine true) ([], some []) =
        (lines scalar.toList).foldr (readLine false) ([], some []) := by
      rw [hlines]
      cases hhanging : isHanging first with
      | true =>
          have hall : (first :: block).all isHanging := by rw [List.all_cons, hhanging, hblock]; rfl
          rw [foldr_readLine_hanging true hall, foldr_readLine_hanging false hall]
      | false =>
          refine @foldr_readLine_last [] block first hblock hhanging true false ?_
          rcases hfirst with rfl | hfirst
          · exact keyedText?_line true false first
          · rw [keyedText?_of_head hfirst, keyedText?_of_head hfirst]
    exact congrArg (Option.map f) (entries?_append h.endsBlank_iff.1 hbreak hread)
  entry {before key} hne hkey {style t scalar} h hbreak := by
    obtain ⟨first, block, hlines, hblock, -, hclosed⟩ := h.exists_scalarLines hbreak
    have hkeys : ∀ key ∈ lastKeys, key.toList ≠ [] ∧ key.toList.all Char.isAlpha ∧
        (key.toList ++ [':', ' ']).any isBreak = false ∧ isHanging key.toList = false := by
      decide
    obtain ⟨hkeyNe, halphas, hkeyLine, hkeyHead⟩ := hkeys key hkey
    have halpha : ∀ c ∈ key.toList, c.isAlpha := List.all_eq_true.mp halphas
    have hscalar := h.endsBlank_iff.1
    have hchars : (write (.object before) ++ key ++ ": " ++ scalar).toList =
        (write (.object before)).toList ++ ((key.toList ++ [':', ' ']) ++ scalar.toList) := by
      simp
    have hall : lines (write (.object before) ++ key ++ ": " ++ scalar).toList =
        lines (write (.object before)).toList ++
          (key.toList ++ ':' :: ' ' :: first) :: block := by
      rw [hchars, lines_append (getLast?_write _), lines_prepend hkeyLine hlines,
        List.append_assoc]
      rfl
    have hhanging : isHanging (key.toList ++ ':' :: ' ' :: first) = false := by
      obtain ⟨c, rest, hcons⟩ := List.exists_cons_of_ne_nil hkeyNe
      rw [hcons] at hkeyHead ⊢
      exact hkeyHead
    have hentry : keyedText? true (key.toList ++ ':' :: ' ' :: first) block =
        keyedText? false (key.toList ++ ':' :: ' ' :: first) block := by
      rw [keyedText?_key hkeyNe halpha, keyedText?_key hkeyNe halpha, hclosed true false]
    have hlast : (write (.object before) ++ key ++ ": " ++ scalar).toList.getLast? =
        scalar.toList.getLast? := by
      rw [String.toList_append, List.getLast?_append, Option.or_of_isSome]
      simpa using hscalar
    refine congrArg (Option.map f) (entries?_append (by simp [hscalar]) (by rwa [hlast]) ?_)
    rw [hall]
    exact foldr_readLine_last hblock hhanging hentry

end XPathLocator.Yaml
