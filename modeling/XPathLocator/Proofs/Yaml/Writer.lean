import XPathLocator.Proofs.Text.Digits
import XPathLocator.Proofs.Yaml.Ending

/-!
# `XPathLocator.Proofs.Yaml.Writer`: the writer writes YAML

`Yaml.write` is a lawful writer (`lawfulWriter_write`), with `Style.of` for the styles.

Two things have to be seen. In no style does a line behind the first start at the margin: where a
text holds a line break, the writer indents what follows or escapes the break. And the lines of a
mapping stand one below the other, so the document of a mapping with one more entry is the
document without it and the line of that entry (`joinLines_concat`).
-/

set_option autoImplicit false

namespace XPathLocator.Yaml

/-! ### Hanging lines -/

/-- Whether a text ends at the start of a line. -/
def endsLine (atStart : Bool) (s : List Char) : Bool :=
  (s.getLast?.map isBreak).getD atStart

/-- Behind its first character a text ends where the rest of it does. -/
theorem endsLine_cons (atStart : Bool) (c : Char) (s : List Char) :
    endsLine atStart (c :: s) = endsLine (isBreak c) s := by
  cases s with
  | nil => rfl
  | cons d s => simp [endsLine, List.getLast?_cons]

/-- A text hangs if its parts do, the second one from where the first one ends. -/
theorem hangs_append (atStart : Bool) (s t : List Char) :
    hangs atStart (s ++ t) = (hangs atStart s && hangs (endsLine atStart s) t) := by
  induction s generalizing atStart with
  | nil => rfl
  | cons c s ih => rw [List.cons_append, hangs, hangs, ih, endsLine_cons, Bool.and_assoc]

/-- A text without a line break has no further lines. -/
theorem hangs_of_line {s : List Char} (h : s.any isBreak = false) : hangs false s := by
  induction s with
  | nil => rfl
  | cons c s ih =>
      simp only [List.any_cons, Bool.or_eq_false_iff] at h
      rw [hangs, h.1, ih h.2]
      rfl

/-- Two blanks of padding. -/
theorem toList_pad_two : (pad 2).toList = [' ', ' '] := by
  decide

/-- The lines of an indented text hang. -/
theorem hangs_indentLines (atStart : Bool) (s : List Char) :
    hangs atStart (indentLines 2 atStart s).toList := by
  induction s generalizing atStart with
  | nil => rfl
  | cons c s ih =>
      rw [indentLines]
      split
      · next hbreak =>
        rw [String.toList_append, String.toList_singleton, List.singleton_append, hangs, hbreak,
          ih true]
        simp
      · next hbreak =>
        rw [Bool.not_eq_true] at hbreak
        have hrest : hangs false (c :: (indentLines 2 false s).toList) := by
          rw [hangs, hbreak, ih false]
          rfl
        cases atStart with
        | false => simpa using hrest
        | true =>
            have hspace : isBreak ' ' = false := by decide
            rw [if_pos rfl, String.toList_append, String.toList_append, toList_pad_two,
              String.toList_singleton, List.append_assoc, List.singleton_append, List.cons_append,
              List.cons_append, List.nil_append, hangs, hangs, hspace, hrest]
            rfl

/-- No line is indented behind its last character. -/
theorem getLast?_indentLines (indent : Nat) {s : List Char} (h : s ≠ []) (atStart : Bool) :
    (indentLines indent atStart s).toList.getLast? = s.getLast? := by
  induction s generalizing atStart with
  | nil => exact absurd rfl h
  | cons c s ih =>
      have hmore (b : Bool) : (String.singleton c ++ indentLines indent b s).toList.getLast? =
          some ((c :: s).getLast h) := by
        cases s with
        | nil => simp [indentLines]
        | cons d s =>
            rw [String.toList_append, List.getLast?_append, ih (by simp) b,
              List.getLast?_eq_some_getLast (by simp), Option.some_or, List.getLast_cons_cons]
      rw [List.getLast?_eq_some_getLast h, indentLines]
      split
      · exact hmore true
      · rw [String.append_assoc, String.toList_append, List.getLast?_append, hmore false,
          Option.some_or]

/-! ### Escapes -/

/-- No digit of a code point breaks a line. -/
theorem any_isBreak_hex (width code : Nat) : (hex width code).toList.any isBreak = false := by
  have hzero : isBreak '0' = false := by decide
  have hdigit : ∀ k < 16, isBreak k.digitChar.toUpper = false := by decide
  rw [List.any_eq_false, hex, String.toList_ofList]
  intro c hc
  rcases List.mem_append.mp hc with hc | hc
  · rw [List.eq_of_mem_replicate hc, hzero]
    decide
  · obtain ⟨d, hd, rfl⟩ := List.mem_map.mp hc
    obtain ⟨k, hk, rfl⟩ := Text.exists_of_mem_toDigits hd
    rw [hdigit k hk]
    decide

/-- Every line break is escaped in double quotes. -/
theorem any_isBreak_escapeChar (c : Char) : (escapeChar c).toList.any isBreak = false := by
  have hmark (mark : String) (hline : mark.toList.any isBreak = false) (width : Nat) :
      (mark ++ hex width c.toNat).toList.any isBreak = false := by
    rw [String.toList_append, List.any_append, hline, any_isBreak_hex]
    rfl
  rw [escapeChar.eq_def]
  split <;> try decide
  -- All line breaks are gone, and what is left stands for itself or is a code point.
  split
  · simp_all [isBreak]
  split
  · exact hmark _ (by decide) 2
  split
  · exact hmark _ (by decide) 4
  · exact hmark _ (by decide) 8

/-- In double quotes there is no line break, since every one is escaped. -/
theorem any_isBreak_join_escapeChar (s : List Char) :
    (String.join (s.map escapeChar)).toList.any isBreak = false := by
  induction s with
  | nil => rfl
  | cons c s ih =>
      rw [List.map_cons, String.join_cons, String.toList_append, List.any_append,
        any_isBreak_escapeChar, ih]
      rfl

/-! ### Scalars -/

/-- A text that can be plain has one line. -/
theorem canBePlain_line {text : String} (h : Style.of text = .plain) :
    text.toList.any isBreak = false := by
  rw [Style.of] at h
  split at h
  · split at h <;> cases h
  split at h
  · next hplain =>
    simp only [canBePlain, Bool.and_eq_true, Bool.not_eq_true'] at hplain
    exact hplain.1.1.1.1.1.2
  · split at h <;> cases h

/-- A literal block says with a hyphen that its text does not end in a line break. -/
theorem chomping_of_getLast? {s : List Char} (h : s.getLast?.any isBreak = false) :
    chomping s = "-" := by
  rw [← List.head?_reverse] at h
  rw [chomping]
  split
  · rfl
  · next c hs =>
    rw [hs] at h
    rw [if_neg (by simpa using h)]
  · next c d rest hs =>
    rw [hs] at h
    rw [if_pos (by simpa using h)]

/-- Chomping is one of three. -/
theorem chomping_mem (s : List Char) : chomping s ∈ ["-", "", "+"] := by
  rw [chomping]
  split
  · decide
  · split <;> decide
  · split
    · decide
    · split <;> decide

/-- The header of a literal block. -/
def header (s : List Char) : String :=
  (if s.head?.any isSpaceOrBreak then "2" else "") ++ chomping s

/-- A header is one of six. -/
theorem header_mem (s : List Char) : header s ∈ ["-", "", "+", "2-", "2", "2+"] := by
  have hchomping := chomping_mem s
  simp only [List.mem_cons, List.not_mem_nil, or_false] at hchomping
  rw [header]
  split <;> rcases hchomping with h | h | h <;> rw [h] <;> decide

/-- The header of a text that does not end in a line break has a hyphen. -/
theorem header_of_getLast? {s : List Char} (h : s.getLast?.any isBreak = false) :
    header s ∈ ["-", "2-"] := by
  rw [header, chomping_of_getLast? h]
  split <;> decide

/-- Nothing in a header starts a line. -/
theorem hangs_header (s : List Char) (block : String) :
    hangs false ("|" ++ header s ++ "\n" ++ block).toList = hangs true block.toList := by
  have hfront : ∀ h : String, h ∈ ["-", "", "+", "2-", "2", "2+"] →
      hangs false ("|" ++ h ++ "\n").toList ∧ endsLine false ("|" ++ h ++ "\n").toList := by
    decide
  obtain ⟨hhangs, hends⟩ := hfront _ (header_mem s)
  rw [String.toList_append, hangs_append, hhangs, hends, Bool.true_and]

/-- Doubling the quotes leaves the last character as it is. -/
theorem getLast?_doubled (s : List Char) :
    (s.flatMap fun c => if c = '\'' then ['\'', '\''] else [c]).getLast? = s.getLast? := by
  rcases List.eq_nil_or_concat s with rfl | ⟨front, c, rfl⟩
  · rfl
  · rw [List.concat_eq_append, List.flatMap_append, List.getLast?_append, List.getLast?_concat]
    by_cases h : c = '\'' <;> simp [h]

/-- The inside of single quotes hangs, and the closing quote does behind it. -/
theorem hangs_singleBody (s : List Char) : hangs false (singleBody 2 s ++ "'").toList := by
  have hends (d : List Char) : endsLine false (indentLines 2 false d).toList =
      d.getLast?.any isBreak := by
    cases d with
    | nil => rfl
    | cons c d =>
        rw [endsLine, getLast?_indentLines 2 (List.cons_ne_nil c d),
          List.getLast?_eq_some_getLast (List.cons_ne_nil c d)]
        rfl
  rw [singleBody, String.append_assoc, String.toList_append, hangs_append, hangs_indentLines, hends,
    getLast?_doubled]
  cases s.getLast?.any isBreak <;> decide

/-- A text is written in its style. -/
theorem writes_scalar (text : String) : (Style.of text).Writes text (scalar 2 text) := by
  rw [scalar]
  cases hstyle : Style.of text with
  | plain =>
      have hline := canBePlain_line hstyle
      refine ⟨.plain ?_ hline, hangs_of_line hline⟩
      rintro rfl
      exact absurd hstyle (by decide)
  | single =>
      have hquote : hangs false "'".toList ∧ endsLine false "'".toList = false := by decide
      refine ⟨.single _, ?_⟩
      rw [String.append_assoc, String.toList_append, hangs_append, hquote.1, hquote.2,
        hangs_singleBody]
      rfl
  | double =>
      have hquote : ("\"".toList).any isBreak = false := by decide
      refine ⟨.double _, hangs_of_line ?_⟩
      rw [String.toList_append, String.toList_append, List.any_append, List.any_append, hquote,
        any_isBreak_join_escapeChar]
      rfl
  | literal =>
      have hne : text ≠ "" := by
        rintro rfl
        exact absurd hstyle (by decide)
      have hlast := getLast?_indentLines 2 (fun h => hne (String.toList_eq_nil_iff.mp h)) true
      have hform : literal 2 text.toList =
          "|" ++ header text.toList ++ "\n" ++ indentLines 2 true text.toList := by
        simp only [literal, header, String.append_assoc]
      simp only [hform]
      refine ⟨.literal _ _ (header_mem _) header_of_getLast? hne hlast, ?_⟩
      rw [hangs_header, hangs_indentLines]

/-! ### Mappings -/

/-- A line is closed at its end, whatever stands in front. -/
theorem closeLine_append (s : String) {t : String} (h : t ≠ "") :
    closeLine (s ++ t) = s ++ closeLine t := by
  have hne : t.toList ≠ [] := fun hnil => h (String.toList_eq_nil_iff.mp hnil)
  have hlast : (s ++ t).toList.getLast? = t.toList.getLast? := by
    rw [String.toList_append, List.getLast?_append, List.getLast?_eq_some_getLast hne,
      Option.some_or]
  rw [closeLine, closeLine, hlast]
  split
  · rfl
  · exact String.append_assoc ..

/-- A closed line has a character. -/
theorem closeLine_ne_empty (s : String) : closeLine s ≠ "" := by
  rw [closeLine]
  split
  · next h =>
    rintro rfl
    cases h
  · simp

/-- A joined text has its first line in it. -/
theorem joinLines_ne_empty {lines : List String} (hne : lines ≠ [])
    (h : ∀ line ∈ lines, line ≠ "") : joinLines 0 lines ≠ "" := by
  match lines with
  | [] => exact absurd rfl hne
  | [line] => exact h line List.mem_cons_self
  | line :: next :: rest =>
      rw [joinLines, String.append_assoc]
      simp [closeLine_ne_empty]

/-- **One more line** stands below the others. -/
theorem joinLines_concat {lines : List String} (hne : lines ≠ []) (h : ∀ line ∈ lines, line ≠ "")
    (last : String) : joinLines 0 (lines ++ [last]) = closeLine (joinLines 0 lines) ++ last := by
  have hpad : pad 0 = "" := rfl
  induction lines with
  | nil => exact absurd rfl hne
  | cons line rest ih =>
      cases rest with
      | nil =>
          rw [List.singleton_append, joinLines, joinLines, joinLines, hpad, String.append_empty]
      | cons next rest =>
          have hrest := fun line hline => h line (List.mem_cons_of_mem _ hline)
          have hmore := joinLines_ne_empty (List.cons_ne_nil next rest) hrest
          rw [List.cons_append, List.cons_append, joinLines, ← List.cons_append,
            ih (List.cons_ne_nil next rest) hrest, joinLines, closeLine_append _ hmore,
            String.append_assoc, String.append_assoc, String.append_assoc]

/-- An entry makes its own line, whatever entries come next. -/
theorem exists_entries_cons (indent : Nat) (entry : String × Json) :
    ∃ line ≠ "", ∀ rest, entries indent (entry :: rest) = line :: entries indent rest := by
  obtain ⟨key, value⟩ := entry
  match value with
  | .array (_ :: _) | .object (_ :: _) | .array [] | .object [] | .null | .bool _ | .number _
  | .string _ =>
      refine ⟨_, ?_, fun rest => by rw [entries] <;> nofun⟩
      split
      · simp
      · simp [joinLines, closeLine_ne_empty]

/-- The lines of more entries stand below those of the ones before. -/
theorem entries_append (indent : Nat) (before behind : List (String × Json)) :
    entries indent (before ++ behind) = entries indent before ++ entries indent behind := by
  induction before with
  | nil => rfl
  | cons entry before ih =>
      obtain ⟨line, -, hline⟩ := exists_entries_cons indent entry
      rw [List.cons_append, hline, hline, ih, List.cons_append]

/-- No entry makes an empty line. -/
theorem entries_ne_empty (indent : Nat) (fields : List (String × Json)) :
    ∀ line ∈ entries indent fields, line ≠ "" := by
  induction fields with
  | nil => simp [entries]
  | cons entry fields ih =>
      obtain ⟨line, hne, hline⟩ := exists_entries_cons indent entry
      rw [hline]
      exact List.forall_mem_cons.mpr ⟨hne, ih⟩

/-- A mapping that is not empty is written line by line. -/
theorem write_object {fields : List (String × Json)} (hne : fields ≠ []) :
    write (.object fields) = closeLine (joinLines 0 (entries 0 fields)) := by
  cases fields with
  | nil => exact absurd rfl hne
  | cons => rw [write, print, block]

/-- The line of an entry that can be the last one of a record. -/
theorem entries_last {key : String} (hkey : key ∈ lastKeys) (text : String) :
    entries 0 [(key, .string text)] = [key ++ ": " ++ scalar 2 text] := by
  have hplain : ∀ key ∈ lastKeys, isSimpleKey key ∧ scalar 2 key = key := by decide
  have hcolon : key ++ ":" ++ " " = key ++ ": " := String.append_assoc
  obtain ⟨hsimple, hscalar⟩ := hplain key hkey
  rw [entries, if_pos hsimple, hscalar, block, entries, ← String.append_assoc, hcolon]
  · nofun
  · nofun

/-- **The writer is lawful.** -/
theorem lawfulWriter_write : LawfulWriter write Style.of where
  text t := ⟨scalar 2 t, writes_scalar t, by rw [write, print, block]; all_goals nofun⟩
  entry {before key} hne hkey t := by
    refine ⟨scalar 2 t, writes_scalar t, ?_⟩
    have hlines : entries 0 before ≠ [] := by
      obtain ⟨entry, rest, rfl⟩ := List.exists_cons_of_ne_nil hne
      obtain ⟨line, -, hline⟩ := exists_entries_cons 0 entry
      rw [hline]
      exact List.cons_ne_nil _ _
    have hscalar := (writes_scalar t).endsBlank_iff.1
    rw [write_object (by simp), write_object hne, entries_append, entries_last hkey,
      joinLines_concat hlines (entries_ne_empty 0 before), ← String.append_assoc,
      ← String.append_assoc, closeLine_append _ hscalar]

end XPathLocator.Yaml
