import XPathLocator.Proofs.Css.Boundary
import XPathLocator.Proofs.Css.Complete
import XPathLocator.Proofs.Css.Sound

/-!
# `XPathLocator.Proofs.Css.Margin`: white space at the ends of a selector

The grammar of groups takes white space at both ends (`groupKinds_append_left`,
`groupKinds_append_right`). So a selector is read the same with and without it, if it is
no part of another token. In front it never is (`kinds?_append_left`). Behind, it may be
part of the last name, and then the last token is another one without it
(`tokens_append_blank`). `parse_trim` is what follows for trimmed selectors.
-/

set_option autoImplicit false

namespace XPathLocator.Css

open Text (isBlank AllBlank utf8Length)
open Token (Kind)

/-! ### Tokens -/

/-- The kinds of the tokens of a text whose first character has the given position; nothing
if the text has no tokens. -/
def kindsAt? (position : Nat) (s : List Char) : Option (List Kind) :=
  (tokens position s).toOption.map (·.map Token.kind)

/-- A text without characters has no tokens. -/
theorem kindsAt?_nil (position : Nat) : kindsAt? position [] = some [] := by
  rw [kindsAt?, tokens]
  rfl

/-- The kinds of the tokens of a text are that of the first one and those of what is left. -/
theorem kindsAt?_cons (position : Nat) (c : Char) (r : List Char) :
    kindsAt? position (c :: r) = (front position c r).toOption.bind fun x =>
      (kindsAt? (position + (utf8Length (c :: r) - utf8Length x.2)) x.2).map (x.1 :: ·) := by
  cases hfront : front position c r with
  | error e =>
      rw [kindsAt?, tokens_of_front_error hfront]
      rfl
  | ok x =>
      obtain ⟨k, rest⟩ := x
      rw [kindsAt?, tokens_of_front hfront]
      simp only [kindsAt?, Except.toOption, Option.bind_some]
      cases tokens (position + (utf8Length (c :: r) - utf8Length rest)) rest <;> rfl

/-- Only an error says where it is. -/
theorem front_toOption (p q : Nat) (c : Char) (r : List Char) :
    (front p c r).toOption = (front q c r).toOption := by
  cases hp : front p c r with
  | ok x => rw [front_ok_position q hp]
  | error e =>
      cases hq : front q c r with
      | error e' => rfl
      | ok x =>
          rw [front_ok_position p hq] at hp
          cases hp

/-- The kinds of the tokens do not depend on the position of the text. -/
theorem kindsAt?_eq (p q : Nat) (s : List Char) : kindsAt? p s = kindsAt? q s := by
  induction hn : s.length using Nat.strongRecOn generalizing p q s with
  | ind n ih =>
  cases s with
  | nil => rw [kindsAt?_nil, kindsAt?_nil]
  | cons c r =>
      rw [kindsAt?_cons, kindsAt?_cons, front_toOption p q]
      cases hfront : front q c r with
      | error e => rfl
      | ok x =>
          have hlength : x.2.length < n := by
            rw [← hn]
            exact Nat.lt_succ_of_le (front_length_le hfront)
          show (kindsAt? _ x.2).map _ = (kindsAt? _ x.2).map _
          rw [ih _ hlength _ _ x.2 rfl]

/-- The kinds of the tokens of a text; nothing if the text has no tokens. -/
def kinds? (s : List Char) : Option (List Kind) :=
  kindsAt? 0 s

/-- The kinds of the tokens of a text, read from its first character on. -/
theorem kinds?_cons (c : Char) (r : List Char) :
    kinds? (c :: r) = (front 0 c r).toOption.bind fun x => (kinds? x.2).map (x.1 :: ·) := by
  rw [kinds?, kindsAt?_cons]
  refine congrArg _ (funext fun x => ?_)
  rw [kinds?, kindsAt?_eq _ 0]

/-- The empty text has no tokens. -/
theorem kinds?_nil : kinds? [] = some [] :=
  kindsAt?_nil 0

/-- White space is one token, or none. -/
theorem kinds?_blank {w : List Char} (hw : AllBlank w) : ∃ b, Blanks b ∧ kinds? w = some b := by
  cases w with
  | nil => exact ⟨[], blanks_nil, kinds?_nil⟩
  | cons c w =>
      have hall : w.dropWhile isBlank = [] :=
        List.dropWhile_eq_nil_iff.mpr fun d hd => hw d (List.mem_cons_of_mem _ hd)
      refine ⟨[.blank], by simp [Blanks], ?_⟩
      rw [kinds?_cons, front, if_pos (hw c List.mem_cons_self), hall]
      show (kinds? []).map _ = _
      rw [kinds?_nil]
      rfl

/-- The last token that is no white space. -/
def lastWord? (ks : List Kind) : Option Kind :=
  (ks.filter (· ≠ .blank)).getLast?

/-- White space has no words. -/
theorem filter_blanks {b : List Kind} (hb : Blanks b) : b.filter (· ≠ .blank) = [] := by
  rw [List.filter_eq_nil_iff]
  intro k hk
  simp [hb k hk]

/-- White space in front does not count for the last word. -/
theorem lastWord?_blanks_append {b : List Kind} (hb : Blanks b) (ks : List Kind) :
    lastWord? (b ++ ks) = lastWord? ks := by
  rw [lastWord?, List.filter_append, filter_blanks hb, List.nil_append, lastWord?]

/-- White space behind does not count for the last word. -/
theorem lastWord?_append_blanks (ks : List Kind) {b : List Kind} (hb : Blanks b) :
    lastWord? (ks ++ b) = lastWord? ks := by
  rw [lastWord?, List.filter_append, filter_blanks hb, List.append_nil, lastWord?]

/-- The last token is the last word, if it is not white space. -/
theorem lastWord?_concat (ks : List Kind) {k : Kind} (hk : k ≠ .blank) :
    lastWord? (ks ++ [k]) = some k := by
  rw [lastWord?, List.filter_append, List.filter_cons_of_pos (by simpa using hk)]
  simp

/-- What stands in front does not count, where there is a word behind it. -/
theorem lastWord?_cons {ks : List Kind} {j : Kind} (h : lastWord? ks = some j) (k : Kind) :
    lastWord? (k :: ks) = some j := by
  rw [lastWord?, List.filter_cons]
  split
  · rw [List.getLast?_cons, ← lastWord?, h]
    rfl
  · exact h

/-- The last token of a text with white space behind it is a name that ends in that white
space. Without the white space, another token is the last. -/
inductive LastGoesOn (u w : List Char) : Prop
  | intro {k : Kind} {ks : List Kind} (long : kinds? (u ++ w) = some ks)
      (hlast : lastWord? ks = some k) (hk : EndsBlank k)
      (short : ∀ js, kinds? u = some js → ∃ j, lastWord? js = some j ∧ j ≠ k)

/-- A name that ends in white space is not white space. -/
theorem EndsBlank.ne_blank {k : Kind} (h : EndsBlank k) : k ≠ .blank := by
  rintro rfl
  exact h

/-- A name that ends in white space is no delimiter. -/
theorem EndsBlank.ne_delim {k : Kind} (h : EndsBlank k) (c : Char) : .delim c ≠ k := by
  rintro rfl
  exact h

/-- A backslash with nothing behind it is a token by itself. -/
theorem kinds?_backslash : kinds? ['\\'] = some [.delim '\\'] := by
  have hfront : front 0 '\\' [] = .ok (.delim '\\', []) := rfl
  rw [kinds?_cons, hfront]
  show (kinds? []).map _ = _
  rw [kinds?_nil]
  rfl

/-- The name that goes on is the last token. -/
theorem FrontGoesOn.last {c : Char} {r w : List Char} (h : FrontGoesOn 0 c r w) :
    LastGoesOn (c :: r) w := by
  obtain ⟨long, hv, hk, short, hrest, hj, hne⟩ := h
  rename_i k j v rest
  obtain ⟨b, hb, hkinds⟩ := kinds?_blank hv
  have hlong : kinds? (c :: r ++ w) = some ([k] ++ b) := by
    rw [List.cons_append, kinds?_cons, long]
    show (kinds? v).map _ = _
    rw [hkinds]
    rfl
  have hlast : lastWord? ([k] ++ b) = some k := by
    rw [lastWord?_append_blanks _ hb]
    exact lastWord?_concat [] hk.ne_blank
  refine .intro hlong hlast hk fun js hjs => ?_
  -- Without the white space another token is the last one, or the open backslash behind it.
  have hshort : (kinds? rest).map (j :: ·) = some js := by
    rw [← hjs, kinds?_cons, short]
    rfl
  rcases hrest with rfl | rfl
  · rw [kinds?_nil] at hshort
    cases hshort
    exact ⟨j, lastWord?_concat [] hj, hne⟩
  · rw [kinds?_backslash] at hshort
    cases hshort
    exact ⟨_, lastWord?_concat [j] (by simp), hk.ne_delim _⟩

/-- A token in front leaves the last one as it is. -/
theorem LastGoesOn.cons {c : Char} {r u v w : List Char} {k : Kind} (h : LastGoesOn u v)
    (long : front 0 c (r ++ w) = .ok (k, u ++ v)) (short : front 0 c r = .ok (k, u)) :
    LastGoesOn (c :: r) w := by
  obtain ⟨hkinds, hlast, hends, hshort⟩ := h
  refine .intro ?_ (lastWord?_cons hlast k) hends fun js hjs => ?_
  · rw [List.cons_append, kinds?_cons, long]
    show (kinds? (u ++ v)).map _ = _
    rw [hkinds]
    rfl
  · rw [kinds?_cons, short] at hjs
    obtain ⟨is, his, rfl⟩ := Option.map_eq_some_iff.mp hjs
    obtain ⟨j, hj, hne⟩ := hshort is his
    exact ⟨j, lastWord?_cons hj k, hne⟩

/-- White space has tokens, and they are white space. -/
theorem tokens_blank {w : List Char} (hw : AllBlank w) (position : Nat) :
    ∃ b, Blanks (b.map Token.kind) ∧ tokens position w = .ok b := by
  obtain ⟨ks, hks, hkinds⟩ := kinds?_blank hw
  rw [kinds?, kindsAt?_eq 0 position, kindsAt?] at hkinds
  cases htokens : tokens position w with
  | error e =>
      rw [htokens] at hkinds
      cases hkinds
  | ok b =>
      rw [htokens] at hkinds
      cases hkinds
      exact ⟨b, hks, rfl⟩

/-- A name that goes on into white space is the last token that a text has without it. -/
theorem FrontGoesOn.exists_tokens {position : Nat} {c : Char} {r w : List Char}
    (h : FrontGoesOn position c r w) (p : Nat) : ∃ ts, tokens p (c :: r) = .ok ts := by
  obtain ⟨_, _, _, short, hrest, _, _⟩ := h
  rw [tokens_of_front (front_ok_position p short)]
  rcases hrest with rfl | rfl
  · exact ⟨_, by rw [tokens_nil]; rfl⟩
  · have hbackslash (q : Nat) : front q '\\' [] = .ok (.delim '\\', []) := rfl
    exact ⟨_, by rw [tokens_of_front (hbackslash _), tokens_nil]; rfl⟩

/-- Whether a token goes on into the white space behind it does not depend on its position. -/
theorem FrontGoesOn.at {position : Nat} {c : Char} {r w : List Char}
    (h : FrontGoesOn position c r w) (p : Nat) : FrontGoesOn p c r w := by
  obtain ⟨long, hv, hk, short, hrest, hj, hne⟩ := h
  exact .intro (front_ok_position p long) hv hk (front_ok_position p short) hrest hj hne

/-- If the text goes on behind the token in front, the white space behind it is all left. -/
theorem front_append_inj {position : Nat} {c : Char} {r rest v w : List Char} {k : Kind}
    (hu : (c :: r).getLast?.any isBlank = false) (hw : AllBlank w) (hv : AllBlank v)
    (hne : rest ≠ []) (hshort : front position c r = .ok (k, rest))
    (hlong : front position c (r ++ w) = .ok (k, rest ++ v)) :
    rest.getLast?.any isBlank = false ∧ w = v := by
  have hlast (l : List Char) : (l ++ rest).getLast? = rest.getLast? :=
    List.getLast?_append_of_ne_nil l hne
  obtain ⟨w₁, rfl, _⟩ := front_behind hshort
  obtain ⟨w₂, hw₂, _⟩ := front_behind hlong
  have hrest : rest.getLast?.any isBlank = false := by
    rwa [← List.cons_append, hlast] at hu
  rw [← List.append_assoc] at hw₂
  exact ⟨hrest, (Text.append_allBlank_inj hw₂ (by rwa [hlast]) (by rwa [hlast]) hw hv).2⟩

/-- **White space behind a text leaves its tokens where they are** and adds no token but white
space, or the last name goes on into it. -/
theorem tokens_append_blank {u w : List Char} (hu : u.getLast?.any isBlank = false)
    (hw : AllBlank w) (position : Nat) :
    (∃ b, Blanks (b.map Token.kind) ∧
      tokens position (u ++ w) = (tokens position u).map (· ++ b)) ∨
    LastGoesOn u w ∧ ∃ ts, tokens position u = .ok ts := by
  induction hn : u.length using Nat.strongRecOn generalizing u position with
  | ind n ih =>
  cases u with
  | nil =>
      obtain ⟨b, hb, h⟩ := tokens_blank hw position
      exact .inl ⟨b, hb, by rw [List.nil_append, h, tokens_nil]; rfl⟩
  | cons c r =>
      -- The token in front takes no white space from behind the text, or it is a name that goes on
      -- into it.
      rcases front_append position c r hw with ⟨v, hv, hlong⟩ | hon
      · cases hshort : front position c r with
        | error e =>
            rw [hshort] at hlong
            refine .inl ⟨[], blanks_nil, ?_⟩
            rw [List.cons_append, tokens_of_front_error hlong, tokens_of_front_error hshort]
            rfl
        | ok x =>
            obtain ⟨k, rest⟩ := x
            rw [hshort] at hlong
            have hlong : front position c (r ++ w) = .ok (k, rest ++ v) := hlong
            -- A last token may end an escape with the first white space. In front of other text
            -- it cannot, so there the same white space is left and the induction goes on.
            rcases eq_or_ne rest [] with rfl | hne
            · obtain ⟨b, hb, hblank⟩ := tokens_blank hv
                (position + (utf8Length (c :: (r ++ w)) - utf8Length v))
              refine .inl ⟨b, hb, ?_⟩
              rw [List.cons_append, tokens_of_front hlong, tokens_of_front hshort, tokens_nil,
                List.nil_append, hblank]
              rfl
            obtain ⟨hrest, rfl⟩ := front_append_inj hu hw hv hne hshort hlong
            obtain ⟨w₁, rfl, _⟩ := front_behind hshort
            have hposition : utf8Length (c :: (w₁ ++ rest ++ w)) - utf8Length (rest ++ w) =
                utf8Length (c :: (w₁ ++ rest)) - utf8Length rest := by
              rw [← List.cons_append, Text.utf8Length_append, Text.utf8Length_append,
                Nat.add_sub_add_right]
            have hlength : rest.length < n := by
              rw [← hn]
              exact Nat.lt_succ_of_le (front_length_le hshort)
            rw [List.cons_append, tokens_of_front hlong, tokens_of_front hshort, hposition]
            rcases ih _ hlength hrest
              (position + (utf8Length (c :: (w₁ ++ rest)) - utf8Length rest)) rfl with
              ⟨b, hb, h⟩ | ⟨hon, ts, hts⟩
            · refine .inl ⟨b, hb, ?_⟩
              rw [h]
              cases tokens _ rest <;> rfl
            · refine .inr ⟨hon.cons (front_ok_position 0 hlong) (front_ok_position 0 hshort),
                ⟨k, position⟩ :: ts, ?_⟩
              rw [hts]
              rfl
      · exact .inr ⟨(hon.at 0).last, hon.exists_tokens position⟩

/-- White space behind a text adds white space to its tokens, unless the last token goes on into it.
-/
theorem kinds?_append {u w : List Char} (hu : u.getLast?.any isBlank = false) (hw : AllBlank w) :
    (∃ b, Blanks b ∧ kinds? (u ++ w) = (kinds? u).map (· ++ b)) ∨ LastGoesOn u w := by
  rcases tokens_append_blank hu hw 0 with ⟨b, hb, h⟩ | ⟨hon, _⟩
  · refine .inl ⟨_, hb, ?_⟩
    rw [kinds?, kindsAt?, h, kinds?, kindsAt?]
    cases tokens 0 u with
    | error e => rfl
    | ok ts => exact congrArg some (List.map_append ..)
  · exact .inr hon

/-- White space in front of a text is a token of its own. -/
theorem kinds?_append_left {l u : List Char} (hl : AllBlank l) (hu : u.head?.any isBlank = false) :
    ∃ b, Blanks b ∧ kinds? (l ++ u) = (kinds? u).map (b ++ ·) := by
  cases l with
  | nil => exact ⟨[], blanks_nil, by simp⟩
  | cons c l =>
      rw [Text.AllBlank, List.forall_mem_cons] at hl
      refine ⟨[.blank], by simp [Blanks], ?_⟩
      rw [List.cons_append, kinds?_cons, front, if_pos hl.1, List.dropWhile_append_of_pos hl.2,
        Text.dropWhile_of_head hu]
      rfl

/-! ### Selectors -/

/-- The last token is no white space. -/
def EndsTight (ks : List Kind) : Prop :=
  ks.getLast? ≠ some .blank

/-- Tokens that do not end in white space still do not with others in front of them. -/
theorem EndsTight.append {ks : List Kind} (h : EndsTight ks) (hne : ks ≠ []) (before : List Kind) :
    EndsTight (before ++ ks) := by
  rw [EndsTight, List.getLast?_append_of_ne_nil _ hne]
  exact h

/-- The same for one token in front, which may also be the last one. -/
theorem EndsTight.cons {ks : List Kind} (h : EndsTight ks) {k : Kind} (hk : k ≠ .blank) :
    EndsTight (k :: ks) := by
  cases ks with
  | nil => simpa [EndsTight] using hk
  | cons next ks => exact h.append (List.cons_ne_nil _ _) [k]

/-- Simple selectors do not end in white space. Induction on the derivation; brackets close the
longer ones. -/
theorem SimplesKinds.endsTight {ks : List Kind} {ss : List Simple} (h : SimplesKinds ks ss) :
    EndsTight ks := by
  induction h with
  | nil => simp [EndsTight]
  | id name _ ih => exact ih.cons (by simp)
  | ofClass name _ ih => exact (ih.cons (by simp)).cons (by simp)
  | @attr as ks s ss hattr _ ih =>
      obtain ⟨before, rfl⟩ : ∃ before, as = before ++ [.delim ']'] := by
        cases hattr with
        | @bare b₁ b₂ name => exact ⟨b₁ ++ .ident name :: b₂, by simp⟩
        | @test b₁ b₂ b₃ b₄ ops op k value name =>
            exact ⟨b₁ ++ .ident name :: (b₂ ++ (ops ++ (b₃ ++ k :: b₄))), by simp⟩
      have hclose : EndsTight (.delim ']' :: ks) := ih.cons (by simp)
      simpa using hclose.append (List.cons_ne_nil _ _) (.delim '[' :: before)
  | pseudo _ _ ih => exact (ih.cons (by simp)).cons (by simp)
  | @contains b₁ b₂ ks _ name _ k _ _ _ _ _ ih =>
      have hclose : EndsTight (.delim ')' :: ks) := ih.cons (by simp)
      simpa using hclose.append (List.cons_ne_nil _ _)
        (.delim ':' :: .ident name :: .delim '(' :: (b₁ ++ k :: b₂))
  | @not b₁ es is b₂ ks _ _ _ name _ _ _ _ _ _ _ _ ih =>
      have hclose : EndsTight (.delim ')' :: ks) := ih.cons (by simp)
      simpa using hclose.append (List.cons_ne_nil _ _)
        (.delim ':' :: .ident name :: .delim '(' :: (b₁ ++ (es ++ (is ++ b₂))))

/-- A compound does not end in white space. -/
theorem CompoundKinds.endsTight {ks : List Kind} {c : Compound} (h : CompoundKinds ks c) :
    EndsTight ks := by
  cases h with
  | @mk es ss element simples helement hsimples hne =>
      cases ss with
      | nil => cases helement <;> simp [EndsTight]
      | cons k ss => exact hsimples.endsTight.append (List.cons_ne_nil _ _) es

/-- The links of a chain do not end in white space. -/
theorem LinksKinds.endsTight {ks : List Kind} {tail : List (Combinator × Compound)}
    (h : LinksKinds ks tail) : EndsTight ks := by
  induction h with
  | nil => simp [EndsTight]
  | @cons cs ks ls _ _ _ _ hnext more ih =>
      have hks : EndsTight (ks ++ ls) := by
        cases ls with
        | nil => simpa using hnext.endsTight
        | cons k ls => exact ih.append (List.cons_ne_nil _ _) ks
      exact hks.append (by simp [hnext.ne_nil]) cs

/-- A chain does not end in white space. -/
theorem ComplexKinds.endsTight {ks : List Kind} {c : Complex} (h : ComplexKinds ks c) :
    EndsTight ks := by
  cases h with
  | @mk hs ts head tail hhead htail =>
      cases ts with
      | nil => simpa using hhead.endsTight
      | cons k ts => exact htail.endsTight.append (List.cons_ne_nil _ _) hs

/-- A chain has a token. -/
theorem ComplexKinds.ne_nil {ks : List Kind} {c : Complex} (h : ComplexKinds ks c) : ks ≠ [] := by
  cases h with
  | mk hhead _ => simp [hhead.ne_nil]

/-- White space behind white space is white space. -/
theorem Blanks.append {a b : List Kind} (ha : Blanks a) (hb : Blanks b) : Blanks (a ++ b) := by
  rw [Blanks, List.forall_mem_append]
  exact ⟨ha, hb⟩

/-- White space in front of two texts is the same up to what does not start with it. -/
theorem exists_of_blanks_append {a b ks body : List Kind} (ha : Blanks a)
    (hbody : body.head? ≠ some .blank) (h : a ++ ks = b ++ body) :
    ∃ c, b = a ++ c ∧ ks = c ++ body := by
  rcases List.append_eq_append_iff.mp h with ⟨c, hc, hks⟩ | ⟨c, rfl, rfl⟩
  · exact ⟨c, hc, hks⟩
  · cases c with
    | nil => exact ⟨[], by simp, by simp⟩
    | cons k c => exact absurd (by simp [ha k (by simp)]) hbody

/-- White space behind two texts is the same down to what does not end in it. -/
theorem exists_of_append_blanks {b c ks body : List Kind} (hb : Blanks b)
    (hbody : EndsTight body) (h : body ++ c = ks ++ b) : ∃ d, ks = body ++ d ∧ c = d ++ b := by
  rcases List.append_eq_append_iff.mp h with ⟨d, hd, hc⟩ | ⟨d, rfl, rfl⟩
  · exact ⟨d, hd, hc⟩
  · rcases List.eq_nil_or_concat d with rfl | ⟨d, k, rfl⟩
    · exact ⟨[], by simp, by simp⟩
    · exact absurd (by simp [hb k (by simp)]) hbody

/-- White space in front makes no difference to a group. -/
theorem groupKinds_append_left {b ks : List Kind} {g : Group} (hb : Blanks b) :
    GroupKinds (b ++ ks) g ↔ GroupKinds ks g := by
  constructor
  · generalize hks : b ++ ks = whole
    intro h
    cases h with
    | one h₁ hc h₂ =>
        obtain ⟨c, rfl, rfl⟩ := exists_of_blanks_append hb (head_ne_blank_of_complex hc) hks
        exact .one (fun k hk => h₁ k (List.mem_append_right _ hk)) hc h₂
    | cons h₁ hc h₂ more =>
        obtain ⟨c, rfl, rfl⟩ := exists_of_blanks_append hb (head_ne_blank_of_complex hc) hks
        exact .cons (fun k hk => h₁ k (List.mem_append_right _ hk)) hc h₂ more
  · intro h
    cases h with
    | one h₁ hc h₂ => simpa using GroupKinds.one (hb.append h₁) hc h₂
    | cons h₁ hc h₂ more => simpa using GroupKinds.cons (hb.append h₁) hc h₂ more

/-- White space behind makes no difference to a group. -/
theorem groupKinds_append_right {b ks : List Kind} {g : Group} (hb : Blanks b) :
    GroupKinds (ks ++ b) g ↔ GroupKinds ks g := by
  constructor
  · generalize hks : ks ++ b = whole
    intro h
    induction h generalizing ks with
    | @one b₁ cs b₂ c h₁ hc h₂ =>
        have hfront : EndsTight (b₁ ++ cs) := hc.endsTight.append hc.ne_nil b₁
        obtain ⟨d, rfl, rfl⟩ := exists_of_append_blanks hb hfront (by simpa using hks.symm)
        simpa using GroupKinds.one h₁ hc fun k hk => h₂ k (List.mem_append_left _ hk)
    | @cons b₁ cs b₂ gs c g h₁ hc h₂ _ ih =>
        have hcomma : EndsTight [.delim ','] := by simp [EndsTight]
        have hfront := hcomma.append (List.cons_ne_nil _ _) (b₁ ++ (cs ++ b₂))
        obtain ⟨d, rfl, rfl⟩ := exists_of_append_blanks hb hfront (by simpa using hks.symm)
        simpa using GroupKinds.cons h₁ hc h₂ (ih rfl)
  · intro h
    induction h with
    | one h₁ hc h₂ => simpa using GroupKinds.one h₁ hc (h₂.append hb)
    | cons h₁ hc h₂ _ ih => simpa using GroupKinds.cons h₁ hc h₂ ih

/-! ### Trimming -/

/-- White space is no group. -/
theorem GroupKinds.not_blanks {ks : List Kind} {g : Group} (h : GroupKinds ks g) :
    ¬ Blanks ks := by
  have hnot : ∀ {cs : List Kind} {c : Complex}, ComplexKinds cs c → ¬ Blanks cs := fun hc hb =>
    hc.endsTight (by rw [List.getLast?_eq_some_getLast hc.ne_nil, hb _ (List.getLast_mem _)])
  cases h with
  | one _ hc _ => exact fun hb => hnot hc fun k hk => hb k (by simp [hk])
  | cons _ hc _ _ => exact fun hb => hnot hc fun k hk => hb k (by simp [hk])

/-- **A text is read as a group exactly if its tokens are those of the group.** -/
theorem parse_eq_ok_iff (s : String) (g : Group) :
    parse s = .ok g ↔ ∃ ks, kinds? s.toList = some ks ∧ GroupKinds ks g := by
  rw [parse]
  split
  · next hempty =>
    -- White space has tokens, but no group.
    obtain ⟨b, hb, hkinds⟩ := kinds?_blank ((Text.isEmpty_trim_iff s).mp hempty)
    simp only [hkinds, Option.some_inj, exists_eq_left', reduceCtorEq, false_iff]
    exact fun h => h.not_blanks hb
  · rw [kinds?, kindsAt?, tokenize]
    cases tokens 0 s.toList with
    | error e =>
        show Except.error e = .ok g ↔ _
        simp [Except.toOption]
    | ok ts =>
        have hgroup : group ts = .ok g ↔ GroupKinds (ts.map Token.kind) g :=
          ⟨groupKinds_of_group ts, fun h => group_eq_ok h rfl⟩
        show group ts = .ok g ↔ _
        simpa [Except.toOption] using hgroup

/-- The last token of a selector that is no white space; nothing if there is none, or if the
selector has no tokens. -/
def lastToken? (s : String) : Option Kind :=
  (tokenize s).toOption.bind fun ts => lastWord? (ts.map Token.kind)

/-- The last token of a selector is the last word among the tokens of its text. -/
theorem lastToken?_eq (s : String) : lastToken? s = (kinds? s.toList).bind lastWord? := by
  rw [lastToken?, tokenize, kinds?, kindsAt?]
  cases tokens 0 s.toList <;> rfl

/-- White space at the ends of a selector adds no token but white space, or the last token is
a name that ends in it and that trimming takes away. -/
theorem kinds?_trim (s : String) :
    (∃ a b, Blanks a ∧ Blanks b ∧
      kinds? s.toList = (kinds? (Text.trim s).toList).map fun ks => a ++ (ks ++ b)) ∨
    ∃ k, lastToken? s = some k ∧ EndsBlank k ∧ lastToken? (Text.trim s) ≠ some k := by
  obtain ⟨l, w, hs, hl, hw⟩ := Text.exists_eq_trimChars s.toList
  have htrim : (Text.trim s).toList = Text.trimChars s.toList := String.toList_ofList
  have hhead := Text.head_trimChars s.toList
  have hlast := Text.last_trimChars s.toList
  rw [lastToken?_eq, lastToken?_eq, htrim]
  generalize Text.trimChars s.toList = t at hs hhead hlast ⊢
  rw [hs]
  -- White space in front of `t` is always a token of its own, so only its end is in question.
  cases t with
  | nil =>
      obtain ⟨a, ha, h⟩ := kinds?_blank (w := l ++ w) (List.forall_mem_append.mpr ⟨hl, hw⟩)
      refine .inl ⟨a, [], ha, blanks_nil, ?_⟩
      rw [List.nil_append, h, kinds?_nil]
      simp
  | cons c r =>
      obtain ⟨a, ha, hleft⟩ := kinds?_append_left (u := c :: r ++ w) hl hhead
      rw [hleft]
      rcases kinds?_append hlast hw with ⟨b, hb, hright⟩ | ⟨hlong, hlast, hk, hshort⟩
      · refine .inl ⟨a, b, ha, hb, ?_⟩
        rw [hright, Option.map_map]
        rfl
      · refine .inr ⟨_, ?_, hk, fun h => ?_⟩
        · rw [hlong]
          exact (lastWord?_blanks_append ha _).trans hlast
        · obtain ⟨js, hjs, hj⟩ := Option.bind_eq_some_iff.mp h
          obtain ⟨j, hj', hne⟩ := hshort js hjs
          exact hne (Option.some_inj.mp (hj'.symm.trans hj))

/-- **White space at the ends of a selector makes no difference**, unless the last token takes
some of it in. -/
theorem parse_trim (s : String)
    (h : ∀ k, lastToken? s = some k → EndsBlank k → lastToken? (Text.trim s) = some k)
    (g : Group) : parse (Text.trim s) = .ok g ↔ parse s = .ok g := by
  rw [parse_eq_ok_iff, parse_eq_ok_iff]
  rcases kinds?_trim s with ⟨a, b, ha, hb, hkinds⟩ | ⟨k, hk, hends, hne⟩
  · rw [hkinds]
    cases kinds? (Text.trim s).toList with
    | none => simp
    | some ks => simp [groupKinds_append_left ha, groupKinds_append_right hb]
  · exact absurd (h k hk hends) hne

end XPathLocator.Css
