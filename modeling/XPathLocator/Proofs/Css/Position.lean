import XPathLocator.Proofs.Css.Lexeme
import XPathLocator.Proofs.Css.Quoted
import XPathLocator.Proofs.Css.Recognition
import XPathLocator.Proofs.Css.Refusal

/-!
# `XPathLocator.Proofs.Css.Position`: where a syntax error is

The position of a syntax error is that of a token or of an opening quote, so it is the length in
bytes of what stands in front of one (`StandsAt`).

White space behind a selector moves nothing. The tokens are where they are without it
(`tokens_append_blank`), so a syntax error is the same too, as long as the token it is about is still
there (`compileFrom_unexpectedToken`, `compileFrom_unterminatedString`).
-/

set_option autoImplicit false

namespace XPathLocator.Css

open Text (isBlank AllBlank utf8Length)
open Token (Kind)
open Lexeme (textOf tokensAt)

/-! ### Where a token stands -/

/-- The text `word` stands in `css` behind so many bytes. -/
def StandsAt (css word : String) (position : Nat) : Prop :=
  ∃ before behind, css = before ++ word ++ behind ∧ before.utf8ByteSize = position

/-- What stands in a text still does with more behind it. -/
theorem StandsAt.append {css word : String} {position : Nat} (h : StandsAt css word position)
    (more : String) : StandsAt (css ++ more) word position := by
  obtain ⟨before, behind, rfl, hposition⟩ := h
  exact ⟨before, behind ++ more, String.append_assoc, hposition⟩

/-- The text has tokens, and this is one of them. -/
def HasToken (css : String) (t : Token) : Prop :=
  ∃ ts, tokenize css = .ok ts ∧ t ∈ ts

/-- Each token of a text is a lexeme behind those of the tokens before it. -/
theorem exists_lexed_of_append {css : String} {q r : List Token} {t : Token}
    (h : tokenize css = .ok (q ++ t :: r)) :
    ∃ as l bs, Lexed (as ++ l :: bs) ∧ textOf (as ++ l :: bs) = css.toList ∧
      q = tokensAt 0 as ∧ t = ⟨l.kind, utf8Length (textOf as)⟩ := by
  obtain ⟨ls, hls, htext, htokens⟩ := tokens_eq_ok_iff.mp h
  have hlength : q.length < ls.length := by
    rw [← Lexeme.length_tokensAt 0 ls, htokens]
    simp
  obtain ⟨as, l, bs, rfl, has⟩ : ∃ as l bs, ls = as ++ l :: bs ∧ as.length = q.length :=
    ⟨ls.take q.length, ls[q.length], ls.drop (q.length + 1), by simp, by simp; omega⟩
  refine ⟨as, l, bs, hls, htext, ?_, ?_⟩
  · rw [← Lexeme.take_tokensAt 0 as (l :: bs), htokens, has, List.take_left]
  · have hget := Lexeme.getElem?_tokensAt 0 as l bs
    rw [htokens, has, Nat.zero_add, List.getElem?_append_right (Nat.le_refl _), Nat.sub_self] at hget
    exact Option.some_inj.mp hget

/-- **The position of a token** is that of its text, which is read as this token by itself. -/
theorem HasToken.standsAt {css : String} {t : Token} (h : HasToken css t) :
    ∃ word, tokenize word = .ok [⟨t.kind, 0⟩] ∧ StandsAt css word t.position := by
  obtain ⟨ts, hts, ht⟩ := h
  obtain ⟨q, r, rfl⟩ := List.append_of_mem ht
  obtain ⟨as, l, bs, hls, htext, -, rfl⟩ := exists_lexed_of_append hts
  refine ⟨.ofList l.text, ?_, .ofList (textOf as), .ofList (textOf bs), ?_, utf8ByteSize_ofList _⟩
  · have hword : Lexed ([l] ++ bs) := hls.of_append_right
    have htoken := tokenize_ofList hword.of_append
    rwa [Lexeme.textOf_cons, textOf, List.flatMap_nil, List.append_nil] at htoken
  · rw [← String.toList_inj, ← htext, Lexeme.textOf_append, Lexeme.textOf_cons]
    simp

/-- The starts of a text differ in length, so one is told by its number of bytes. -/
theorem eq_of_isPrefix {u v s : List Char} (hu : u <+: s) (hv : v <+: s)
    (h : utf8Length u = utf8Length v) : u = v := by
  wlog huv : u <+: v generalizing u v
  · exact (this hv hu h.symm ((List.prefix_or_prefix_of_prefix hu hv).resolve_left huv)).symm
  obtain ⟨w, rfl⟩ := huv
  rw [Text.utf8Length_append] at h
  cases w with
  | nil => rw [List.append_nil]
  | cons c w =>
      have hpos := utf8Length_pos (List.cons_ne_nil c w)
      omega

/-- Where a token stands in two texts that start alike, the tokens before it are the same. -/
theorem exists_of_hasToken {s t : String} {q r : List Token} {x : Token}
    (hs : tokenize s = .ok (q ++ x :: r)) (ht : HasToken t x) (hstart : s.toList <+: t.toList) :
    ∃ r', tokenize t = .ok (q ++ x :: r') := by
  obtain ⟨as, l, bs, hls, hsText, rfl, rfl⟩ := exists_lexed_of_append hs
  obtain ⟨us, hus, hx⟩ := ht
  obtain ⟨q', r', rfl⟩ := List.append_of_mem hx
  obtain ⟨cs, l', ds, hms, htText, rfl, hl'⟩ := exists_lexed_of_append hus
  have hsame : textOf as = textOf cs := by
    refine eq_of_isPrefix (s := t.toList) ?_ ?_ (Token.mk.inj hl').2
    · refine List.IsPrefix.trans ?_ hstart
      rw [← hsText, Lexeme.textOf_append]
      exact List.prefix_append _ _
    · rw [← htText, Lexeme.textOf_append]
      exact List.prefix_append _ _
  have htokens : tokensAt 0 as = tokensAt 0 cs := by
    have has := tokens_of_lexed hls.of_append 0
    rw [hsame, tokens_of_lexed hms.of_append 0] at has
    exact (Except.ok.inj has).symm
  exact ⟨r', by rw [htokens, hus]⟩

/-! ### Selectors -/

section Compile
variable (compiler : Compiler) {css axis : String}

/-- A text that is not only white space is not with more behind it. -/
theorem isEmpty_trim_append (h : (Text.trim css).isEmpty = false) (more : String) :
    (Text.trim (css ++ more)).isEmpty = false := by
  by_contra hempty
  rw [Bool.not_eq_false, Text.isEmpty_trim_iff, String.toList_append] at hempty
  rw [(Text.isEmpty_trim_iff css).mpr fun c hc => hempty c (List.mem_append_left _ hc)] at h
  cases h

/-- An error about a token is one of the group that starts with the tokens up to that one. -/
theorem exists_of_group_unexpectedToken {ts : List Token} {found : String} {position : Nat}
    {expected : Expectation}
    (h : group ts = .error (.unexpectedToken found position expected)) :
    ∃ q t r, ts = q ++ t :: r ∧ t.describe = found ∧ t.position = position ∧
      ∀ us, group (q ++ t :: us) = .error (.unexpectedToken found position expected) := by
  obtain ⟨q, r, x, rfl, hrefuses, herror⟩ := exists_refuses_of_group h id
  cases r with
  | nil => cases herror
  | cons t r =>
      cases herror
      refine ⟨q, t, r, rfl, rfl, rfl, fun us => ?_⟩
      exact groupReader_eq_error.mp (hrefuses.eq_unexpected (t :: us) rfl)

/-- **A token that is refused** is one of the text, and it is refused in every text that goes on
with something else behind it and still has this token there. -/
theorem compileFrom_unexpectedToken {found : String} {position : Nat} {expected : Expectation}
    (h : compiler.compileFrom axis css = .error (.unexpectedToken found position expected)) :
    ∃ t, HasToken css t ∧ t.describe = found ∧ t.position = position ∧
      ∀ more, HasToken (css ++ more) t → compiler.compileFrom axis (css ++ more) =
        .error (.unexpectedToken found position expected) := by
  rcases compileFrom_error_cases compiler h with ⟨_, hnone⟩ | ⟨hne, htokens | ⟨ts, hts, hcases⟩⟩
  · cases hnone
  · obtain ⟨_, _, _, _, _, _, _, hstring⟩ := tokens_eq_error_iff.mp htokens
    cases hstring
  rcases hcases with hgroup | ⟨_, _, _, hplace⟩
  · obtain ⟨q, t, r, rfl, hfound, hposition, hsame⟩ := exists_of_group_unexpectedToken hgroup
    refine ⟨t, ⟨_, hts, by simp⟩, hfound, hposition, fun more hmore => ?_⟩
    obtain ⟨r', hr'⟩ := exists_of_hasToken hts hmore (by rw [String.toList_append]; simp)
    refine compileFrom_of_parse_error compiler ?_ axis
    rw [parse_eq_group (isEmpty_trim_append hne more) hr', hsame]
  · cases hplace

/-- **A string that is not closed** is not closed by white space. -/
theorem compileFrom_unterminatedString {position : Nat}
    (h : compiler.compileFrom axis css = .error (.unterminatedString position)) :
    ∃ quote, IsQuote quote ∧ StandsAt css (String.singleton quote) position ∧
      ∀ more : String, css.toList.getLast?.any isBlank = false → AllBlank more.toList →
        compiler.compileFrom axis (css ++ more) = .error (.unterminatedString position) := by
  rcases compileFrom_error_cases compiler h with ⟨_, hnone⟩ | ⟨hne, htokens | ⟨ts, hts, hcases⟩⟩
  · cases hnone
  · obtain ⟨before, quote, behind, htext, hquote, -, -, hstring⟩ := tokens_eq_error_iff.mp htokens
    rw [Error.unterminatedString.injEq, Nat.zero_add] at hstring
    refine ⟨quote, hquote, ⟨.ofList before, .ofList behind, ?_, ?_⟩,
      fun more hlast hmore => ?_⟩
    · rw [← String.toList_inj, htext]
      simp
    · rw [utf8ByteSize_ofList, hstring]
    · have hboth : tokenize (css ++ more) = .error (.unterminatedString position) := by
        rw [tokenize, String.toList_append]
        -- White space behind a text closes no string in it.
        rcases tokens_append_blank hlast hmore 0 with ⟨b, _, hb⟩ | ⟨_, us, hus⟩
        · rw [hb, show tokens 0 css.toList = _ from htokens]
          rfl
        · rw [show tokens 0 css.toList = _ from htokens] at hus
          cases hus
      refine compileFrom_of_parse_error compiler ?_ axis
      rw [parse, if_neg (by simp [isEmpty_trim_append hne more]), hboth]
      rfl
  · rcases hcases with hgroup | ⟨_, _, _, hplace⟩
    · obtain ⟨q, r, x, rfl, _, herror⟩ := exists_refuses_of_group hgroup id
      cases r <;> cases herror
    · cases hplace

end Compile

/-- White space behind a selector leaves its tokens where they are, unless the last token is a name
that ends in it. -/
theorem HasToken.append_blank {css more : String} {t : Token} (h : HasToken css t)
    (hlast : css.toList.getLast?.any isBlank = false) (hmore : AllBlank more.toList)
    (hname : ∀ k, lastToken? (css ++ more) = some k → EndsBlank k → lastToken? css = some k) :
    HasToken (css ++ more) t := by
  obtain ⟨ts, hts, ht⟩ := h
  rcases tokens_append_blank hlast hmore 0 with ⟨b, _, hb⟩ | ⟨⟨hlong, hk, hends, hshort⟩, _⟩
  · refine ⟨ts ++ b, ?_, List.mem_append_left b ht⟩
    rw [tokenize, String.toList_append, hb, show tokens 0 css.toList = _ from hts]
    rfl
  · rename_i k ks
    have hk' : lastToken? (css ++ more) = some k := by
      rw [lastToken?_eq, String.toList_append, hlong]
      exact hk
    have hcut := hname k hk' hends
    rw [lastToken?_eq] at hcut
    obtain ⟨js, hjs, hj⟩ := Option.bind_eq_some_iff.mp hcut
    obtain ⟨j, hj', hne⟩ := hshort js hjs
    exact absurd (Option.some_inj.mp (hj'.symm.trans hj)) hne

end XPathLocator.Css
