import XPathLocator.Engine
import XPathLocator.Proofs.Css.Position

/-!
# `XPathLocator.Proofs.Locator.Position`: where a locator's selector is wrong

A `css` value is trimmed before it is compiled, so the position of a syntax error counts from the
first character of the trimmed value. In a value that starts with no white space that is the same
place: what stands there in the trimmed value stands there in the value.

The `css` engine compiles the value as it is. It reports the same error, since white space behind
the selector moves no token, unless it is part of the last one: `a\\ ` is a name that ends in a
space, and trimmed it is a name and a backslash that escapes nothing.
-/

set_option autoImplicit false

namespace XPathLocator.Locator

open Css (Compiler HasToken StandsAt Token.Kind EndsBlank IsQuote lastToken? tokenize)
open Text (isBlank)

variable (compiler : Compiler) (policy : MultiKeyPolicy)

/-- A `css` value is trimmed and compiled. -/
theorem toXPath_css (t : Translator) (v : String) :
    t.toXPath ⟨.css, v⟩ = (t.css (Text.trim v)).mapError .invalidCss :=
  rfl

/-- What is refused as a selector is refused for the error of the compiler. -/
theorem mapError_invalidCss_eq_error_iff {x : Except Css.Error String} {e : Css.Error} :
    x.mapError Error.invalidCss = .error (.invalidCss e) ↔ x = .error e := by
  cases x <;> simp [Except.mapError]

/-- What cannot be read once it is trimmed is refused for that. -/
theorem toXPath_css_of_parse_error {v t : String} {e : Css.Error} (htrim : Text.trim v = t)
    (h : Css.parse t = .error e) :
    Translator.toXPath ⟨compiler.compile, policy⟩ ⟨.css, v⟩ = .error (.invalidCss e) := by
  rw [toXPath_css, htrim, mapError_invalidCss_eq_error_iff]
  exact Css.compileFrom_of_parse_error _ h _

/-- **The position of a syntax error in a `css` value.** The value without the white space around it
has the token that is named at the position that is given, or the opening quote stands there. If the
value starts with no white space, its text stands at this position in the value as well, and the
`css` engine reports the same error for the value as it is. A token has to be there for that, and it
is unless trimming takes the end of the last name away. -/
theorem css_error_position {v : String} {e : Css.Error}
    (h : Translator.toXPath ⟨compiler.compile, policy⟩ ⟨.css, v⟩ = .error (.invalidCss e)) :
    (∀ found p expected, e = .unexpectedToken found p expected →
      ∃ k word, tokenize word = .ok [⟨k, 0⟩] ∧ Css.Token.describe ⟨k, p⟩ = found ∧
        HasToken (Text.trim v) ⟨k, p⟩ ∧ StandsAt (Text.trim v) word p ∧
        (v.toList.head?.any isBlank = false →
          StandsAt v word p ∧
          (HasToken v ⟨k, p⟩ → Engine.css compiler.compile (.string v) = .error (.invalidCss e)) ∧
          ((∀ k, lastToken? v = some k → EndsBlank k → lastToken? (Text.trim v) = some k) →
            HasToken v ⟨k, p⟩))) ∧
    ∀ p, e = .unterminatedString p →
      ∃ quote, IsQuote quote ∧ StandsAt (Text.trim v) (String.singleton quote) p ∧
        (v.toList.head?.any isBlank = false →
          StandsAt v (String.singleton quote) p ∧
          Engine.css compiler.compile (.string v) = .error (.invalidCss e)) := by
  rw [toXPath_css, mapError_invalidCss_eq_error_iff] at h
  have hengine (s : String) (e : Css.Error) :
      Engine.css compiler.compile (.string s) = .error (.invalidCss e) ↔
        compiler.compileFrom Compiler.defaultAxis s = .error e :=
    mapError_invalidCss_eq_error_iff
  have hlast : (Text.trim v).toList.getLast?.any isBlank = false := by
    rw [Text.trim, String.toList_ofList]
    exact Text.last_trimChars _
  have hv (hhead : v.toList.head?.any isBlank = false) := Text.exists_eq_trim_append hhead
  -- Nothing else counts of trimming: the value is the trimmed one and white space, if it starts
  -- with none, and the trimmed one ends in none.
  generalize Text.trim v = t at *
  refine ⟨?_, ?_⟩
  · rintro found p expected rfl
    obtain ⟨⟨k, _⟩, htoken, hfound, rfl, hsame⟩ := Css.compileFrom_unexpectedToken compiler h
    obtain ⟨word, hword, hstands⟩ := htoken.standsAt
    refine ⟨k, word, hword, hfound, htoken, hstands, fun hhead => ?_⟩
    obtain ⟨w, hw, rfl⟩ := hv hhead
    rw [hengine]
    exact ⟨hstands.append w, hsame w, htoken.append_blank hlast hw⟩
  · rintro p rfl
    obtain ⟨quote, hquote, hstands, hsame⟩ := Css.compileFrom_unterminatedString compiler h
    refine ⟨quote, hquote, hstands, fun hhead => ?_⟩
    obtain ⟨w, hw, rfl⟩ := hv hhead
    rw [hengine]
    exact ⟨hstands.append w, hsame w hlast hw⟩

/-- A bracket behind a character of two bytes, and a quote in front of white space. -/
theorem css_error_position_bytes :
    (Translator.toXPath ⟨Compiler.compile ⟨true⟩, .reject⟩ ⟨.css, "é>)\u3000"⟩ =
        .error (.invalidCss (.unexpectedToken ")" 3 .selectorAfterCombinator)) ∧
      (∃ k word, tokenize word = .ok [⟨k, 0⟩] ∧ Css.Token.describe ⟨k, 3⟩ = ")" ∧
        HasToken "é>)" ⟨k, 3⟩ ∧ StandsAt "é>)\u3000" word 3) ∧
      Engine.css (Compiler.compile ⟨true⟩) (.string "é>)\u3000") =
        .error (.invalidCss (.unexpectedToken ")" 3 .selectorAfterCombinator))) ∧
    Translator.toXPath ⟨Compiler.compile ⟨true⟩, .reject⟩ ⟨.css, "é' "⟩ =
        .error (.invalidCss (.unterminatedString 2)) ∧
      (∃ quote, IsQuote quote ∧ StandsAt "é' " (String.singleton quote) 2) ∧
      Engine.css (Compiler.compile ⟨true⟩) (.string "é' ") =
        .error (.invalidCss (.unterminatedString 2)) := by
  constructor
  · have htokens : tokenize "é>)" = .ok [⟨.ident "é", 0⟩, ⟨.delim '>', 2⟩, ⟨.delim ')', 3⟩] := by
      decide +kernel
    have hlast : lastToken? "é>)\u3000" = some (.delim ')') := by decide +kernel
    have hparse : Css.parse "é>)" = .error (.unexpectedToken ")" 3 .selectorAfterCombinator) := by
      rw [Css.parse_eq_group (by decide +kernel) htokens]
      with_unfolding_all rfl
    have herror : Translator.toXPath ⟨Compiler.compile ⟨true⟩, .reject⟩ ⟨.css, "é>)\u3000"⟩ =
        .error (.invalidCss (.unexpectedToken ")" 3 .selectorAfterCombinator)) :=
      toXPath_css_of_parse_error _ _ (by decide +kernel) hparse
    obtain ⟨k, word, hword, hfound, htoken, -, hstands⟩ :=
      (css_error_position ⟨true⟩ .reject herror).1 _ _ _ rfl
    rw [show Text.trim "é>)\u3000" = "é>)" by decide +kernel] at htoken
    obtain ⟨hstands, hengine, hthere⟩ := hstands (by decide +kernel)
    refine ⟨herror, ⟨k, word, hword, hfound, htoken, hstands⟩,
      hengine (hthere fun k hk hends => ?_)⟩
    rw [hlast] at hk
    cases hk
    cases hends
  · have htokens : tokenize "é'" = .error (.unterminatedString 2) := by
      -- The name in front takes two bytes.
      have hname : Css.front 0 'é' ['\''] = .ok (.ident "é", ['\'']) := by decide +kernel
      have hquote : Css.front 2 '\'' [] = .error (.unterminatedString 2) := by decide +kernel
      show Css.tokens 0 ['é', '\''] = _
      rw [Css.tokens_of_front hname]
      show (Css.tokens 2 ['\'']).map _ = _
      rw [Css.tokens_of_front_error hquote]
      rfl
    have hparse : Css.parse "é'" = .error (.unterminatedString 2) := by
      rw [Css.parse, if_neg (by decide), htokens]
      rfl
    have herror : Translator.toXPath ⟨Compiler.compile ⟨true⟩, .reject⟩ ⟨.css, "é' "⟩ =
        .error (.invalidCss (.unterminatedString 2)) :=
      toXPath_css_of_parse_error _ _ (by decide +kernel) hparse
    obtain ⟨quote, hquote, -, hstands⟩ := (css_error_position ⟨true⟩ .reject herror).2 _ rfl
    obtain ⟨hstands, hengine⟩ := hstands (by decide +kernel)
    exact ⟨herror, ⟨quote, hquote, hstands⟩, hengine⟩

/-- White space in front moves the position: it counts from behind that. And an escaped space at the
end is cut: trimmed, it leaves a backslash that is refused at its place, and the `css` engine reads
the name that ends in the space. -/
theorem css_error_position_margins :
    ((∀ policy, Translator.toXPath ⟨Compiler.compile ⟨true⟩, policy⟩ ⟨.css, " >a"⟩ =
          .error (.invalidCss (.unexpectedToken ">" 0 .selector))) ∧
        ¬ StandsAt " >a" ">" 0 ∧
        Engine.css (Compiler.compile ⟨true⟩) (.string " >a") =
          .error (.invalidCss (.unexpectedToken ">" 1 .selector))) ∧
      (∀ policy, Translator.toXPath ⟨Compiler.compile ⟨true⟩, policy⟩ ⟨.css, "a\\ "⟩ =
          .error (.invalidCss (.unexpectedToken "\\" 1 .commaOrEnd))) ∧
        Engine.css (Compiler.compile ⟨true⟩) (.string "a\\ ") =
          .ok "descendant-or-self::*[name() = 'a ']" := by
  have htrim : Text.trim " >a" = ">a" := by decide +kernel
  have htrim' : Text.trim "a\\ " = "a\\" := by decide +kernel
  refine ⟨⟨fun policy => toXPath_css_of_parse_error _ policy htrim ?_, ?_, ?_⟩,
    fun policy => toXPath_css_of_parse_error _ policy htrim' ?_, ?_⟩
  · have htokens : tokenize ">a" = .ok [⟨.delim '>', 0⟩, ⟨.ident "a", 1⟩] := by decide +kernel
    rw [Css.parse_eq_group (by decide +kernel) htokens]
    with_unfolding_all rfl
  · -- The first character is a space.
    rintro ⟨before, behind, hcss, hbefore⟩
    obtain rfl := String.utf8ByteSize_eq_zero_iff.mp hbefore
    have hhead := congrArg (·.toList.head?) hcss
    simp at hhead
  · have htokens : tokenize " >a" = .ok [⟨.blank, 0⟩, ⟨.delim '>', 1⟩, ⟨.ident "a", 2⟩] := by
      decide +kernel
    refine mapError_invalidCss_eq_error_iff.mpr (Css.compileFrom_of_parse_error _ ?_ _)
    rw [Css.parse_eq_group (by decide +kernel) htokens]
    with_unfolding_all rfl
  · have htokens : tokenize "a\\" = .ok [⟨.ident "a", 0⟩, ⟨.delim '\\', 1⟩] := by decide +kernel
    rw [Css.parse_eq_group (by decide +kernel) htokens]
    with_unfolding_all rfl
  · have htokens : tokenize "a\\ " = .ok [⟨.ident "a ", 0⟩] := by decide +kernel
    have hgroup : Css.parse "a\\ " = .ok [⟨⟨some "a ", []⟩, []⟩] := by
      rw [Css.parse_eq_group (by decide +kernel) htokens]
      with_unfolding_all rfl
    show (Compiler.compileFrom ⟨true⟩ Compiler.defaultAxis "a\\ ").mapError _ = _
    rw [Compiler.compileFrom, hgroup]
    decide +kernel

end XPathLocator.Locator
