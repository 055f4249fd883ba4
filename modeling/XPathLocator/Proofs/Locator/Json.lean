import XPathLocator.Locator.Basic

/-!
# `XPathLocator.Proofs.Locator.Json`: locators and their JSON form

`Decodes` says case by case what a JSON value denotes as a locator, and `ofJson` finds the one
case that a value has (`ofJson_eq_iff`). The order of its checks is in the hypotheses of the
cases. An object with too many entries is refused whatever its entries are, and a value that is
not a string is refused before its strategy is looked up.

The policies differ in what they take for a locator. Under `reject`, decoding is the inverse of
encoding, and under `firstEntry` anything may stand behind the entry (`ofJson_inverts`).
-/

set_option autoImplicit false

namespace XPathLocator.Locator

/-! ### Names -/

/-- A name belongs to one strategy. -/
theorem Strategy.ofText?_eq_some_iff {k : String} {s : Strategy} :
    ofText? k = some s ↔ s.text = k := by
  constructor
  · intro h
    have hname := List.find?_some h
    exact of_decide_eq_true hname
  · rintro rfl
    cases s <;> rfl

/-- A text names no strategy exactly if it is the name of none. -/
theorem Strategy.ofText?_eq_none_iff {k : String} :
    ofText? k = none ↔ ∀ s : Strategy, s.text ≠ k := by
  simp only [Option.eq_none_iff_forall_ne_some, ne_eq, ofText?_eq_some_iff]

/-! ### Decoding -/

/-- A policy admits an object with these entries behind its first one. -/
def MultiKeyPolicy.Admits (policy : MultiKeyPolicy) (rest : List (String × Json)) : Prop :=
  policy = .reject → rest = []

/-- What a JSON value denotes under a policy: a locator, or why it is none. -/
inductive Decodes (policy : MultiKeyPolicy) : Json → Except Error Locator → Prop
  | notObject {j : Json} (h : ∀ entries, j ≠ .object entries) :
    Decodes policy j (.error (.malformed (.notObject j.kind)))
  | noEntry : Decodes policy (.object []) (.error (.malformed .noEntry))
  | manyEntries {entry : String × Json} {rest : List (String × Json)}
    (hrest : ¬ policy.Admits rest) :
    Decodes policy (.object (entry :: rest)) (.error (.malformed (.manyEntries (rest.length + 1))))
  | valueNotString {k : String} {value : Json} {rest : List (String × Json)}
    (hrest : policy.Admits rest) (hvalue : ∀ s, value ≠ .string s) :
    Decodes policy (.object ((k, value) :: rest))
      (.error (.malformed (.valueNotString k value.kind)))
  | unknownStrategy {k s : String} {rest : List (String × Json)} (hrest : policy.Admits rest)
    (hname : ∀ strategy : Strategy, strategy.text ≠ k) :
    Decodes policy (.object ((k, .string s) :: rest)) (.error (.unknownStrategy k))
  | locator (l : Locator) {rest : List (String × Json)} (hrest : policy.Admits rest) :
    Decodes policy (.object ((l.strategy.text, .string l.value) :: rest)) (.ok l)

variable {policy : MultiKeyPolicy} {j : Json} {result : Except Error Locator}

/-- An object that the policy admits is a pair if its first value is a string. -/
theorem ofJson_admitted {k s : String} {rest : List (String × Json)} (hrest : policy.Admits rest) :
    ofJson policy (.object ((k, .string s) :: rest)) = ofPair k s :=
  if_neg fun h => h.2 (hrest h.1)

/-- An object of one entry is a strategy and a value under either policy: one entry is not
too many. -/
theorem ofJson_entry (policy : MultiKeyPolicy) (strategy value : String) :
    ofJson policy (.object [(strategy, .string value)]) = ofPair strategy value :=
  ofJson_admitted fun _ => rfl

/-- What the rules make of a value, the decoder makes of it. -/
theorem Decodes.ofJson_eq (h : Decodes policy j result) : ofJson policy j = result := by
  cases h with
  | notObject h =>
    cases j with
    | object entries => exact absurd rfl (h entries)
    | null | bool | number | string | array => rfl
  | noEntry => rfl
  | manyEntries hrest => exact if_pos (Classical.not_imp.mp hrest)
  | @valueNotString _ value _ hrest hvalue =>
    cases value with
    | string s => exact absurd rfl (hvalue s)
    | null | bool | number | array | object => exact if_neg fun h => h.2 (hrest h.1)
  | unknownStrategy hrest hname =>
    rw [ofJson_admitted hrest, ofPair, Strategy.ofText?_eq_none_iff.mpr hname]
  | locator l hrest => rw [ofJson_admitted hrest, ofPair, Strategy.ofText?_eq_some_iff.mpr rfl]

/-- Every value has a case. -/
theorem exists_decodes (policy : MultiKeyPolicy) (j : Json) :
    ∃ result, Decodes policy j result := by
  match j with
  | .null | .bool _ | .number _ | .string _ | .array _ => exact ⟨_, .notObject nofun⟩
  | .object [] => exact ⟨_, .noEntry⟩
  | .object ((k, value) :: rest) =>
    by_cases hrest : policy.Admits rest
    · match value with
      | .null | .bool _ | .number _ | .array _ | .object _ =>
        exact ⟨_, .valueNotString hrest nofun⟩
      | .string s =>
        cases hname : Strategy.ofText? k with
        | none => exact ⟨_, .unknownStrategy hrest (Strategy.ofText?_eq_none_iff.mp hname)⟩
        | some strategy =>
          obtain rfl := Strategy.ofText?_eq_some_iff.mp hname
          exact ⟨_, .locator ⟨strategy, s⟩ hrest⟩
    · exact ⟨_, .manyEntries hrest⟩

/-- The decoder follows the rules, and they leave no value out. -/
theorem ofJson_eq_iff : ofJson policy j = result ↔ Decodes policy j result := by
  constructor
  · rintro rfl
    obtain ⟨result, h⟩ := exists_decodes policy j
    rw [h.ofJson_eq]
    exact h
  · exact Decodes.ofJson_eq

/-! ### Results -/

/-- A locator comes from an object that starts with its entry. -/
theorem ofJson_eq_ok_iff {l : Locator} : ofJson policy j = .ok l ↔
    ∃ rest, policy.Admits rest ∧ j = .object ((l.strategy.text, .string l.value) :: rest) := by
  rw [ofJson_eq_iff]
  constructor
  · intro h
    cases h with
    | locator l hrest => exact ⟨_, hrest, rfl⟩
  · rintro ⟨rest, hrest, rfl⟩
    exact .locator l hrest

/-- The name of a strategy is looked up last. -/
theorem ofJson_eq_unknownStrategy_iff {k : String} :
    ofJson policy j = .error (.unknownStrategy k) ↔
      ∃ s rest, j = .object ((k, .string s) :: rest) ∧ policy.Admits rest ∧
        ∀ strategy : Strategy, strategy.text ≠ k := by
  rw [ofJson_eq_iff]
  constructor
  · intro h
    cases h with
    | unknownStrategy hrest hname => exact ⟨_, _, rfl, hrest, hname⟩
  · rintro ⟨s, rest, rfl, hrest, hname⟩
    exact .unknownStrategy hrest hname

/-- No other refusals come from the JSON form. -/
theorem ofJson_cases (policy : MultiKeyPolicy) (j : Json) :
    (∃ l, ofJson policy j = .ok l) ∨ (∃ k, ofJson policy j = .error (.unknownStrategy k)) ∨
      ∃ reason, ofJson policy j = .error (.malformed reason) := by
  simp only [ofJson_eq_iff]
  obtain ⟨result, h⟩ := exists_decodes policy j
  match result, h with
  | .ok l, h => exact .inl ⟨l, h⟩
  | .error (.unknownStrategy k), h => exact .inr (.inl ⟨k, h⟩)
  | .error (.malformed reason), h => exact .inr (.inr ⟨reason, h⟩)

/-- **Decoding inverts encoding.** Under `reject` a value is decoded to a locator exactly if it
is the JSON form of the locator, and under `firstEntry` exactly if it is an object that starts
with the one entry of this form. Every other value is refused. It is refused for its strategy
exactly if the policy admits the object and its first entry is a string under a name that no
strategy has. Otherwise it is malformed. -/
theorem ofJson_inverts (j : Json) :
    (∀ l, ofJson .reject j = .ok l ↔ j = l.toJson) ∧
    (∀ l, ofJson .firstEntry j = .ok l ↔
      ∃ entry rest, l.toJson = .object [entry] ∧ j = .object (entry :: rest)) ∧
    ∀ policy : MultiKeyPolicy,
      (∀ k, ofJson policy j = .error (.unknownStrategy k) ↔
        ∃ s rest, j = .object ((k, .string s) :: rest) ∧ policy.Admits rest ∧
          ∀ strategy : Strategy, strategy.text ≠ k) ∧
      ((∃ l, ofJson policy j = .ok l) ∨ (∃ k, ofJson policy j = .error (.unknownStrategy k)) ∨
        ∃ reason, ofJson policy j = .error (.malformed reason)) := by
  refine ⟨fun l => ?_, fun l => ?_,
    fun policy => ⟨fun _ => ofJson_eq_unknownStrategy_iff, ofJson_cases policy j⟩⟩
  · rw [ofJson_eq_ok_iff, toJson]
    constructor
    · rintro ⟨rest, hrest, rfl⟩
      rw [hrest rfl]
    · intro hj
      exact ⟨[], fun _ => rfl, hj⟩
  · rw [ofJson_eq_ok_iff, toJson]
    constructor
    · rintro ⟨rest, _, hj⟩
      exact ⟨_, rest, rfl, hj⟩
    · rintro ⟨entry, rest, hentry, rfl⟩
      cases hentry
      exact ⟨rest, nofun, rfl⟩

end XPathLocator.Locator
