import XPathLocator.Proofs.Engine
import XPathLocator.Proofs.Text.Bytes

/-!
# `XPathLocator.Proofs.Registry`: a registry is what was registered

Engines are registered one after the other, under any names and in any order, with none to
start from or with the default ones. The list of these registrations is the `history` of a
registry, and all that it answers can be told from that list (`answers_of_history`): the
names are those in it, in ascending order of their bytes, and the engine of a name is the
one that was registered last under it (`latest`).

`Reflects` is what one registration keeps (`Reflects.register`), and a run of them by
induction (`Reflects.registerAll`).

A name is unknown exactly if nothing was registered under it. An engine gets to say so
itself only if it asks some other registry. Those here ask none (`Engine.AsksNone`), so with
them the refusal `unknownEngine` is the registry's own.
-/

set_option autoImplicit false

namespace XPathLocator

/-! ### Engines -/

namespace Engine

/-- The engine never says of a name that it is unknown, as it would if it asked a registry. -/
def AsksNone (e : Engine) : Prop :=
  ∀ name json, e json ≠ .error (.unknownEngine name)

/-- A refused selector is not an unknown name. -/
theorem mapError_invalidCss_ne_unknown (x : Except Css.Error String) (name : String) :
    x.mapError Locator.Error.invalidCss ≠ .error (.unknownEngine name) := by
  cases x <;> (intro h; cases h)

/-- The engine for XPaths asks no registry. -/
theorem asksNone_xpath : xpath.AsksNone := by
  intro name json
  rw [xpath, expectString]
  split <;> (intro h; cases h)

/-- The engine for selectors asks no registry. -/
theorem asksNone_css (compile : Locator.CssCompiler) : (css compile).AsksNone := by
  intro name json
  rw [css, expectString]
  split
  · exact mapError_invalidCss_ne_unknown _ name
  · intro h
    cases h

/-- No locator is refused as an unknown name. -/
theorem toXPath_ne_unknown (t : Locator.Translator) (l : Locator) (name : String) :
    t.toXPath l ≠ .error (.unknownEngine name) := by
  rw [Locator.Translator.toXPath]
  split
  case h_2 => exact mapError_invalidCss_ne_unknown _ name
  all_goals
    intro h
    cases h

/-- No value is refused as an unknown name when it is decoded. -/
theorem ofJson_ne_unknown (policy : Locator.MultiKeyPolicy) (json : Json) (name : String) :
    Locator.ofJson policy json ≠ .error (.unknownEngine name) := by
  rw [Locator.ofJson.eq_def]
  intro h
  split at h
  · cases h
  · split at h
    · cases h
    · split at h
      · rw [Locator.ofPair] at h
        split at h <;> cases h
      · cases h
  · cases h

/-- The engine for locators asks no registry, neither to decode a value nor to translate it. -/
theorem asksNone_ofTranslator (t : Locator.Translator) : (ofTranslator t).AsksNone := by
  intro name json h
  rw [ofTranslator, Locator.Translator.jsonToXPath] at h
  cases hl : Locator.ofJson t.multiKey json with
  | error e =>
      rw [hl] at h
      cases h
      exact ofJson_ne_unknown t.multiKey json name hl
  | ok l =>
      rw [hl] at h
      exact toXPath_ne_unknown t l name h

end Engine

namespace Registry

/-! ### One registration -/

/-- The engine that was registered last under a name. -/
def latest (history : List (String × Engine)) (name : String) : Option Engine :=
  history.reverse.lookup name

/-- One more registration is the latest one for its name, and changes nothing for the others. -/
theorem latest_concat (history : List (String × Engine)) (name n : String) (e : Engine) :
    latest (history ++ [(name, e)]) n = if n = name then some e else latest history n := by
  rw [latest, List.reverse_append]
  exact lookup_cons_eq_ite name n e history.reverse

/-- A name has no latest registration exactly if it has none. -/
theorem latest_eq_none_iff (history : List (String × Engine)) (n : String) :
    latest history n = none ↔ n ∉ history.map (·.1) := by
  rw [latest, List.lookup_eq_none_iff]
  simp only [List.mem_reverse, bne_iff_ne, List.mem_map, not_exists, not_and]
  exact forall₂_congr fun entry _ => ne_comm

/-- The registry holds what was registered last under each name, and is in order. -/
structure Reflects (r : Registry) (history : List (String × Engine)) : Prop where
  ascending : r.names.Pairwise (· < ·)
  lookup_eq : ∀ n, r.entries.lookup n = latest history n

/-- Where an engine is inserted, no other name comes in. Induction on the entries. -/
theorem mem_names_insert {name n : String} {e : Engine} {entries : List (String × Engine)}
    (h : n ∈ (insert name e entries).map (·.1)) : n = name ∨ n ∈ entries.map (·.1) := by
  induction entries with
  | nil => exact .inl (List.mem_singleton.mp h)
  | cons entry rest ih =>
      rw [insert] at h
      split at h
      · exact List.mem_cons.mp h
      split at h
      · exact (List.mem_cons.mp h).imp_right (List.mem_cons_of_mem _)
      · rcases List.mem_cons.mp h with rfl | h
        · exact .inr List.mem_cons_self
        · exact (ih h).imp_right (List.mem_cons_of_mem _)

/-- A name goes to its place, or takes the place that it has. -/
theorem ascending_insert {entries : List (String × Engine)}
    (h : (entries.map (·.1)).Pairwise (· < ·)) (name : String) (e : Engine) :
    ((insert name e entries).map (·.1)).Pairwise (· < ·) := by
  induction entries with
  | nil => exact List.pairwise_singleton _ _
  | cons entry rest ih =>
      rw [List.map_cons, List.pairwise_cons] at h
      obtain ⟨hfirst, hrest⟩ := h
      rw [insert]
      split
      · next hlt =>
        refine List.pairwise_cons.mpr ⟨fun n hn => ?_, List.pairwise_cons.mpr ⟨hfirst, hrest⟩⟩
        rcases List.mem_cons.mp hn with rfl | hn
        · exact hlt
        · exact String.lt_trans hlt (hfirst n hn)
      split
      · next heq =>
        rw [List.map_cons, heq]
        exact List.pairwise_cons.mpr ⟨hfirst, hrest⟩
      · next hlt hne =>
        refine List.pairwise_cons.mpr ⟨fun n hn => ?_, ih hrest⟩
        rcases mem_names_insert hn with rfl | hn
        · exact Std.lt_of_le_of_ne (String.not_lt.mp hlt) (Ne.symm hne)
        · exact hfirst n hn

/-- **One registration** is one more entry of the history. -/
theorem Reflects.register {r : Registry} {history : List (String × Engine)}
    (h : r.Reflects history) (name : String) (e : Engine) :
    (r.register name e).Reflects (history ++ [(name, e)]) where
  ascending := ascending_insert h.ascending name e
  lookup_eq n := by
    rw [Registry.register, lookup_insert, latest_concat, h.lookup_eq]

/-! ### A run of registrations -/

/-- Registers engines one after the other. -/
def registerAll (r : Registry) (steps : List (String × Engine)) : Registry :=
  steps.foldl (fun r (name, e) => r.register name e) r

/-- **A run of registrations** is so many more entries of the history. Induction on the run. -/
theorem Reflects.registerAll {r : Registry} {history : List (String × Engine)}
    (h : r.Reflects history) (steps : List (String × Engine)) :
    (r.registerAll steps).Reflects (history ++ steps) := by
  induction steps generalizing r history with
  | nil => rwa [List.append_nil]
  | cons step rest ih =>
      rw [List.append_cons]
      exact ih (h.register step.1 step.2)

/-- What registrations start from. -/
inductive Start
  | empty
  | defaults (css : Locator.CssCompiler) (multiKey : Locator.MultiKeyPolicy)

/-- The registry that registrations start from. -/
def Start.registry : Start → Registry
  | .empty => .empty
  | .defaults css multiKey => .withDefaults css multiKey

/-- What is registered at the start. -/
def Start.history : Start → List (String × Engine)
  | .empty => []
  | .defaults css multiKey =>
    [(locatorEngine, .ofTranslator ⟨css, multiKey⟩), ("css", .css css), ("xpath", .xpath)]

/-- What registrations start from reflects what is registered there. -/
theorem Start.reflects (start : Start) : start.registry.Reflects start.history := by
  have hempty : Registry.empty.Reflects [] := ⟨.nil, fun _ => rfl⟩
  cases start with
  | empty => exact hempty
  | defaults css multiKey => exact hempty.registerAll (Start.defaults css multiKey).history

/-- The engines that are there at the start ask no registry. -/
theorem Start.asksNone (start : Start) : ∀ entry ∈ start.history, entry.2.AsksNone := by
  cases start with
  | empty => exact List.forall_mem_nil _
  | defaults css multiKey =>
      simp only [history, List.forall_mem_cons]
      exact ⟨Engine.asksNone_ofTranslator _, Engine.asksNone_css css, Engine.asksNone_xpath,
        List.forall_mem_nil _⟩

/-! ### What a registry answers -/

section Answers
variable {r : Registry} {history : List (String × Engine)} (h : r.Reflects history)
include h

/-- The names are those in the history. -/
theorem Reflects.mem_names_iff (n : String) : n ∈ r.names ↔ n ∈ history.map (·.1) := by
  rw [← not_iff_not, ← latest_eq_none_iff, ← h.lookup_eq, List.lookup_eq_none_iff]
  simp only [names, List.mem_map, not_exists, not_and, bne_iff_ne]
  exact forall₂_congr fun entry _ => ne_comm

/-- The engine of a name is the latest one in the history. -/
theorem Reflects.engine_eq (n : String) :
    r.engine n = match latest history n with
      | some e => .ok e
      | none => .error (.unknownEngine n) := by
  have hlookup := h.lookup_eq n
  generalize latest history n = found at hlookup ⊢
  cases found <;> simp only [engine, hlookup]

/-- An unknown name is refused, and a known one is answered by the last engine. -/
theorem Reflects.toXPath_eq (n : String) (json : Json) :
    r.toXPath n json = match latest history n with
      | some e => e json
      | none => .error (.unknownEngine n) := by
  rw [toXPath, h.engine_eq]
  cases latest history n <;> rfl

/-- A name has no engine exactly if nothing was registered under it. -/
theorem Reflects.engine_eq_error_iff (n : String) :
    r.engine n = .error (.unknownEngine n) ↔ n ∉ history.map (·.1) := by
  rw [h.engine_eq, ← latest_eq_none_iff]
  cases latest history n <;> simp

/-- A name is refused as unknown if nothing was registered under it, and if its engine answers
that, about whatever registry it asks. -/
theorem Reflects.toXPath_eq_unknown_iff (n : String) (json : Json) :
    r.toXPath n json = .error (.unknownEngine n) ↔ n ∉ history.map (·.1) ∨
      ∃ e, latest history n = some e ∧ e json = .error (.unknownEngine n) := by
  rw [h.toXPath_eq, ← latest_eq_none_iff]
  cases latest history n <;> simp

end Answers

/-- An engine that was registered last was registered. -/
theorem mem_of_latest {history : List (String × Engine)} {n : String} {e : Engine}
    (h : latest history n = some e) : (n, e) ∈ history := by
  obtain ⟨before, behind, hsplit, _⟩ := List.lookup_eq_some_iff.mp h
  exact List.mem_reverse.mp (hsplit ▸ List.mem_append_right before List.mem_cons_self)

/-- What another name is registered for makes no difference. -/
theorem toXPath_register_of_ne (r : Registry) {name n : String} (hne : n ≠ name) (e : Engine)
    (json : Json) : (r.register name e).toXPath n json = r.toXPath n json := by
  rw [toXPath, engine_register, if_neg hne, toXPath]

/-- **A registry answers from its history.** After any registrations, from no engines or from
the default ones: the names are in ascending order of their bytes and are those that were
registered; a name is answered by the engine registered last under it, and refused as unknown
if there is none; and a further registration changes nothing for other names. That a name is
unknown is otherwise said only by an engine that says so itself. The default engines never do,
so if none of those registered later does either, it is said of no name that was registered. -/
theorem answers_of_history (start : Start) (steps : List (String × Engine)) :
    let r := start.registry.registerAll steps
    let history := start.history ++ steps
    r.names.Pairwise (fun a b => Text.bytes a < Text.bytes b) ∧
    ∀ n, (n ∈ r.names ↔ n ∈ history.map (·.1)) ∧
      (r.contains n = true ↔ n ∈ r.names) ∧
      (n ∈ history.map (·.1) → ∃ e, latest history n = some e ∧
        ∀ json, r.toXPath n json = e json) ∧
      (n ∉ history.map (·.1) → ∀ json, r.toXPath n json = .error (.unknownEngine n)) ∧
      (r.engine n = .error (.unknownEngine n) ↔ n ∉ history.map (·.1)) ∧
      (∀ json, r.toXPath n json = .error (.unknownEngine n) ↔ n ∉ history.map (·.1) ∨
        ∃ e, latest history n = some e ∧ e json = .error (.unknownEngine n)) ∧
      ((∀ step ∈ steps, step.2.AsksNone) → ∀ json,
        r.toXPath n json = .error (.unknownEngine n) ↔ n ∉ history.map (·.1)) ∧
      ∀ name e, n ≠ name → ∀ json, (r.register name e).toXPath n json = r.toXPath n json := by
  intro r history
  have h : r.Reflects history := start.reflects.registerAll steps
  refine ⟨h.ascending.imp Text.bytes_lt, fun n => ⟨h.mem_names_iff n, List.contains_iff_mem,
    fun hmem => ?_, fun hmem json => ?_, h.engine_eq_error_iff n, h.toXPath_eq_unknown_iff n,
    fun hasks json => ?_, fun name e hne json => toXPath_register_of_ne r hne e json⟩⟩
  · obtain ⟨e, he⟩ : ∃ e, latest history n = some e :=
      Option.ne_none_iff_exists'.mp fun hnone => (latest_eq_none_iff history n).mp hnone hmem
    refine ⟨e, he, fun json => ?_⟩
    rw [h.toXPath_eq, he]
  · rw [h.toXPath_eq, (latest_eq_none_iff history n).mpr hmem]
  · rw [h.toXPath_eq_unknown_iff]
    refine or_iff_left ?_
    rintro ⟨e, he, hunknown⟩
    -- An engine that answers is one of the defaults or was registered on the way.
    have hnone : e.AsksNone := by
      rcases List.mem_append.mp (mem_of_latest he) with hstart | hstep
      · exact start.asksNone _ hstart
      · exact hasks _ hstep
    exact hnone n json hunknown

/-- The default engines with one of them replaced, twice, and one more under a name that comes
between them. -/
theorem answers_of_history_replaced :
    let constant (x : String) : Engine := fun _ => .ok x
    let steps := [("css", constant "//a"), ("näme", constant "//b"), ("css", constant "//c")]
    let r := (Start.defaults (fun s => .ok s) .reject).registry.registerAll steps
    (∀ step ∈ steps, step.2.AsksNone) ∧ r.names = ["css", "näme", "se", "xpath"] ∧
      r.toXPath "css" .null = .ok "//c" ∧
      r.toXPath "sizzle" .null = .error (.unknownEngine "sizzle") ∧
      (r.register "se" .xpath).toXPath "css" .null = .ok "//c" := by
  intro constant steps r
  have hasks : ∀ step ∈ steps, step.2.AsksNone := by
    simp only [steps, List.forall_mem_cons]
    exact ⟨nofun, nofun, nofun, nofun⟩
  obtain ⟨_, hall⟩ := answers_of_history (.defaults (fun s => .ok s) .reject) steps
  obtain ⟨_, _, hregistered, _, _, _, _, hother⟩ := hall "css"
  obtain ⟨_, _, _, _, _, _, hunknown, _⟩ := hall "sizzle"
  have hcss : r.toXPath "css" .null = .ok "//c" := by
    obtain ⟨e, he, hanswer⟩ := hregistered (by decide)
    cases he
    exact hanswer .null
  refine ⟨hasks, by decide, hcss, (hunknown hasks .null).mpr (by decide), ?_⟩
  exact (hother "se" .xpath (by decide) .null).trans hcss

/-- An engine may hand its locator to another registry and find no engine there: then its name is
registered, has an engine, and is refused as unknown. And of the default engines the names are there
although no registration follows. -/
theorem answers_of_history_asking :
    let asking : Engine := Registry.empty.toXPath "a"
    let r := Start.empty.registry.registerAll [("a", asking)]
    let unchanged := (Start.defaults (fun s => .ok s) .reject).registry.registerAll []
    ("a" ∈ r.names ∧ r.contains "a" = true ∧ r.toXPath "a" .null = .error (.unknownEngine "a")) ∧
      unchanged.names = ["css", "se", "xpath"] := by
  exact ⟨⟨by decide, by decide, rfl⟩, by decide⟩

end Registry

end XPathLocator
