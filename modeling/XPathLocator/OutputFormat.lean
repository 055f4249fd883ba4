/-!
# `XPathLocator.OutputFormat`: the forms in which results are written

Results are written for people or, as JSON or YAML, for other programs. A
format has one name, which is exact: settings and options that name one differ
in case from none of the others, and no other spelling is taken.
-/

set_option autoImplicit false

namespace XPathLocator

/-- A form in which results are written. -/
inductive OutputFormat
  | human
  | json
  | yaml
deriving DecidableEq, Repr

namespace OutputFormat

/-- The name of a format. -/
def text : OutputFormat → String
  | .human => "human"
  | .json => "json"
  | .yaml => "yaml"

/-- The format of a name. -/
def ofText? : String → Option OutputFormat
  | "human" => some .human
  | "json" => some .json
  | "yaml" => some .yaml
  | _ => none

/-- Every format is found under its name. -/
@[simp]
theorem ofText?_text (f : OutputFormat) : ofText? f.text = some f := by
  cases f <;> rfl

end OutputFormat

end XPathLocator
