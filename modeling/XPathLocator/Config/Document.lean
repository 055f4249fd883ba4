import XPathLocator.Config.Basic
import XPathLocator.Yaml.Reader

/-!
# `XPathLocator.Config.Document`: settings as a YAML document

The root of a configuration document is a mapping from names of settings to
values, or nothing at all. `Config.ofNode?` takes defaults for what is not
there, ignores names that it does not know, and refuses a document in which a
setting occurs twice or has a value of another kind.

What a node is read as is up to a `Yaml.Library`. In the one at hand a text is
any scalar. A word of a fixed choice is a scalar with that text, or a tag with
that name on a scalar that denotes nothing. A truth value has to be plain.
-/

set_option autoImplicit false

namespace XPathLocator

/-! ### Reading YAML -/

namespace Yaml

/-- What settings need of a library for YAML: the root of the document that a
text holds, and what a node is read as. -/
structure Library where
  Node : Type
  read? : String → Option Node
  /-- The fields of a record, by name. -/
  fields? : Node → Option (List (String × Node))
  text? : Node → Option String
  /-- The word of a fixed choice. -/
  word? : Node → Option String
  truth? : Node → Option Bool

/-- The text of a scalar. -/
def Node.text? : Node → Option String
  | .scalar _ _ text => some text
  | _ => none

/-- The text of a plain scalar, which can denote more than a text. -/
def Node.plain? : Node → Option String
  | .scalar _ true text => some text
  | _ => none

/-- The word of a fixed choice that a node denotes. -/
def Node.word? : Node → Option String
  | .scalar none _ text => some text
  | .scalar (some tag) plain text =>
    if text.isEmpty || (plain && Scalar.isNull text) then some (.ofList (tag.toList.drop 1))
    else none
  | _ => none

/-- The fields of a node: the entries of a mapping whose keys are texts, and
none for an empty scalar. -/
def Node.fields? : Node → Option (List (String × Node))
  | .mapping entries => entries.mapM fun (key, value) => return (← key.text?, value)
  | .scalar _ _ text => if text.isEmpty then some [] else none
  | .sequence _ => none

/-- The library at hand. -/
def library : Library where
  Node := Node
  read? := read?
  fields? := Node.fields?
  text? := Node.text?
  word? := Node.word?
  truth? node := node.plain?.bind Scalar.toBool?

end Yaml

/-! ### Settings -/

namespace Config

/-- The setting of a name, read from the only field that has it; `absent` where
no field has it. -/
def setting? {α Node : Type} (fields : List (String × Node)) (name : String) (absent : α)
    (read? : Node → Option α) : Option α :=
  match fields.filter (·.1 = name) with
  | [] => some absent
  | [(_, value)] => read? value
  | _ => none

/-- The policy of a name in a document, where only its own name counts. -/
def policy? (word : String) : Option Locator.MultiKeyPolicy :=
  [Locator.MultiKeyPolicy.reject, .firstEntry].find? (·.text = word)

variable (lib : Yaml.Library)

/-- The compiler that the node under `css` describes. -/
def compiler? (absent : Css.Compiler) (node : lib.Node) : Option Css.Compiler := do
  let html ← setting? (← lib.fields? node) "html" absent.html lib.truth?
  return ⟨html⟩

/-- The settings that the root of a document describes. -/
def ofNode? (root : lib.Node) : Option Config := do
  let fields ← lib.fields? root
  -- The defaults stand for what is not there.
  let absent : Config := {}
  let logLevel ← setting? fields "log_level" absent.logLevel lib.text?
  let output ← setting? fields "output" absent.output (lib.word? · >>= OutputFormat.ofText?)
  let multiKey ← setting? fields "multi_key" absent.multiKey (lib.word? · >>= policy?)
  let css ← setting? fields "css" absent.css (compiler? lib absent.css)
  return ⟨logLevel, output, multiKey, css⟩

/-- The settings that the text of a configuration file describes. -/
def ofText? (text : String) : Option Config := do
  ofNode? lib (← lib.read? text)

end Config

end XPathLocator
