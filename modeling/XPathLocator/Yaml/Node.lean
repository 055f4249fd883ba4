/-!
# `XPathLocator.Yaml.Node`: the contents of a YAML document

A node is a scalar, a sequence or a mapping. A scalar keeps its text, its tag
and whether it was plain, since only a plain one can denote more than its text.
The entries of a mapping stand in document order and may repeat a key.
-/

set_option autoImplicit false

namespace XPathLocator.Yaml

/-- A node of a document. -/
inductive Node
  | scalar (tag : Option String) (plain : Bool) (text : String)
  | sequence (items : List Node)
  | mapping (entries : List (Node × Node))
deriving BEq, Repr

/-- The node of a value that is not there. -/
def Node.absent : Node :=
  .scalar none true ""

end XPathLocator.Yaml
