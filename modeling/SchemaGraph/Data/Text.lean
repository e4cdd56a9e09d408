import SchemaGraph.Data.Format
import SchemaGraph.Data.Json.Reader
import SchemaGraph.Data.Yaml.Reader

/-! # Data texts -/

namespace SchemaGraph.Data

/-- The tree of a text in a format. -/
def Tree.ofText? : Format → String → Option Tree
  | .json => Json.read?
  | .yaml => Yaml.read?

end SchemaGraph.Data
