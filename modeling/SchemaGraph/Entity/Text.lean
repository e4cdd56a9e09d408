import SchemaGraph.Entity.Tree
import SchemaGraph.Data.Json.Reader
import SchemaGraph.Data.Json.Printer

/-! # Entities as JSON texts -/

namespace SchemaGraph

/-- The node of a JSON text. -/
def Node.ofJson? (text : String) : Option Node :=
  (Data.Json.read? text).bind (ofTree? .json 0)

def Node.json (n : Node) : String := Data.Json.print n.toTree

/-- The event of a JSON text. -/
def Event.ofJson? (text : String) : Option Event :=
  (Data.Json.read? text).bind (ofTree? .json 0)

def Event.json (e : Event) : String := Data.Json.print e.toTree

end SchemaGraph
