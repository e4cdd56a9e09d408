import SchemaGraph.Schema.Tree
import SchemaGraph.Data.Text
import SchemaGraph.Data.Json.Printer

/-! # Schema texts

Loading a catalog from a text, and the JSON text of a schema document.
-/

namespace SchemaGraph

open Data (Format Tree)

/-- Why a text gives no catalog. -/
inductive LoadError where
  /-- The text is no schema document in its format. -/
  | malformed (format : Format)
  | invalid (cause : CatalogError)
  deriving Repr, DecidableEq

/-- The catalog that a text lists. -/
def Catalog.ofText (format : Format) (text : String) : Except LoadError Catalog :=
  match (Tree.ofText? format text).bind (SchemaDocument.ofTree? format) with
  | none => .error (.malformed format)
  | some s => (ofDocument s).mapError .invalid

/-- The compact JSON text of a document. -/
def SchemaDocument.json (s : SchemaDocument) : String := Data.Json.print s.toTree

end SchemaGraph
