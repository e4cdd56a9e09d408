/-! # Data formats

The two formats in which data texts come, and how the name of a file tells which.
-/

namespace SchemaGraph.Data

/-- A format of data texts. -/
inductive Format where
  | json
  | yaml
  deriving Repr, DecidableEq

/-- What stands behind the last dot of a file's name. A dot that opens the name does not
    count. -/
def extension? (path : String) : Option String :=
  let name := path.toList.reverse.takeWhile (· ≠ '/')
  match name.dropWhile (· ≠ '.') with
  | '.' :: _ :: _ => some (String.ofList (name.takeWhile (· ≠ '.')).reverse)
  | _ => none

namespace Format

/-- The format of the file at a path, which is JSON unless the extension says otherwise. -/
def ofPath (path : String) : Format :=
  if extension? path ∈ [some "yaml", some "yml"] then .yaml else .json

def name : Format → String
  | .json => "JSON"
  | .yaml => "YAML"

/-- Lists and maps within each other beyond this count are refused in entities and values. -/
def depthLimit : Format → Nat
  | .json => 127
  | .yaml => 128

end Format

end SchemaGraph.Data
