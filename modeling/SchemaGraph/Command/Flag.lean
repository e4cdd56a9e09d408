import SchemaGraph.Command.Verb

/-! # Flags

The options of the command: their long names, their letters, and where they may stand.
-/

namespace SchemaGraph.Command

inductive Flag where
  | schema
  | verbose
  | format
  | count
  | help
  | version
  deriving Repr, DecidableEq

/-- The variable that names a schema when no option does. -/
def schemaVariable : String := "UXDF_SCHEMA"

namespace Flag

def long : Flag → String
  | .schema => "schema"
  | .verbose => "verbose"
  | .format => "format"
  | .count => "count"
  | .help => "help"
  | .version => "version"

def letter? : Flag → Option Char
  | .verbose => some 'v'
  | .count => some 'c'
  | .help => some 'h'
  | .version => some 'V'
  | .schema | .format => none

/-- How help shows the value of an option that has one. -/
def placeholder? : Flag → Option String
  | .schema => some "<SCHEMA>"
  | .format => some "<FORMAT>"
  | .count => some "<COUNT>"
  | .verbose | .help | .version => none

def takesValue (f : Flag) : Bool := f.placeholder?.isSome

/-- The flags that may stand before the verb, or behind the given one, in the order of
    their help. -/
def allowed : Option Verb → List Flag
  | none => [.schema, .verbose, .format, .help, .version]
  | some .id => [.count, .schema, .verbose, .format, .help]
  | some _ => [.schema, .verbose, .format, .help]

end Flag

end SchemaGraph.Command
