import SchemaGraph.Command.Flag

/-! # Requests

What the arguments ask for, once they are understood.
-/

namespace SchemaGraph.Command

/-- How a report is written. -/
inductive ReportFormat where
  | text
  | json
  deriving Repr, DecidableEq

def ReportFormat.ofName? : String → Option ReportFormat
  | "text" => some .text
  | "json" => some .json
  | _ => none

/-- A verb with its operand. -/
inductive Task where
  /-- List the alternatives of a chain. -/
  | chain (expression : String)
  /-- Load the document at a path into a store. -/
  | check (path : String)
  /-- Mint as many identifiers. -/
  | mint (count : Nat)
  | verify (id : String)
  deriving Repr, DecidableEq

/-- A task, the path of the schema for it, and how to write what comes out. -/
structure Request where
  schema : Option String
  format : ReportFormat
  task : Task
  deriving Repr, DecidableEq

/-- The files that the task needs. -/
def Request.paths (r : Request) : List String :=
  match r.task with
  | .chain _ => r.schema.toList
  | .check path => path :: r.schema.toList
  | .mint _ | .verify _ => []

/-- Why arguments make no request. -/
inductive UsageFault where
  | noVerb
  | unknownVerb (word : String)
  | unknownFlag (word : String)
  | missingValue (flag : Flag)
  /-- The flag has a value and should not. -/
  | unneededValue (flag : Flag)
  | invalidValue (flag : Flag) (value : String)
  | repeated (flag : Flag)
  | missingOperand (verb : Verb)
  | invalidOperand (verb : Verb) (word : String)
  | extraOperand (word : String)
  deriving Repr, DecidableEq

def UsageFault.message : UsageFault → String
  | .noVerb => "a subcommand is required"
  | .unknownVerb word => "unrecognized subcommand '" ++ word ++ "'"
  | .unknownFlag word => "unexpected argument '" ++ word ++ "' found"
  | .missingValue flag => "a value is required for '--" ++ flag.long ++ "'"
  | .unneededValue flag => "unexpected value for '--" ++ flag.long ++ "'"
  | .invalidValue flag value => "invalid value '" ++ value ++ "' for '--" ++ flag.long ++ "'"
  | .repeated flag => "'--" ++ flag.long ++ "' cannot be used multiple times"
  | .missingOperand verb =>
      "a required argument was not provided: " ++ (verb.operand?.map Prod.fst).getD ""
  | .invalidOperand verb word =>
      "invalid value '" ++ word ++ "' for " ++ (verb.operand?.map Prod.fst).getD ""
  | .extraOperand word => "unexpected argument '" ++ word ++ "' found"

/-- Why reading the arguments ends before they make a request. -/
inductive Interruption where
  | help (topic : Topic)
  | version
  | misuse (fault : UsageFault)
  deriving Repr, DecidableEq

end SchemaGraph.Command
