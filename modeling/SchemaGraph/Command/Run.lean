import SchemaGraph.Command.Arguments
import SchemaGraph.Command.Help
import SchemaGraph.Command.Report
import SchemaGraph.Identifier.Maker
import SchemaGraph.Store.Document

/-! # Running the command

From the words of the command line and the files that they name to what is printed. Nothing
here reads a file or prints: the contents come in as a function from paths to texts.
-/

namespace SchemaGraph.Command

open Data (Format)

/-- The texts of the files that can be read. -/
abbrev Files := String → Option String

/-- Why a task comes to nothing. -/
inductive TaskError where
  | schemaNotLoaded (path : String)
  | invalidChain (expression : String) (cause : Chain.ChainError)
  | emptyChain
  | documentNotRead (path : String)
  | malformedDocument (format : Format)
  | invalidSchemaSection (cause : CatalogError)
  | violation (cause : StoreError)
  | notMinted (cause : Identifier.MintError)
  | notValid (id : String)

namespace TaskError

def message : TaskError → String
  | .schemaNotLoaded path => "failed to load schema " ++ path
  | .invalidChain expression _ => "invalid chain " ++ Text.quoted expression
  | .emptyChain => "empty chain expression"
  | .documentNotRead path => "failed to read document " ++ path
  | .malformedDocument format => "the document is no " ++ format.name ++ " text of a document"
  | .invalidSchemaSection _ => "invalid schema section"
  | .violation _ => "document data violates the schema"
  | .notMinted cause => cause.message
  | .notValid id => id ++ " is not a valid identifier"

/-- What lies behind the error. -/
def cause? : TaskError → Option String
  | .invalidChain _ cause => some cause.message
  | .invalidSchemaSection cause => some cause.message
  | .violation cause => some cause.message
  | _ => none

/-- The error as it is shown: the message, and below it the cause. -/
def text (e : TaskError) : String :=
  "Error: " ++ e.message ++ "\n" ++
    (e.cause?.map fun cause => "\nCaused by:\n    " ++ cause ++ "\n").getD ""

end TaskError

/-- The catalog of the schema at a path. -/
def loadSchema (files : Files) (path : String) : Except TaskError Catalog :=
  match (files path).map (Catalog.ofText (.ofPath path)) with
  | some (.ok c) => .ok c
  | _ => .error (.schemaNotLoaded path)

/-- The chain of an expression, without any types when no schema is given. -/
def readChain (files : Files) (schema : Option String) (expression : String) :
    Except TaskError Chain := do
  let catalog ← match schema with
    | some path => loadSchema files path
    | none => .ok .empty
  match Chain.ofText? catalog expression with
  | .ok (some chain) => return chain
  | .ok none => throw .emptyChain
  | .error cause => throw (.invalidChain expression cause)

/-- The store of the document at a path. A schema that is given replaces the one in the
    document. -/
def loadStore (files : Files) (schema : Option String) (path : String) :
    Except TaskError Store := do
  let some text := files path | throw (.documentNotRead path)
  let some document := Document.ofText? (.ofPath path) text
    | throw (.malformedDocument (.ofPath path))
  let catalog ← match schema with
    | some path => loadSchema files path
    | none => (Catalog.ofDocument document.schema).mapError .invalidSchemaSection
  (Store.ofDocument catalog document.data).mapError .violation

/-- The next identifiers of a maker. -/
def mint : Nat → Identifier.Maker → Except TaskError (List String)
  | 0, _ => .ok []
  | count + 1, maker =>
      match maker.next with
      | (.ok id, maker) => (mint count maker).map (id :: ·)
      | (.error cause, _) => .error (.notMinted cause)

/-- What a request prints. -/
def Request.output (files : Files) (r : Request) : Except TaskError String :=
  match r.task with
  | .chain expression =>
      (readChain files r.schema expression).map fun chain => (chainReport chain).text r.format
  | .check path => (loadStore files r.schema path).map fun s => (storeReport s).text r.format
  | .mint count => (mint count .fresh).map ofLines
  | .verify id =>
      if Identifier.isEffective id then .ok (ofLines [id ++ " is valid"])
      else .error (.notValid id)

/-- How a run ends: the exit code, and what it wrote as its result and as complaints. -/
structure Ending where
  code : UInt32 := 0
  output : String := ""
  complaints : String := ""
  deriving Repr, DecidableEq

/-- The ending of a run that does no task. -/
def Interruption.ending (environment : Option String) : Interruption → Ending
  | .help topic => { output := topic.text environment }
  | .version => { output := versionText }
  | .misuse fault => { code := 2, complaints := "error: " ++ fault.message ++ "\n" }

/-- The files that a run needs. -/
def paths (environment : Option String) (words : List String) : List String :=
  match Request.ofArguments environment words with
  | .ok request => request.paths
  | .error _ => []

/-- Run the command on its words. -/
def run (files : Files) (environment : Option String) (words : List String) : Ending :=
  match Request.ofArguments environment words with
  | .error interruption => interruption.ending environment
  | .ok request =>
      match request.output files with
      | .ok output => { output }
      | .error e => { code := 1, complaints := e.text }

end SchemaGraph.Command
