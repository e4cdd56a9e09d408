/-! # Verbs

What the command can be told to do, in the words of its arguments.
-/

namespace SchemaGraph.Command

/-- The word that says what to do. -/
inductive Verb where
  | chain
  | check
  | id
  | verify
  deriving Repr, DecidableEq

namespace Verb

def all : List Verb := [.chain, .check, .id, .verify]

def name : Verb → String
  | .chain => "chain"
  | .check => "check"
  | .id => "id"
  | .verify => "verify"

def ofName? (name : String) : Option Verb := all.find? fun v => v.name = name

def about : Verb → String
  | .chain => "Parse a chain expression and list every concrete alternative"
  | .check => "Load a document into a store and report what it holds"
  | .id => "Mint new identifiers"
  | .verify => "Verify an identifier's check digit"

/-- The operand that the verb asks for, and what it is. -/
def operand? : Verb → Option (String × String)
  | .chain => some ("<EXPRESSION>", "The chain, e.g. \"Person-*>Car\"")
  | .check => some ("<DOCUMENT>", "UXDF document with \"sd\" and \"data\" sections")
  | .id => none
  | .verify => some ("<ID>", "")

end Verb

/-- The word that asks for help and is no verb. -/
def helpWord : String := "help"

def helpAbout : String := "Print this message or the help of the given subcommand(s)"

/-- What help is about. -/
inductive Topic where
  | overview
  | verb (verb : Verb)
  /-- The word for help itself. -/
  | help
  deriving Repr, DecidableEq

/-- The topic that a word behind the word for help names. -/
def Topic.ofName? (name : String) : Option Topic :=
  if name = helpWord then some .help else (Verb.ofName? name).map .verb

end SchemaGraph.Command
