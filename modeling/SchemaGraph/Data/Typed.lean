import SchemaGraph.Data.Format
import SchemaGraph.Data.Plain
import SchemaGraph.Collections.OrderedMap
import SchemaGraph.Collections.SortedMap

/-! # Typed reading

What a tree says when a certain type is wanted of it. A scalar without quotes serves as a
text whatever it looks like; a record is a map of its fields, with defaults for missing ones.
-/

namespace SchemaGraph.Data.Tree

def asText? : Tree → Option String
  | .text value => some value
  | .plain value => some value
  | _ => none

def asBool? : Tree → Option Bool
  | .bool value => some value
  | .plain value => Plain.bool? value
  | _ => none

/-- Nothing, or a value read by `read`. -/
def asOptional? {α : Type} (read : Tree → Option α) : Tree → Option (Option α)
  | .null => some none
  | .plain value => if Plain.isNull value then some none else (read (.plain value)).map some
  | t => (read t).map some

/-- The items of a list; a place left empty is an empty list. -/
def asList? : Tree → Option (List Tree)
  | .list items => some items
  | .plain "" => some []
  | _ => none

/-- The entries of a map; a place left empty is an empty map. -/
def asMap? : Tree → Option (List (Tree × Tree))
  | .map entries => some entries
  | .plain "" => some []
  | _ => none

/-- The texts of a list. -/
def asTexts? (t : Tree) : Option (List String) := do (← t.asList?).mapM asText?

/-- Entries with their keys as texts and their values as `read` has them. -/
def readEntries? {α : Type} (read : Tree → Option α) (entries : List (Tree × Tree)) :
    Option (List (String × α)) :=
  entries.mapM fun entry => do return (← entry.1.asText?, ← read entry.2)

/-- A map from texts, sorted; the last value of a repeated key counts. -/
def asSorted? {α : Type} (read : Tree → Option α) (t : Tree) : Option (SortedMap String α) := do
  return SortedMap.ofList (← readEntries? read (← t.asMap?))

/-- A map from texts in the order of the keys; the last value of a repeated key counts. -/
def asOrdered? {α : Type} (read : Tree → Option α) (t : Tree) : Option (OrderedMap String α) := do
  return OrderedMap.ofList (← readEntries? read (← t.asMap?))

/-- The entries of a map whose keys say one of `names`, and none if one of these is
    repeated. -/
def fieldsAmong? (readKey : Tree → Option String) (names : List String) :
    List (Tree × Tree) → Option (List (String × Tree))
  | [] => some []
  | (key, value) :: rest => do
      let name ← readKey key
      let fields ← fieldsAmong? readKey names rest
      if name ∈ names then
        if name ∈ fields.map Prod.fst then none else return (name, value) :: fields
      else return fields

/-- The fields of a record that is given as a list of values in order. -/
def fieldsInOrder? (names : List String) (items : List Tree) : Option (List (String × Tree)) :=
  if items.length ≤ names.length then some (names.zip items) else none

/-- The fields of a record that are there. In JSON a list of them in order will do, and in YAML
    a place left empty. -/
def asRecord? (format : Format) (names : List String) : Tree → Option (List (String × Tree))
  | .map entries => fieldsAmong? asText? names entries
  | .list items => if format = .json then fieldsInOrder? names items else none
  | .plain "" => some []
  | _ => none

/-- The name that a key says: a text says itself, and an integer without quotes the one of
    `names` at its place, which is the empty name beyond them. -/
def asNameAmong? (names : List String) : Tree → Option String
  | .text name => some name
  | .plain value =>
      match Plain.place? value, Plain.resolve value with
      | some place, _ => some (names[place]?.getD "")
      | none, .text name => some name
      | none, _ => none
  | _ => none

/-- The fields that are there of a record within an entity, by name or by place or as a list. -/
def asInnerRecord? (names : List String) : Tree → Option (List (String × Tree))
  | .map entries => fieldsAmong? (asNameAmong? names) names entries
  | .list items => fieldsInOrder? names items
  | _ => none

/-- Read one field of a record, with a default for a missing one. -/
def field? {α : Type} (fields : List (String × Tree)) (name : String) (missing : α)
    (read : Tree → Option α) : Option α :=
  match Entries.find name fields with
  | none => some missing
  | some t => read t

/-- Whether the tree may stand below `above` lists and maps. -/
def fitsBelow (format : Format) (above : Nat) (t : Tree) : Bool :=
  above + t.depth ≤ format.depthLimit

end SchemaGraph.Data.Tree
