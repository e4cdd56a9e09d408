import SchemaGraph.Data.Tree
import SchemaGraph.Data.Yaml.Token

/-! # Reading YAML text

The tree of a text with at most one document, in indented and bracketed style, without anchors,
tags and block scalars. Every function takes a count that bounds the depth of its work.
-/

namespace SchemaGraph.Data.Yaml

/-- A place left empty. -/
def nothing : Tree := .plain ""

/-- Where a node stands, which decides on the forms it can have. -/
inductive Place where
  /-- Within brackets, where nothing is laid out by indentation. -/
  | enclosed
  /-- As an item of an indented list, or as the whole document. -/
  | item
  /-- As a key or value in an indented map, where a list may stand at the column of its key. -/
  | entry
  deriving Repr, DecidableEq

mutual
/-- The node that starts with the first token, and the tokens behind it. -/
def node? : Nat → Place → List Token → Option (Tree × List Token)
  | 0, _, _ => none
  | fuel + 1, place, tokens =>
      match tokens with
      | .plain text :: rest => some (.plain text, rest)
      | .quoted text :: rest => some (.text text, rest)
      | .bracket :: rest => do
          let (items, rest) ← enclosedItems? fuel rest
          return (.list items, rest)
      | .brace :: rest => do
          let (entries, rest) ← enclosedEntries? fuel rest
          return (.map entries, rest)
      | .indentedList :: rest => do
          guard (place ≠ .enclosed)
          let (items, rest) ← indentedItems? fuel rest
          return (.list items, rest)
      | .indentedMap :: rest => do
          guard (place ≠ .enclosed)
          let (entries, rest) ← indentedEntries? fuel rest
          return (.map entries, rest)
      | .item :: _ => do
          guard (place = .entry)
          let (items, rest) ← alignedItems? fuel tokens
          return (.list items, rest)
      | _ => none

/-- A node, or a place left empty in front of one of the tokens `ends`. -/
def nodeBefore? : Nat → Place → List Token → List Token → Option (Tree × List Token)
  | 0, _, _, _ => none
  | fuel + 1, place, ends, tokens =>
      if tokens.head?.any ends.contains then some (nothing, tokens) else node? fuel place tokens

/-- The value behind a key, which may be left out with its colon. -/
def value? : Nat → Place → List Token → List Token → Option (Tree × List Token)
  | 0, _, _, _ => none
  | fuel + 1, place, ends, tokens =>
      match tokens with
      | .value :: rest => nodeBefore? fuel place ends rest
      | _ => some (nothing, tokens)

/-- The items of an indented list up to its end. -/
def indentedItems? : Nat → List Token → Option (List Tree × List Token)
  | 0, _ => none
  | fuel + 1, tokens =>
      match tokens with
      | .item :: rest => do
          let (item, rest) ← nodeBefore? fuel .item [.item, .dedent] rest
          let (items, rest) ← indentedItems? fuel rest
          return (item :: items, rest)
      | .dedent :: rest => some ([], rest)
      | _ => none

/-- The items of a list that stands at the column of its key. -/
def alignedItems? : Nat → List Token → Option (List Tree × List Token)
  | 0, _ => none
  | fuel + 1, tokens =>
      match tokens with
      | .item :: rest => do
          let (item, rest) ← nodeBefore? fuel .item [.item, .key, .value, .dedent] rest
          let (items, rest) ← alignedItems? fuel rest
          return (item :: items, rest)
      | _ => some ([], tokens)

/-- The entries of an indented map up to its end. -/
def indentedEntries? : Nat → List Token → Option (List (Tree × Tree) × List Token)
  | 0, _ => none
  | fuel + 1, tokens =>
      match tokens with
      | .key :: rest => do
          let (key, rest) ← nodeBefore? fuel .entry [.key, .value, .dedent] rest
          let (value, rest) ← value? fuel .entry [.key, .value, .dedent] rest
          let (entries, rest) ← indentedEntries? fuel rest
          return ((key, value) :: entries, rest)
      | .dedent :: rest => some ([], rest)
      | _ => none

/-- The items up to the closing bracket; a key with its value is a map of one entry. -/
def enclosedItems? : Nat → List Token → Option (List Tree × List Token)
  | 0, _ => none
  | fuel + 1, tokens =>
      match tokens with
      | .closingBracket :: rest => some ([], rest)
      | _ => do
          let (item, rest) ← match tokens with
            | .key :: rest => do
                let (entry, rest) ← enclosedPair? fuel rest
                pure (Tree.map [entry], rest)
            | _ => node? fuel .enclosed tokens
          match rest with
          | .comma :: rest =>
              let (items, rest) ← enclosedItems? fuel rest
              return (item :: items, rest)
          | .closingBracket :: rest => return ([item], rest)
          | _ => none

/-- A key and its value among the items in brackets. A token that stands in place of the key is
    passed over. -/
def enclosedPair? : Nat → List Token → Option ((Tree × Tree) × List Token)
  | 0, _ => none
  | fuel + 1, tokens => do
      let (key, rest) ← match tokens with
        | .value :: rest => some (nothing, rest)
        | .comma :: rest => some (nothing, rest)
        | .closingBracket :: rest => some (nothing, rest)
        | _ => node? fuel .enclosed tokens
      let (value, rest) ← value? fuel .enclosed [.comma, .closingBracket] rest
      return ((key, value), rest)

/-- The entries up to the closing brace; a key alone has no value. -/
def enclosedEntries? : Nat → List Token → Option (List (Tree × Tree) × List Token)
  | 0, _ => none
  | fuel + 1, tokens =>
      match tokens with
      | .closingBrace :: rest => some ([], rest)
      | _ => do
          let ((key, value), rest) ← match tokens with
            | .key :: rest => do
                let (key, rest) ← nodeBefore? fuel .enclosed [.value, .comma, .closingBrace] rest
                let (value, rest) ← value? fuel .enclosed [.comma, .closingBrace] rest
                pure ((key, value), rest)
            | _ => do
                let (key, rest) ← node? fuel .enclosed tokens
                pure ((key, nothing), rest)
          match rest with
          | .comma :: rest =>
              let (entries, rest) ← enclosedEntries? fuel rest
              return ((key, value) :: entries, rest)
          | .closingBrace :: rest => return ([(key, value)], rest)
          | _ => none
end

/-- The content of the document that the tokens start with, and the tokens behind it. -/
def document? (fuel : Nat) : List Token → Option (Tree × List Token)
  | [] => some (nothing, [])
  | [.opening] => some (nothing, [])
  | .opening :: rest => nodeBefore? fuel .item [.opening, .closing] rest
  | tokens => node? fuel .item tokens

/-- The tree of a whole text, which may end in any number of closing marks. -/
def read? (text : String) : Option Tree := do
  let tokens ← Token.ofText? text
  let (t, rest) ← document? (3 * tokens.length + 3) tokens
  if rest.all (· = .closing) then return t else none

end SchemaGraph.Data.Yaml
