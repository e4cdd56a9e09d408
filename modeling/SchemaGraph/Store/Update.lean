import SchemaGraph.Store.Contents

/-! # Replacing in place

An update lets an entity take the place of another one of its type. When the logic
identifier of a node changes by it, all events at the node are pointed to the new one, and
get other logic identifiers themselves. All checks come before the first change.
-/

namespace SchemaGraph.Store

/-! ## Events -/

/-- Let the target take the place of an event in the order, in its group and at its ends. -/
def applyEventUpdate (s : Store) (sourceKey : String) (r : Shelf.Replacement Event) : Store :=
  let parted := r.source.endKeys.foldl (fun a node => a.unlink node sourceKey) s.adjacency
  { s with
    events := s.events.replace sourceKey r
    groups := match r.source.core.typeName with
      | some typeName => s.groups.refile typeName sourceKey r.key
      | none => s.groups
    adjacency := r.target.endKeys.foldl (fun a node => a.link node r.key) parted }

/-- Replace an event; the answer is the event as it is now stored. -/
def updateEvent (c : Catalog) (s : Store) (sourceKey sourceId : String) (target : Event) :
    Answered Event :=
  match s.events.replacement c sourceKey sourceId target with
  | .error e => (.error e, s)
  | .ok r =>
      let r := { r with target := r.target.withMembership c }
      (.ok r.target, s.applyEventUpdate sourceKey r)

/-! ## Nodes -/

/-- An event at a node that gets a new identity. -/
structure Move where
  place : Nat
  oldKey : String
  old : Event
  key : String
  event : Event

/-- Point an event's ends from a node to the one that replaces it. -/
def repoint (sourceKey : String) (target : Node) (e : Event) : Event :=
  let e := if e.leftKey? = some sourceKey then e.setLeft (.ofNode target) else e
  if e.rightKey? = some sourceKey then e.setRight (.ofNode target) else e

/-- The move of one event, if neither its new logic identifier nor its new fingerprint is
    taken by an event that stays, nor the fingerprint by one that was `planned` before. -/
def planMove (c : Catalog) (s : Store) (sourceKey : String) (target : Node)
    (moving : OrderedSet String) (planned : List String) (place : Nat) (oldKey : String)
    (old : Event) : Except StoreError Move := do
  let event := repoint sourceKey target old
  let key ← (Entity.logicId event).mapError .entity
  if s.events.contains key && !decide (key ∈ moving) then throw (.update (.targetExists key))
  let event ← (Entity.stamped c event).mapError .entity
  match Entity.fingerprint event with
  | none => return ⟨place, oldKey, old, key, event⟩
  | some fingerprint =>
      match (s.events.holders.get? fingerprint).filter fun holder => decide (holder ∉ moving) with
      | some holder => throw (.uniqueness (Entity.kind event) fingerprint holder key)
      | none =>
          if fingerprint ∈ planned then
            throw (.uniqueness (Entity.kind event) fingerprint oldKey key)
          else return ⟨place, oldKey, old, key, event⟩

/-- The moves of the events under the given logic identifiers, as far as they are held. -/
def planMoves (c : Catalog) (s : Store) (sourceKey : String) (target : Node)
    (moving : OrderedSet String) (planned : List String) :
    List String → Except StoreError (List Move)
  | [] => .ok []
  | oldKey :: rest =>
      match s.events.entries.indexOf? oldKey, s.events.get? oldKey with
      | some place, some old => do
          let move ← s.planMove c sourceKey target moving planned place oldKey old
          let planned := (Entity.fingerprint move.event).toList ++ planned
          let moves ← s.planMoves c sourceKey target moving planned rest
          return move :: moves
      | _, _ => s.planMoves c sourceKey target moving planned rest

/-- Take a moving event off its shelf, and let its new logic identifier take the place of
    the old one in its group and at the end that stays. -/
def pullMove (sourceKey : String) (s : Store) (m : Move) : Store :=
  { s with
    events := (s.events.remove m.oldKey).2
    groups := match m.old.core.typeName with
      | some typeName => s.groups.refile typeName m.oldKey m.key
      | none => s.groups
    adjacency := (m.old.endKeys.filter (· ≠ sourceKey)).foldl
      (fun a node => a.relink node m.oldKey m.key) s.adjacency }

/-- Carry out the moves: pull out every event before the first comes back, so that no new
    logic identifier meets an old one that is about to go. -/
def applyMoves (s : Store) (sourceKey targetKey : String) (moves : List Move) : Store :=
  let moves := moves.mergeSort fun a b => decide (a.place ≤ b.place)
  let s := { s with adjacency := s.adjacency.erase sourceKey }
  let s := moves.reverse.foldl (pullMove sourceKey) s
  let incident := moves.foldl (fun events m => events.insert m.key) (s.adjacency.eventsAt targetKey)
  { s with
    events := moves.foldl (fun events m => events.putAt m.place m.key m.event) s.events
    adjacency := s.adjacency.insert targetKey incident }

/-- Replace a node; the answer is the node as it is now stored. -/
def updateNode (c : Catalog) (s : Store) (sourceKey sourceId : String) (target : Node) :
    Answered Node :=
  match s.nodes.replacement c sourceKey sourceId target with
  | .error e => (.error e, s)
  | .ok r =>
      let renamed := { s with nodes := s.nodes.replace sourceKey r }
      if r.key = sourceKey then (.ok r.target, renamed)
      else
        let moving := s.adjacency.eventsAt sourceKey
        match s.planMoves c sourceKey r.target moving [] moving.members with
        | .error e => (.error e, s)
        | .ok moves => (.ok r.target, renamed.applyMoves sourceKey r.key moves)

end SchemaGraph.Store
