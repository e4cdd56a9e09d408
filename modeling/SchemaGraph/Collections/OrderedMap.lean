import SchemaGraph.Collections.Entries

/-! # Insertion-ordered maps

A map that lists its entries in the order in which their keys arrived. Writing a
held key keeps its place; a removed key that comes back stands last. Places are
visible, so entries can also be looked up by place and put at a chosen one.
-/

namespace SchemaGraph

/-- Entries with pairwise different keys, in order of arrival. -/
structure OrderedMap (κ ν : Type) where
  entries : List (κ × ν)
  distinct : (entries.map Prod.fst).Nodup
  deriving Repr, DecidableEq

namespace OrderedMap

variable {κ ν μ : Type}

/-- The map without entries. -/
def empty : OrderedMap κ ν := ⟨[], List.nodup_nil⟩

instance : Inhabited (OrderedMap κ ν) := ⟨empty⟩
instance : EmptyCollection (OrderedMap κ ν) := ⟨empty⟩

theorem ext_entries {m n : OrderedMap κ ν} (h : m.entries = n.entries) : m = n := by
  cases m; cases n; cases h; rfl

def keys (m : OrderedMap κ ν) : List κ := m.entries.map Prod.fst

def values (m : OrderedMap κ ν) : List ν := m.entries.map Prod.snd

def size (m : OrderedMap κ ν) : Nat := m.entries.length

def isEmpty (m : OrderedMap κ ν) : Bool := m.entries.isEmpty

/-- Apply `f` to every value, keeping keys and places. -/
def mapValues (f : ν → μ) (m : OrderedMap κ ν) : OrderedMap κ μ :=
  ⟨m.entries.map fun entry => (entry.1, f entry.2), by
    simpa [List.map_map, Function.comp_def] using m.distinct⟩

variable [DecidableEq κ]

def get? (m : OrderedMap κ ν) (key : κ) : Option ν := Entries.find key m.entries

def contains (m : OrderedMap κ ν) (key : κ) : Bool := (m.get? key).isSome

/-- The place of `key` in the order of arrival. -/
def indexOf? (m : OrderedMap κ ν) (key : κ) : Option Nat := m.keys.idxOf? key

/-- Replace the value at `key` in a list of entries, or add the entry at the end. -/
def putEntry (key : κ) (value : ν) : List (κ × ν) → List (κ × ν)
  | [] => [(key, value)]
  | entry :: rest =>
      if entry.1 = key then (key, value) :: rest else entry :: putEntry key value rest

theorem keys_putEntry (key : κ) (value : ν) (entries : List (κ × ν)) :
    (putEntry key value entries).map Prod.fst =
      if key ∈ entries.map Prod.fst then entries.map Prod.fst
      else entries.map Prod.fst ++ [key] := by
  induction entries with
  | nil => simp [putEntry]
  | cons entry rest ih =>
      by_cases same : entry.1 = key
      · simp [putEntry, same]
      · simp only [putEntry, same, if_false, List.map_cons, ih, List.mem_cons,
          show ¬ key = entry.1 from fun h => same h.symm, false_or]
        split <;> simp

/-- Write `value` at `key`: in place when the key is held, else as the last entry. -/
def insert (m : OrderedMap κ ν) (key : κ) (value : ν) : OrderedMap κ ν :=
  ⟨putEntry key value m.entries, by
    rw [keys_putEntry]
    split
    · exact m.distinct
    · rename_i absent
      exact List.nodup_append.mpr ⟨m.distinct, by simp, by
        intro a inside b isKey
        simp only [List.mem_singleton] at isKey
        exact fun same => absent (isKey ▸ same ▸ inside)⟩⟩

/-- Remove the entry at `key`; the later entries move up by one place. -/
def erase (m : OrderedMap κ ν) (key : κ) : OrderedMap κ ν :=
  ⟨Entries.without key m.entries,
    m.distinct.sublist ((Entries.without_sublist key m.entries).map Prod.fst)⟩

/-- Put the entry at the given place among the others, moving it there when its key is held. A
    place beyond them is out of bounds, whether the key is held or not: a running store is aborted
    there, and the map that is given here, with the entry at the end, only makes the function
    total. In a store only an update of a node gets there, and only when two of the events that it
    re-points get one key. -/
def insertAt (m : OrderedMap κ ν) (place : Nat) (key : κ) (value : ν) : OrderedMap κ ν :=
  let others := (m.erase key).entries
  ⟨others.insertIdx (min place others.length) (key, value), by
    have inside : min place others.length ≤ others.length := Nat.min_le_right _ _
    refine ((List.perm_insertIdx (key, value) others inside).map Prod.fst).nodup_iff.mpr ?_
    rw [List.map_cons, List.nodup_cons]
    exact ⟨Entries.not_mem_keys_without key m.entries, (m.erase key).distinct⟩⟩

/-- Write the pairs one after the other into the empty map. -/
def ofList (pairs : List (κ × ν)) : OrderedMap κ ν :=
  pairs.foldl (fun m pair => m.insert pair.1 pair.2) empty

/-- Write the entries of another map in their order. -/
def insertAll (m other : OrderedMap κ ν) : OrderedMap κ ν :=
  other.entries.foldl (fun m entry => m.insert entry.1 entry.2) m

/-! ## Looking up after a change -/

@[simp] theorem get?_empty (key : κ) : (empty : OrderedMap κ ν).get? key = none := rfl

theorem find_putEntry (key other : κ) (value : ν) (entries : List (κ × ν)) :
    Entries.find other (putEntry key value entries) =
      if other = key then some value else Entries.find other entries := by
  induction entries with
  | nil => simp only [putEntry, Entries.find, eq_comm]
  | cons entry rest ih => grind [putEntry, Entries.find]

@[simp] theorem get?_insert (m : OrderedMap κ ν) (key other : κ) (value : ν) :
    (m.insert key value).get? other = if other = key then some value else m.get? other :=
  find_putEntry key other value m.entries

@[simp] theorem get?_erase (m : OrderedMap κ ν) (key other : κ) :
    (m.erase key).get? other = if other = key then none else m.get? other :=
  Entries.find_without key other m.entries

theorem mem_keys_iff (m : OrderedMap κ ν) (key : κ) : key ∈ m.keys ↔ m.contains key = true :=
  (Entries.isSome_find key m.entries).symm

theorem get?_eq_some_iff (m : OrderedMap κ ν) (key : κ) (value : ν) :
    m.get? key = some value ↔ (key, value) ∈ m.entries :=
  Entries.find_eq_some_iff m.distinct key value

/-- A written key keeps its place, a new one comes last. -/
theorem keys_insert (m : OrderedMap κ ν) (key : κ) (value : ν) :
    (m.insert key value).keys = if key ∈ m.keys then m.keys else m.keys ++ [key] :=
  keys_putEntry key value m.entries

end OrderedMap

end SchemaGraph
