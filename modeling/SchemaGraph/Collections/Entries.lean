/-! # Lists of entries

What ordered and sorted maps share: looking up and removing the entries of a key in a
plain list of pairs.
-/

namespace SchemaGraph.Entries

variable {κ ν : Type} [DecidableEq κ]

/-- The value of the first entry with the given key. -/
def find (key : κ) : List (κ × ν) → Option ν
  | [] => none
  | entry :: rest => if entry.1 = key then some entry.2 else find key rest

/-- The entries with other keys. -/
def without (key : κ) (entries : List (κ × ν)) : List (κ × ν) :=
  entries.filter fun entry => entry.1 ≠ key

theorem find_without (key other : κ) (entries : List (κ × ν)) :
    find other (without key entries) = if other = key then none else find other entries := by
  induction entries with
  | nil => simp [without, find]
  | cons entry rest ih => grind [without, find]

theorem isSome_find (key : κ) (entries : List (κ × ν)) :
    (find key entries).isSome = true ↔ key ∈ entries.map Prod.fst := by
  induction entries with
  | nil => simp [find]
  | cons entry rest ih => grind [find]

theorem without_sublist (key : κ) (entries : List (κ × ν)) :
    (without key entries).Sublist entries :=
  List.filter_sublist

theorem not_mem_keys_without (key : κ) (entries : List (κ × ν)) :
    key ∉ (without key entries).map Prod.fst := by
  simp [without]

/-- With pairwise different keys, looking up finds exactly the listed entries. -/
theorem find_eq_some_iff {entries : List (κ × ν)} (distinct : (entries.map Prod.fst).Nodup)
    (key : κ) (value : ν) : find key entries = some value ↔ (key, value) ∈ entries := by
  induction entries with
  | nil => simp [find]
  | cons entry rest ih =>
      obtain ⟨fresh, distinct⟩ := List.nodup_cons.mp distinct
      have held : (entry.1, value) ∈ rest → entry.1 ∈ rest.map Prod.fst := fun h =>
        List.mem_map.mpr ⟨_, h, rfl⟩
      grind [find]

end SchemaGraph.Entries
