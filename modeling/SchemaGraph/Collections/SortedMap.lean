import SchemaGraph.Collections.Entries

/-! # Key-sorted maps

A map that lists its entries in the order of their keys. It has one list for each
content, so two maps with the same values at the same keys are equal.
-/

namespace SchemaGraph

/-- Entries in strictly rising order of their keys. -/
structure SortedMap (κ ν : Type) [Ord κ] where
  entries : List (κ × ν)
  sorted : (entries.map Prod.fst).Pairwise fun a b => compare a b = .lt
  deriving Repr, DecidableEq

namespace SortedMap

variable {κ ν μ : Type} [Ord κ]

/-- The map without entries. -/
def empty : SortedMap κ ν := ⟨[], List.Pairwise.nil⟩

instance : Inhabited (SortedMap κ ν) := ⟨empty⟩
instance : EmptyCollection (SortedMap κ ν) := ⟨empty⟩

theorem ext_entries {m n : SortedMap κ ν} (h : m.entries = n.entries) : m = n := by
  cases m; cases n; cases h; rfl

def keys (m : SortedMap κ ν) : List κ := m.entries.map Prod.fst

def values (m : SortedMap κ ν) : List ν := m.entries.map Prod.snd

def size (m : SortedMap κ ν) : Nat := m.entries.length

def isEmpty (m : SortedMap κ ν) : Bool := m.entries.isEmpty

/-- Apply `f` to every value. -/
def mapValues (f : ν → μ) (m : SortedMap κ ν) : SortedMap κ μ :=
  ⟨m.entries.map fun entry => (entry.1, f entry.2), by
    simpa [List.map_map, Function.comp_def] using m.sorted⟩

/-- Keep the entries whose value passes the test. -/
def filter (keep : ν → Bool) (m : SortedMap κ ν) : SortedMap κ ν :=
  ⟨m.entries.filter fun entry => keep entry.2,
    m.sorted.sublist ((List.filter_sublist).map Prod.fst)⟩

/-- Put an entry in front of the first greater key, replacing an entry of its own key. -/
def putEntry (key : κ) (value : ν) : List (κ × ν) → List (κ × ν)
  | [] => [(key, value)]
  | entry :: rest =>
      match compare key entry.1 with
      | .lt => (key, value) :: entry :: rest
      | .eq => (key, value) :: rest
      | .gt => entry :: putEntry key value rest

theorem mem_keys_putEntry {key other : κ} {value : ν} {entries : List (κ × ν)}
    (h : other ∈ (putEntry key value entries).map Prod.fst) :
    other = key ∨ other ∈ entries.map Prod.fst := by
  induction entries with
  | nil => simpa [putEntry] using h
  | cons entry rest ih =>
      rw [putEntry] at h
      split at h
      · simpa using h
      · simp only [List.map_cons, List.mem_cons] at h ⊢
        exact h.imp_right Or.inr
      · simp only [List.map_cons, List.mem_cons] at h ⊢
        rcases h with same | later
        · exact Or.inr (Or.inl same)
        · exact (ih later).imp_right Or.inr

section

variable [Std.TransOrd κ] [Std.LawfulEqOrd κ]

theorem sorted_putEntry (key : κ) (value : ν) {entries : List (κ × ν)}
    (h : (entries.map Prod.fst).Pairwise fun a b => compare a b = .lt) :
    ((putEntry key value entries).map Prod.fst).Pairwise fun a b => compare a b = .lt := by
  induction entries with
  | nil => simp [putEntry]
  | cons entry rest ih =>
      obtain ⟨below, rising⟩ := List.pairwise_cons.mp h
      rw [putEntry]
      split <;> rename_i order
      · refine List.pairwise_cons.mpr ⟨?_, h⟩
        intro other inside
        rcases List.mem_cons.mp inside with same | later
        · exact same ▸ order
        · exact Std.TransCmp.lt_trans order (below other later)
      · have same : key = entry.1 := Std.compare_eq_iff_eq.mp order
        exact List.pairwise_cons.mpr ⟨fun other inside => same ▸ below other inside, rising⟩
      · refine List.pairwise_cons.mpr ⟨?_, ih rising⟩
        intro other inside
        rcases mem_keys_putEntry inside with same | later
        · exact same ▸ Std.OrientedCmp.lt_of_gt order
        · exact below other later

/-- Write `value` at `key`. -/
def insert (m : SortedMap κ ν) (key : κ) (value : ν) : SortedMap κ ν :=
  ⟨putEntry key value m.entries, sorted_putEntry key value m.sorted⟩

/-- Write the pairs one after the other into the empty map. -/
def ofList (pairs : List (κ × ν)) : SortedMap κ ν :=
  pairs.foldl (fun m pair => m.insert pair.1 pair.2) empty

omit [Std.TransOrd κ] in
theorem keys_distinct (m : SortedMap κ ν) : m.keys.Nodup :=
  m.sorted.imp fun rising same => by simp [same, Std.compare_self] at rising

end

variable [DecidableEq κ]

def get? (m : SortedMap κ ν) (key : κ) : Option ν := Entries.find key m.entries

def contains (m : SortedMap κ ν) (key : κ) : Bool := (m.get? key).isSome

/-- Remove the entry at `key`. -/
def erase (m : SortedMap κ ν) (key : κ) : SortedMap κ ν :=
  ⟨Entries.without key m.entries,
    m.sorted.sublist ((Entries.without_sublist key m.entries).map Prod.fst)⟩

/-! ## Looking up after a change -/

@[simp] theorem get?_empty (key : κ) : (empty : SortedMap κ ν).get? key = none := rfl

@[simp] theorem get?_erase (m : SortedMap κ ν) (key other : κ) :
    (m.erase key).get? other = if other = key then none else m.get? other :=
  Entries.find_without key other m.entries

theorem mem_keys_iff (m : SortedMap κ ν) (key : κ) : key ∈ m.keys ↔ m.contains key = true :=
  (Entries.isSome_find key m.entries).symm

variable [Std.LawfulEqOrd κ]

theorem find_putEntry (key other : κ) (value : ν) (entries : List (κ × ν)) :
    Entries.find other (putEntry key value entries) =
      if other = key then some value else Entries.find other entries := by
  induction entries with
  | nil => simp only [putEntry, Entries.find, eq_comm]
  | cons entry rest ih =>
      have reflexive := Std.compare_self (a := key)
      have equal := Std.compare_eq_iff_eq (a := key) (b := entry.1)
      grind [putEntry, Entries.find]

variable [Std.TransOrd κ]

@[simp] theorem get?_insert (m : SortedMap κ ν) (key other : κ) (value : ν) :
    (m.insert key value).get? other = if other = key then some value else m.get? other :=
  find_putEntry key other value m.entries

omit [Std.TransOrd κ] in
theorem get?_eq_some_iff (m : SortedMap κ ν) (key : κ) (value : ν) :
    m.get? key = some value ↔ (key, value) ∈ m.entries :=
  Entries.find_eq_some_iff m.keys_distinct key value

/-- Maps with the same values at the same keys are equal. -/
theorem ext_get? {m n : SortedMap κ ν} (h : ∀ key, m.get? key = n.get? key) : m = n := by
  apply ext_entries
  have distinct (l : SortedMap κ ν) : l.entries.Nodup :=
    (List.pairwise_map.mp l.keys_distinct).imp fun different same =>
      different (congrArg Prod.fst same)
  have rising (l : SortedMap κ ν) : l.entries.Pairwise fun a b => compare a.1 b.1 = .lt :=
    List.pairwise_map.mp l.sorted
  have antisymmetric : ∀ a b : κ × ν, a ∈ m.entries → b ∈ n.entries →
      compare a.1 b.1 = .lt → compare b.1 a.1 = .lt → a = b :=
    fun a b _ _ below above => absurd above (Std.OrientedCmp.not_lt_of_lt below)
  refine List.Perm.eq_of_pairwise antisymmetric (rising m) (rising n) ?_
  refine (List.perm_ext_iff_of_nodup (distinct m) (distinct n)).mpr fun entry => ?_
  rw [← get?_eq_some_iff m entry.1 entry.2, h, get?_eq_some_iff]

end SortedMap

end SchemaGraph
