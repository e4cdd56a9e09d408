import SchemaGraph.Collections.SortedMap
import SchemaGraph.Proofs.Collections.Order

/-! # Maps written entry by entry

Entries under different keys that are written one after the other can all be looked up. So a map
is made of its entries, and a sorted one does not show in which order they were written.
-/

namespace SchemaGraph

/-- What is looked up after writes under different keys is what was written under the key, or
    what was there before. -/
theorem look_foldl_iff {σ α κ ν : Type} {look : σ → κ → Option ν} {put : σ → α → σ} {key : α → κ}
    (value : α → ν) [DecidableEq κ]
    (written : ∀ s a k, look (put s a) k = if k = key a then some (value a) else look s k)
    {items : List α} (distinct : (items.map key).Nodup) (s : σ) (k : κ) (v : ν) :
    look (items.foldl put s) k = some v ↔ (∃ a ∈ items, key a = k ∧ value a = v) ∨
      k ∉ items.map key ∧ look s k = some v := by
  induction items generalizing s with
  | nil => simp
  | cons a rest ih =>
      obtain ⟨fresh, distinct⟩ := List.nodup_cons.mp distinct
      rw [List.foldl_cons, ih distinct, written]
      by_cases same : k = key a
      · subst same
        have absent : ∀ b ∈ rest, key b ≠ key a := fun b inside same =>
          fresh (List.mem_map.mpr ⟨b, inside, same⟩)
        have notLater : ¬ ∃ b ∈ rest, key b = key a ∧ value b = v := fun ⟨b, inside, same, _⟩ =>
          absent b inside same
        simp [fresh, notLater]
      · simp [same, Ne.symm same]

namespace OrderedMap

variable {κ ν : Type} [DecidableEq κ]

theorem entries_foldl_insert {m : OrderedMap κ ν} {pairs : List (κ × ν)}
    (distinct : ((m.entries ++ pairs).map Prod.fst).Nodup) :
    (pairs.foldl (fun m pair => m.insert pair.1 pair.2) m).entries = m.entries ++ pairs := by
  induction pairs generalizing m with
  | nil => exact (List.append_nil _).symm
  | cons pair rest ih =>
      have absent : m.contains pair.1 = false := by
        rw [contains_eq_false_iff]
        intro inside
        rw [List.map_append, List.nodup_append] at distinct
        exact distinct.2.2 _ inside _ List.mem_cons_self rfl
      have written : m.entries ++ pair :: rest = (m.insert pair.1 pair.2).entries ++ rest := by
        rw [entries_insert_of_absent pair.2 absent, List.append_assoc, List.singleton_append]
      rw [written] at distinct ⊢
      exact ih distinct

theorem ofList_entries (m : OrderedMap κ ν) : ofList m.entries = m := by
  apply ext_entries
  exact entries_foldl_insert m.distinct

theorem get?_insertAll (m other : OrderedMap κ ν) (key : κ) :
    (m.insertAll other).get? key = (other.get? key).or (m.get? key) := by
  apply Option.ext
  intro value
  unfold insertAll
  rw [look_foldl_iff Prod.snd (fun m entry k => get?_insert m entry.1 k entry.2)
    other.distinct, Option.or_eq_some_iff, other.get?_eq_some_iff, other.get?_eq_none_iff,
    other.contains_eq_false_iff, keys]
  have written : (∃ entry ∈ other.entries, entry.1 = key ∧ entry.2 = value) ↔
      (key, value) ∈ other.entries := by
    constructor
    · rintro ⟨entry, inside, rfl, rfl⟩
      exact inside
    · intro inside
      exact ⟨(key, value), inside, rfl, rfl⟩
  rw [written]

theorem keys_foldl_insert {pairs : List (κ × ν)} (distinct : (pairs.map Prod.fst).Nodup)
    (m : OrderedMap κ ν) :
    (pairs.foldl (fun m pair => m.insert pair.1 pair.2) m).keys =
      m.keys ++ (pairs.map Prod.fst).filter (· ∉ m.keys) := by
  induction pairs generalizing m with
  | nil => exact (List.append_nil _).symm
  | cons pair rest ih =>
      obtain ⟨fresh, distinct⟩ := List.nodup_cons.mp (List.map_cons ▸ distinct)
      rw [List.foldl_cons, ih distinct, keys_insert, List.map_cons]
      by_cases held : pair.1 ∈ m.keys
      · simp [held]
      · -- the key of the pair is new, and none of the rest
        have others : (rest.map Prod.fst).filter (· ∉ m.keys ++ [pair.1]) =
            (rest.map Prod.fst).filter (· ∉ m.keys) := by
          refine List.filter_congr fun key inside => ?_
          have different : key ≠ pair.1 := fun same => fresh (same ▸ inside)
          simp [different]
        rw [if_neg held, others, List.filter_cons, if_pos (by simpa using held),
          List.append_assoc, List.singleton_append]

theorem keys_insertAll (m other : OrderedMap κ ν) :
    (m.insertAll other).keys = m.keys ++ other.keys.filter (· ∉ m.keys) :=
  keys_foldl_insert other.distinct m

/-- What is written last is found first, whichever maps are put together before. -/
theorem insertAll_assoc (m n o : OrderedMap κ ν) :
    (m.insertAll n).insertAll o = m.insertAll (n.insertAll o) := by
  apply ext_get?
  · simp only [keys_insertAll, List.filter_append, List.append_assoc, List.filter_filter]
    congr 2
    refine List.filter_congr fun key _ => ?_
    by_cases inFirst : key ∈ m.keys <;> by_cases inSecond : key ∈ n.keys <;>
      simp [inFirst, inSecond]
  · intro key
    simp only [get?_insertAll, Option.or_assoc]

theorem insertAll_again (m n : OrderedMap κ ν) :
    (m.insertAll n).insertAll n = m.insertAll n := by
  apply ext_get?
  · have nothingNew : n.keys.filter (· ∉ (m.insertAll n).keys) = [] := by
      refine List.filter_eq_nil_iff.mpr fun key inside => ?_
      rw [keys_insertAll]
      by_cases held : key ∈ m.keys <;> simp [held, inside]
    rw [keys_insertAll, nothingNew, List.append_nil]
  · intro key
    simp only [get?_insertAll]
    cases n.get? key <;> rfl

end OrderedMap

namespace SortedMap

variable {κ ν : Type} [Ord κ] [DecidableEq κ] [Std.TransOrd κ] [Std.LawfulEqOrd κ]

theorem ofList_entries (m : SortedMap κ ν) : ofList m.entries = m := by
  apply ext_get?
  intro key
  apply Option.ext
  intro value
  unfold ofList
  rw [look_foldl_iff Prod.snd (fun m pair k => get?_insert m pair.1 k pair.2)
    m.keys_distinct, m.get?_eq_some_iff]
  constructor
  · rintro (⟨entry, inside, rfl, rfl⟩ | ⟨_, none⟩)
    · exact inside
    · cases none
  · intro inside
    exact Or.inl ⟨(key, value), inside, rfl, rfl⟩

omit [Std.TransOrd κ] in
theorem get?_filter (keep : ν → Bool) (m : SortedMap κ ν) (key : κ) (value : ν) :
    (m.filter keep).get? key = some value ↔ m.get? key = some value ∧ keep value = true := by
  rw [get?_eq_some_iff, get?_eq_some_iff, filter, List.mem_filter]

/-! ## Filed items -/

variable {α : Type} {key : α → κ} {value : α → ν} {items others : List α}

/-- Items one after the other, each under a key and as a value of its own. -/
def filed (key : α → κ) (value : α → ν) (items : List α) : SortedMap κ ν :=
  items.foldl (fun m a => m.insert (key a) (value a)) .empty

theorem get?_filed (distinct : (items.map key).Nodup) (k : κ) (v : ν) :
    (filed key value items).get? k = some v ↔ ∃ a ∈ items, key a = k ∧ value a = v := by
  rw [filed, look_foldl_iff value (fun m a k => m.get?_insert (key a) k (value a)) distinct,
    get?_empty]
  simp

theorem contains_filed (distinct : (items.map key).Nodup) (k : κ) :
    (filed key value items).contains k = true ↔ k ∈ items.map key := by
  rw [contains, Option.isSome_iff_exists, List.mem_map]
  simp only [get?_filed distinct]
  constructor
  · rintro ⟨_, a, inside, isKey, _⟩
    exact ⟨a, inside, isKey⟩
  · rintro ⟨a, inside, isKey⟩
    exact ⟨_, a, inside, isKey, rfl⟩

theorem filed_perm (distinct : (items.map key).Nodup) (perm : items.Perm others) :
    filed key value items = filed key value others := by
  have distinctToo : (others.map key).Nodup := (perm.map key).nodup_iff.mp distinct
  refine ext_get? fun k => Option.ext fun v => ?_
  rw [get?_filed distinct, get?_filed distinctToo]
  simp only [perm.mem_iff]

theorem filter_filed (distinct : (items.map key).Nodup) {keep : ν → Bool} {stays : α → Bool}
    (same : ∀ a ∈ items, keep (value a) = stays a) :
    (filed key value items).filter keep = filed key value (items.filter stays) := by
  have distinctToo : ((items.filter stays).map key).Nodup :=
    distinct.sublist (List.filter_sublist.map key)
  refine ext_get? fun k => Option.ext fun v => ?_
  rw [get?_filter, get?_filed distinct, get?_filed distinctToo]
  simp only [List.mem_filter]
  constructor
  · rintro ⟨⟨a, inside, isKey, rfl⟩, kept⟩
    exact ⟨a, ⟨inside, same a inside ▸ kept⟩, isKey, rfl⟩
  · rintro ⟨a, ⟨inside, kept⟩, isKey, rfl⟩
    exact ⟨⟨a, inside, isKey, rfl⟩, (same a inside).symm ▸ kept⟩

theorem erase_filed (distinct : (items.map key).Nodup) (k : κ) :
    (filed key value items).erase k = filed key value (items.filter fun a => key a ≠ k) := by
  have distinctToo : ((items.filter fun a => key a ≠ k).map key).Nodup :=
    distinct.sublist (List.filter_sublist.map key)
  refine ext_get? fun other => Option.ext fun v => ?_
  rw [get?_erase, Option.ite_none_left_eq_some, get?_filed distinct, get?_filed distinctToo]
  simp only [List.mem_filter, decide_eq_true_eq]
  constructor
  · rintro ⟨different, a, inside, rfl, rfl⟩
    exact ⟨a, ⟨inside, different⟩, rfl, rfl⟩
  · rintro ⟨a, ⟨inside, different⟩, rfl, rfl⟩
    exact ⟨different, a, inside, rfl, rfl⟩

end SortedMap

end SchemaGraph
