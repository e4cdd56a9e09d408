import Mathlib.Data.List.Basic
import Mathlib.Data.List.InsertIdx
import SchemaGraph.Collections.OrderedMap
import SchemaGraph.Collections.OrderedSet

/-! # Order of arrival after a change

Where entries and members stand after a change of an insertion-ordered map or set. The
main fact, `OrderedMap.entries_putBack`, is about marked entries that are all taken out
and then put back, first places first: each new entry stands where the old one stood.
-/

namespace SchemaGraph

theorem insertIdx_append_length {α : Type} (before after : List α) (a : α) :
    (before ++ after).insertIdx before.length a = before ++ a :: after := by
  induction before with
  | nil => simp
  | cons first rest ih => simpa using ih

theorem pairwise_zipIdx {α : Type} (l : List α) (first : Nat) :
    (l.zipIdx first).Pairwise fun a b => a.2 < b.2 := by
  rw [← List.pairwise_map, List.zipIdx_map_snd]
  exact List.pairwise_lt_range'

namespace Entries

variable {κ ν : Type} [DecidableEq κ]

theorem without_of_absent {key : κ} {entries : List (κ × ν)}
    (absent : key ∉ entries.map Prod.fst) : without key entries = entries := by
  refine List.filter_eq_self.mpr fun entry inside => ?_
  have different : entry.1 ≠ key := fun same => absent (same ▸ List.mem_map_of_mem inside)
  simpa using different

theorem value_unique {entries : List (κ × ν)} (distinct : (entries.map Prod.fst).Nodup) {key : κ}
    {one other : ν} (first : (key, one) ∈ entries) (second : (key, other) ∈ entries) :
    one = other := by
  rw [← find_eq_some_iff distinct] at first second
  rwa [first, Option.some_inj] at second

end Entries

namespace OrderedMap

variable {κ ν μ : Type} [DecidableEq κ]

theorem contains_iff (m : OrderedMap κ ν) (key : κ) :
    m.contains key = true ↔ ∃ value, m.get? key = some value := by
  rw [contains, Option.isSome_iff_exists]

theorem contains_eq_false_iff (m : OrderedMap κ ν) (key : κ) :
    m.contains key = false ↔ key ∉ m.keys := by
  rw [mem_keys_iff, Bool.not_eq_true]

theorem mem_keys_of_get? {m : OrderedMap κ ν} {key : κ} {value : ν}
    (h : m.get? key = some value) : key ∈ m.keys :=
  (m.mem_keys_iff key).mpr ((m.contains_iff key).mpr ⟨value, h⟩)

theorem get?_eq_none_iff (m : OrderedMap κ ν) (key : κ) :
    m.get? key = none ↔ m.contains key = false := by
  simp [contains]

theorem get?_mapValues (f : ν → μ) (m : OrderedMap κ ν) (key : κ) :
    (m.mapValues f).get? key = (m.get? key).map f := by
  change Entries.find key (m.entries.map _) = (Entries.find key m.entries).map f
  generalize m.entries = entries
  induction entries with
  | nil => rfl
  | cons entry rest ih =>
      rw [List.map_cons, Entries.find, Entries.find, ih]
      split <;> rfl

theorem ext_get? {m n : OrderedMap κ ν} (sameKeys : m.keys = n.keys)
    (lookup : ∀ key, m.get? key = n.get? key) : m = n := by
  have listed (l : OrderedMap κ ν) : l.entries =
      l.keys.filterMap fun key => (l.get? key).map fun value => (key, value) := by
    rw [keys, List.filterMap_map]
    refine List.filterMap_some.symm.trans (List.filterMap_congr fun entry inside => ?_)
    have held := (l.get?_eq_some_iff entry.1 entry.2).mpr inside
    simp only [Function.comp_apply, held, Option.map_some]
  apply ext_entries
  rw [listed m, listed n, sameKeys]
  exact List.filterMap_congr fun key _ => by rw [lookup key]

theorem erase_of_absent {m : OrderedMap κ ν} {key : κ} (absent : m.contains key = false) :
    m.erase key = m :=
  ext_entries (Entries.without_of_absent ((m.contains_eq_false_iff key).mp absent))

theorem keys_erase (m : OrderedMap κ ν) (key : κ) :
    (m.erase key).keys = m.keys.filter (· ≠ key) := by
  simp only [keys, erase, Entries.without, List.filter_map, Function.comp_def]

theorem entries_insert_of_absent {m : OrderedMap κ ν} {key : κ} (value : ν)
    (absent : m.contains key = false) : (m.insert key value).entries = m.entries ++ [(key, value)] := by
  have fresh : key ∉ m.entries.map Prod.fst := (m.contains_eq_false_iff key).mp absent
  change putEntry key value m.entries = _
  generalize m.entries = entries at fresh
  induction entries with
  | nil => rfl
  | cons entry rest ih =>
      simp only [List.map_cons, List.mem_cons, not_or] at fresh
      simp only [putEntry, Ne.symm fresh.1, if_false, ih fresh.2, List.cons_append]

theorem entries_insertAt_of_absent {m : OrderedMap κ ν} {place : Nat} {key : κ} (value : ν)
    (absent : m.contains key = false) (inside : place ≤ m.entries.length) :
    (m.insertAt place key value).entries = m.entries.insertIdx place (key, value) := by
  simp only [insertAt, erase_of_absent absent, Nat.min_eq_left inside]

theorem mem_entries_insertAt {m : OrderedMap κ ν} {place : Nat} {key : κ} {value : ν}
    {entry : κ × ν} : entry ∈ (m.insertAt place key value).entries ↔
      entry = (key, value) ∨ entry ∈ m.entries ∧ entry.1 ≠ key := by
  have inside : min place (m.erase key).entries.length ≤ (m.erase key).entries.length :=
    Nat.min_le_right _ _
  rw [insertAt, (List.perm_insertIdx _ _ inside).mem_iff, List.mem_cons]
  simp [erase, Entries.without]

@[simp] theorem get?_insertAt (m : OrderedMap κ ν) (place : Nat) (key other : κ) (value : ν) :
    (m.insertAt place key value).get? other =
      if other = key then some value else m.get? other := by
  apply Option.ext
  intro found
  rw [get?_eq_some_iff, mem_entries_insertAt]
  by_cases same : other = key
  · simp [same, eq_comm]
  · simp [same, get?_eq_some_iff]

theorem mem_keys_insertAt {m : OrderedMap κ ν} {place : Nat} {key other : κ} {value : ν} :
    other ∈ (m.insertAt place key value).keys ↔ other = key ∨ other ∈ m.keys := by
  simp only [mem_keys_iff, contains, get?_insertAt]
  split <;> simp [*]

theorem indexOf?_eq_some_iff {m : OrderedMap κ ν} {key : κ} {place : Nat} {value : ν}
    (held : m.get? key = some value) :
    m.indexOf? key = some place ↔ m.entries[place]? = some (key, value) := by
  rw [indexOf?, List.idxOf?_eq_some_iff, List.getElem?_eq_some_iff]
  constructor
  · rintro ⟨inside, here, _⟩
    have listed : place < m.entries.length := by simpa [keys] using inside
    have sameKey : m.entries[place].1 = key := by simpa [keys] using here
    have found : m.get? m.entries[place].1 = some m.entries[place].2 :=
      (m.get?_eq_some_iff _ _).mpr (List.getElem_mem listed)
    rw [sameKey, held, Option.some_inj] at found
    exact ⟨listed, Prod.ext sameKey found.symm⟩
  · rintro ⟨listed, here⟩
    have inside : place < m.keys.length := by simpa [keys] using listed
    have sameKey : m.keys[place] = key := by simp [keys, here]
    refine ⟨inside, sameKey, fun other earlier otherKey => ?_⟩
    have distinct : m.keys.Nodup := m.distinct
    have samePlace : other = place :=
      (List.getElem_inj distinct).mp (otherKey.trans sameKey.symm)
    exact absurd samePlace (Nat.ne_of_lt earlier)

theorem isSome_indexOf? (m : OrderedMap κ ν) (key : κ) :
    (m.indexOf? key).isSome = m.contains key := by
  rw [Bool.eq_iff_iff, indexOf?, List.isSome_idxOf?, mem_keys_iff]

/-- An entry at the place of a held key stands for the entry under that key. -/
theorem entries_erase_insertAt {m : OrderedMap κ ν} {key new : κ} {place : Nat} {old value : ν}
    (held : m.get? key = some old) (placed : m.indexOf? key = some place)
    (fresh : new = key ∨ m.contains new = false) :
    ((m.erase key).insertAt place new value).entries =
      m.entries.map fun entry => if entry.1 = key then (new, value) else entry := by
  obtain ⟨inside, here⟩ := List.getElem?_eq_some_iff.mp ((indexOf?_eq_some_iff held).mp placed)
  have split : m.entries = m.entries.take place ++ (key, old) :: m.entries.drop (place + 1) := by
    rw [← here, List.getElem_cons_drop, List.take_append_drop]
  have size : (m.entries.take place).length = place := List.length_take_of_le (Nat.le_of_lt inside)
  generalize m.entries.take place = before at split size
  generalize m.entries.drop (place + 1) = after at split
  have distinct := m.distinct
  rw [split, List.map_append, List.map_cons, List.nodup_append, List.nodup_cons] at distinct
  have notBefore : ∀ entry ∈ before, entry.1 ≠ key := fun entry inside =>
    distinct.2.2 _ (List.mem_map_of_mem inside) _ (by simp)
  have notAfter : ∀ entry ∈ after, entry.1 ≠ key := fun entry inside same =>
    distinct.2.1.1 (List.mem_map.mpr ⟨entry, inside, same⟩)
  have others : (m.erase key).entries = before ++ after := by
    change m.entries.filter _ = _
    rw [split, List.filter_append, List.filter_cons, if_neg (by simp),
      List.filter_eq_self.mpr (fun entry inside => decide_eq_true (notBefore entry inside)),
      List.filter_eq_self.mpr (fun entry inside => decide_eq_true (notAfter entry inside))]
  have absent : (m.erase key).contains new = false := by
    rw [← get?_eq_none_iff, get?_erase]
    rcases fresh with same | absent
    · rw [if_pos same]
    · rw [(m.get?_eq_none_iff new).mpr absent, ite_self]
  have unchanged {part : List (κ × ν)} (apart : ∀ entry ∈ part, entry.1 ≠ key) :
      (part.map fun entry => if entry.1 = key then (new, value) else entry) = part :=
    (List.map_congr_left fun entry inside => if_neg (apart entry inside)).trans (List.map_id part)
  rw [entries_insertAt_of_absent value absent (by simp [others, ← size]), others, ← size,
    insertIdx_append_length, split, List.map_append, List.map_cons, if_pos rfl,
    unchanged notBefore, unchanged notAfter]

/-- Marked entries that were taken out, and whose places the list `entries` still shows, are
    put back in new form, each where its old form stood. -/
theorem entries_putBack (marked : κ × ν → Bool) (renew : κ × ν → κ × ν)
    (entries : List (κ × ν)) : ∀ (before : List (κ × ν)) (m : OrderedMap κ ν),
    m.entries = before ++ entries.filter (fun entry => !marked entry) →
    ((before ++ entries.map fun entry => if marked entry then renew entry else entry).map
      Prod.fst).Nodup →
    (((entries.zipIdx before.length).filter fun entry => marked entry.1).foldl
      (fun m entry => m.insertAt entry.2 (renew entry.1).1 (renew entry.1).2) m).entries =
      before ++ entries.map fun entry => if marked entry then renew entry else entry := by
  induction entries with
  | nil => intro before m start _; simpa using start
  | cons entry rest ih =>
      intro before m start distinct
      have shift (new : κ × ν) (after : List (κ × ν)) :
          before ++ new :: after = (before ++ [new]) ++ after := by simp
      by_cases mark : marked entry
      · -- the new form goes between what was before and the unmarked rest
        simp only [List.zipIdx_cons, List.filter_cons, List.map_cons, mark, if_true,
          Bool.not_true, Bool.false_eq_true, if_false, List.foldl_cons] at start distinct ⊢
        have absent : m.contains (renew entry).1 = false := by
          rw [contains_eq_false_iff, keys, start]
          intro inside
          rw [List.map_append, List.nodup_append] at distinct
          rcases List.mem_append.mp (List.map_append ▸ inside) with earlier | later
          · exact distinct.2.2 _ earlier _ (by simp) rfl
          · obtain ⟨other, unmarked, sameKey⟩ := List.mem_map.mp later
            obtain ⟨listed, notMarked⟩ := List.mem_filter.mp unmarked
            have fresh := (List.nodup_cons.mp (List.map_cons ▸ distinct.2.1)).1
            refine fresh (List.mem_map.mpr ⟨other, List.mem_map.mpr ⟨other, listed, ?_⟩, sameKey⟩)
            rw [if_neg (by simpa using notMarked)]
        have put : (m.insertAt before.length (renew entry).1 (renew entry).2).entries =
            (before ++ [renew entry]) ++ rest.filter fun entry => !marked entry := by
          rw [entries_insertAt_of_absent _ absent (by simp [start]), start,
            insertIdx_append_length, shift]
        rw [shift] at distinct ⊢
        simpa using ih (before ++ [renew entry]) _ put distinct
      · simp only [List.zipIdx_cons, List.filter_cons, List.map_cons, mark, Bool.not_false,
          if_true, Bool.false_eq_true, if_false] at start distinct ⊢
        rw [shift] at start distinct ⊢
        simpa using ih (before ++ [entry]) m start distinct

end OrderedMap

namespace OrderedSet

variable {α : Type} [DecidableEq α]

theorem erase_of_absent {s : OrderedSet α} {a : α} (absent : a ∉ s) : s.erase a = s := by
  refine ext_members (List.filter_eq_self.mpr fun b inside => ?_)
  have different : b ≠ a := fun same => absent (same ▸ inside)
  simpa using different

theorem insert_of_mem {s : OrderedSet α} {a : α} (held : a ∈ s) : s.insert a = s :=
  dif_pos held

theorem members_insert_of_absent {s : OrderedSet α} {a : α} (absent : a ∉ s) :
    (s.insert a).members = s.members ++ [a] := by
  rw [mem_def] at absent
  simp [insert, absent]

omit [DecidableEq α] in
theorem isEmpty_iff {s : OrderedSet α} : s.isEmpty = true ↔ s.members = [] := by
  simp [isEmpty]

@[simp] theorem mem_replace {s : OrderedSet α} {old new a : α} :
    a ∈ s.replace old new ↔ a ∈ s ∧ a ≠ old ∨ a = new := by
  rw [replace]
  split
  · simp
  · rename_i absent
    have notHeld : old ∉ s := List.idxOf?_eq_none_iff.mp absent
    have different : a ∈ s → a ≠ old := fun inside same => notHeld (same ▸ inside)
    rw [mem_insert, and_iff_left_of_imp different]

/-- A new member takes exactly the place of the old one. -/
theorem members_replace {s : OrderedSet α} {old new : α} (held : old ∈ s)
    (fresh : new ∈ s → new = old) :
    (s.replace old new).members = s.members.map fun a => if a = old then new else a := by
  obtain ⟨before, after, split, notBefore⟩ := List.eq_append_cons_of_mem (mem_def.mp held)
  have distinct := s.distinct
  rw [split, List.nodup_append, List.nodup_cons] at distinct
  have notAfter : old ∉ after := distinct.2.1.1
  have kept {part : List α} (absent : old ∉ part) : part.filter (· ≠ old) = part :=
    List.filter_eq_self.mpr fun a inside =>
      decide_eq_true (p := a ≠ old) fun same => absent (same ▸ inside)
  have unchanged {part : List α} (absent : old ∉ part) :
      (part.map fun a => if a = old then new else a) = part := by
    refine (List.map_congr_left fun a inside => ?_).trans (List.map_id part)
    have different : a ≠ old := fun same => absent (same ▸ inside)
    exact if_neg different
  have others : (s.erase old).members = before ++ after := by
    simp only [erase, split, List.filter_append, List.filter_cons, kept notBefore, kept notAfter]
    simp
  have unheld : new ∉ s.erase old := fun inside =>
    (mem_erase.mp inside).2 (fresh (mem_erase.mp inside).1)
  have place : s.members.idxOf? old = some before.length := by
    rw [split, List.idxOf?_eq_some_iff]
    refine ⟨by simp, by simp, fun other earlier here => notBefore ?_⟩
    rw [List.getElem_append_left earlier] at here
    exact here ▸ List.getElem_mem earlier
  rw [replace, place]
  simp only [insertAt, erase_of_absent unheld, others, List.length_append]
  rw [Nat.min_eq_left (Nat.le_add_right ..), insertIdx_append_length, split, List.map_append,
    List.map_cons, if_pos rfl, unchanged notBefore, unchanged notAfter]

end OrderedSet

end SchemaGraph
