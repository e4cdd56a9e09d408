import Mathlib.Data.List.Nodup
import SchemaGraph.Proofs.Store.Contents
import SchemaGraph.Store.Update

/-! # Other keys in the same places

The indices know events by their keys alone. When an event gets another key that is not in
use, its group lists the new key where it listed the old one. The update of a single event
is the first case; an update of a node gives new keys to many events one after the other.
-/

namespace SchemaGraph

/-- The entries with another key for one of them. -/
def rekeyed (old new : String) (entries : List (String × Event)) : List (String × Event) :=
  entries.map fun entry => if entry.1 = old then (new, entry.2) else entry

theorem mem_rekeyed {entries : List (String × Event)} {old new key : String} {e d : Event}
    (distinct : (entries.map Prod.fst).Nodup) (inside : (old, d) ∈ entries) :
    (key, e) ∈ rekeyed old new entries ↔ key = new ∧ e = d ∨ key ≠ old ∧ (key, e) ∈ entries := by
  simp only [rekeyed, List.mem_map]
  constructor
  · rintro ⟨⟨otherKey, other⟩, listed, same⟩
    by_cases isOld : otherKey = old
    · subst isOld
      simp only [if_true, Prod.mk.injEq] at same
      exact Or.inl ⟨same.1.symm, same.2 ▸ Entries.value_unique distinct listed inside⟩
    · simp only [isOld, if_false, Prod.mk.injEq] at same
      obtain ⟨rfl, rfl⟩ := same
      exact Or.inr ⟨isOld, listed⟩
  · rintro (⟨rfl, rfl⟩ | ⟨different, listed⟩)
    · exact ⟨_, inside, by simp⟩
    · exact ⟨_, listed, by simp [different]⟩

theorem keys_rekeyed (old new : String) (entries : List (String × Event)) :
    (rekeyed old new entries).map Prod.fst =
      (entries.map Prod.fst).map fun key => if key = old then new else key := by
  simp only [rekeyed, List.map_map]
  exact List.map_congr_left fun entry _ => by
    simp only [Function.comp_apply]
    split <;> rfl

theorem distinct_rekeyed {entries : List (String × Event)} {old new : String}
    (distinct : (entries.map Prod.fst).Nodup) (fresh : new ∈ entries.map Prod.fst → new = old) :
    ((rekeyed old new entries).map Prod.fst).Nodup := by
  rw [keys_rekeyed]
  refine distinct.map_on ?_
  intro one oneInside other otherInside same
  by_cases isOne : one = old <;> by_cases isOther : other = old
  · rw [isOne, isOther]
  · simp only [isOne, isOther, if_true, if_false] at same
    exact isOne.trans ((fresh (same ▸ otherInside)).symm.trans same)
  · simp only [isOne, isOther, if_true, if_false] at same
    exact same.trans ((fresh (same ▸ oneInside)).trans isOther.symm)
  · simpa only [isOne, isOther, if_false] using same

theorem keysOfType_rekeyed (old new : String) (entries : List (String × Event))
    (typeName : String) : keysOfType (rekeyed old new entries) typeName =
      (keysOfType entries typeName).map fun key => if key = old then new else key := by
  rw [rekeyed, keysOfType_map fun entry _ => by split <;> rfl, keysOfType, List.map_map]
  refine List.map_congr_left fun entry _ => ?_
  simp only [Function.comp_apply]
  split <;> rfl

/-- The entries with another entry in the place of one of them. -/
def replaced (old new : String) (e : Event) (entries : List (String × Event)) :
    List (String × Event) :=
  entries.map fun entry => if entry.1 = old then (new, e) else entry

/-- Groups tell an event from one of its type by the key only. -/
theorem keysOfType_replaced {entries : List (String × Event)} {old new : String} {d e : Event}
    (distinct : (entries.map Prod.fst).Nodup) (inside : (old, d) ∈ entries)
    (sameType : e.core.typeName = d.core.typeName) (typeName : String) :
    keysOfType (replaced old new e entries) typeName =
      keysOfType (rekeyed old new entries) typeName := by
  rw [keysOfType_rekeyed, replaced, keysOfType_map, keysOfType, List.map_map]
  · refine List.map_congr_left fun entry _ => ?_
    simp only [Function.comp_apply]
    split <;> rfl
  · intro entry listed
    split
    · rename_i same
      have isOld : entry.2 = d := Entries.value_unique distinct (same ▸ listed) inside
      rw [isOld]
      exact sameType
    · rfl

theorem mem_replaced {entries : List (String × Event)} {old new : String} {d e : Event}
    (inside : (old, d) ∈ entries) (entry : String × Event) :
    entry ∈ replaced old new e entries ↔ entry ∈ Entries.without old entries ++ [(new, e)] := by
  simp only [replaced, Entries.without, List.mem_map, List.mem_append, List.mem_filter,
    List.mem_singleton, decide_eq_true_eq]
  constructor
  · rintro ⟨other, listed, rfl⟩
    by_cases same : other.1 = old
    · exact Or.inr (if_pos same)
    · exact Or.inl (by simpa [same] using listed)
  · rintro (⟨listed, different⟩ | rfl)
    · exact ⟨entry, listed, if_neg different⟩
    · exact ⟨(old, d), inside, if_pos rfl⟩

namespace TypeGroups

theorem keys_refile (g : TypeGroups) (typeName old new : String) :
    (g.refile typeName old new).keys = g.keys := by
  rw [refile]
  split
  · rfl
  · rename_i group found
    have held : typeName ∈ g.keys := OrderedMap.mem_keys_of_get? found
    rw [OrderedMap.keys_insert, if_pos held]

theorem get?_refile (g : TypeGroups) (typeName old new other : String) :
    (g.refile typeName old new).get? other = (g.get? other).map fun group =>
      if other = typeName then group.replace old new else group := by
  rw [refile]
  split
  · rename_i absent
    by_cases same : other = typeName
    · simp [same, absent]
    · simp [same]
  · rename_i group found
    rw [OrderedMap.get?_insert]
    by_cases same : other = typeName
    · simp [same, found]
    · simp [same]

theorem Mirrors.refile {g : TypeGroups} {entries : List (String × Event)} (h : g.Mirrors entries)
    (distinct : (entries.map Prod.fst).Nodup) {typeName old new : String} {e : Event}
    (inside : (old, e) ∈ entries) (ofType : e.core.typeName = some typeName)
    (fresh : new ∈ entries.map Prod.fst → new = old) :
    (g.refile typeName old new).Mirrors (rekeyed old new entries) := by
  have listedOld : old ∈ keysOfType entries typeName := mem_keysOfType.mpr ⟨e, inside, ofType⟩
  obtain ⟨group, found⟩ := (OrderedMap.contains_iff ..).mp
    ((h.held typeName).mpr (List.ne_nil_of_mem listedOld))
  have renamed : (group.replace old new).members =
      keysOfType (rekeyed old new entries) typeName := by
    rw [keysOfType_rekeyed, ← h.listed found]
    refine OrderedSet.members_replace ?_ ?_
    · exact OrderedSet.mem_def.mpr (h.listed found ▸ listedOld)
    · intro inGroup
      obtain ⟨d, held, _⟩ := mem_keysOfType.mp (h.listed found ▸ OrderedSet.mem_def.mp inGroup)
      exact fresh (List.mem_map_of_mem held)
  -- the other groups have no member to rename
  have elsewhere {other : String} (different : other ≠ typeName) :
      keysOfType (rekeyed old new entries) other = keysOfType entries other := by
    rw [keysOfType_rekeyed]
    refine (List.map_congr_left fun key listed => if_neg ?_).trans (List.map_id _)
    rintro rfl
    obtain ⟨d, held, otherType⟩ := mem_keysOfType.mp listed
    rw [Entries.value_unique distinct held inside, ofType, Option.some_inj] at otherType
    exact different otherType.symm
  have lookup (other : String) : (g.refile typeName old new).get? other =
      if other = typeName then some (group.replace old new) else g.get? other := by
    rw [TypeGroups.refile, found]
    exact OrderedMap.get?_insert ..
  constructor
  · intro other
    rw [OrderedMap.contains, lookup]
    by_cases same : other = typeName
    · have nonempty : keysOfType (rekeyed old new entries) typeName ≠ [] := by
        rw [keysOfType_rekeyed]
        exact List.ne_nil_of_mem (List.mem_map_of_mem listedOld)
      simp [same, nonempty]
    · simp only [same, if_false, elsewhere same]
      exact h.held other
  · intro other members here
    rw [lookup] at here
    by_cases same : other = typeName
    · simp only [same, if_true, Option.some_inj] at here
      rw [← here, same, renamed]
    · simp only [same, if_false] at here
      rw [elsewhere same, h.listed here]

end TypeGroups

namespace Adjacency

theorem Mirrors.congr {a : Adjacency} {entries others : List (String × Event)}
    (h : a.Mirrors entries) (same : ∀ entry, entry ∈ others ↔ entry ∈ entries) :
    a.Mirrors others := by
  intro node key
  simp only [h node key, same]

end Adjacency

namespace Store

theorem replaced_of_replacement {s : Store} {c : Catalog} {sourceKey sourceId : String}
    {target : Event} {r : Shelf.Replacement Event}
    (passed : s.events.replacement c sourceKey sourceId target = .ok r) :
    (s.events.replace sourceKey { r with target := r.target.withMembership c }).entries.entries =
        replaced sourceKey r.key (r.target.withMembership c) s.events.entries.entries ∧
      (sourceKey, r.source) ∈ s.events.entries.entries ∧
      Entity.logicKey? (r.target.withMembership c) = some r.key ∧
      r.target.core.typeName = r.source.core.typeName ∧
      (r.key ∈ s.events.entries.entries.map Prod.fst → r.key = sourceKey) := by
  obtain ⟨keyed, placed, found, _, free, sameType, taken⟩ :=
    Shelf.replacement_eq_ok_iff.mp passed
  have stamping := (Shelf.admitted_eq_ok_iff.mp taken).1
  refine ⟨Shelf.entries_replace placed found free, (s.events.mem_entries_iff _ _).mpr found,
    (Entity.logicKey?_of_stamped stamping).trans keyed, ?_, ?_⟩
  · obtain ⟨f, _, given⟩ := Entity.stamped_eq_ok_iff.mp stamping
    rw [given]
    exact sameType.symm
  · intro held
    rcases free with same | absent
    · exact same
    · exact absurd held ((s.events.entries.contains_eq_false_iff r.key).mp absent)

theorem Grouped.updateEvent {s : Store} (h : s.Grouped) (c : Catalog)
    (sourceKey sourceId : String) (target : Event) :
    (s.updateEvent c sourceKey sourceId target).2.Grouped := by
  unfold Store.updateEvent
  split
  · exact h
  · rename_i r passed
    obtain ⟨changed, inside, own, targetType, fresh⟩ := replaced_of_replacement passed
    have distinct := s.events.entries.distinct
    have found := (s.events.mem_entries_iff _ _).mp inside
    obtain ⟨typeName, ofType⟩ := Event.typeName_of_logicKey? (h.keyed found)
    refine ⟨h.keyed.replace own, ?_⟩
    · simp only [applyEventUpdate, ofType, changed]
      exact (h.groups.refile distinct inside ofType fresh).congr
        (keysOfType_replaced distinct inside targetType)

/-- An event that replaces another one of its type takes over its place everywhere. -/
theorem Consistent.updateEvent {s : Store} (h : s.Consistent) (c : Catalog)
    (sourceKey sourceId : String) (target : Event) :
    (s.updateEvent c sourceKey sourceId target).2.Consistent := by
  have grouped := h.grouped.updateEvent c sourceKey sourceId target
  unfold Store.updateEvent at grouped ⊢
  split
  · exact h
  · rename_i r passed
    simp only [passed] at grouped
    obtain ⟨changed, inside, _⟩ := replaced_of_replacement passed
    refine ⟨h.nodes, h.events.replace passed rfl rfl, grouped.groups, ?_⟩
    simp only [applyEventUpdate, changed]
    exact ((h.adjacency.unlink s.events.entries.distinct inside).link r.key
      (r.target.withMembership c)).congr (mem_replaced inside)

end Store

end SchemaGraph
