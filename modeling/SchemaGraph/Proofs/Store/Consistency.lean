import Mathlib.Tactic.Tauto
import SchemaGraph.Proofs.Collections.Order
import SchemaGraph.Store.Basic

/-! # Consistent stores

The indices of a store say nothing of their own: fingerprints, groups and adjacency mirror
the entities. `Store.Consistent` says so; which operations keep it is shown elsewhere.
-/

namespace SchemaGraph

/-- Every entity of a shelf stands under its own logic identifier, and a fingerprint leads to
    a key exactly when the entity there carries it. -/
structure Shelf.Consistent {ε : Type} [Entity ε] (s : Shelf ε) : Prop where
  keyed {key : String} {e : ε} : s.get? key = some e → Entity.logicKey? e = some key
  holds {fingerprint key : String} : s.holders.get? fingerprint = some key ↔
    ∃ e, s.get? key = some e ∧ Entity.fingerprint e = some fingerprint

/-- The keys of the events of a type, in the order of the events. -/
def keysOfType (entries : List (String × Event)) (typeName : String) : List String :=
  (entries.filter fun entry => decide (entry.2.core.typeName = some typeName)).map Prod.fst

/-- There is a group for each type of the events and for no other, and it lists the keys of
    the events of its type in their order. -/
structure TypeGroups.Mirrors (g : TypeGroups) (entries : List (String × Event)) : Prop where
  held (typeName : String) : g.contains typeName = true ↔ keysOfType entries typeName ≠ []
  listed {typeName : String} {group : OrderedSet String} :
    g.get? typeName = some group → group.members = keysOfType entries typeName

/-- The events at a node are those that have it at one of their ends. -/
def Adjacency.Mirrors (a : Adjacency) (entries : List (String × Event)) : Prop :=
  ∀ node key, key ∈ a.eventsAt node ↔ ∃ e, (key, e) ∈ entries ∧ node ∈ e.endKeys

/-- All indices of a store mirror its nodes and events. -/
structure Store.Consistent (s : Store) : Prop where
  nodes : s.nodes.Consistent
  events : s.events.Consistent
  groups : s.groups.Mirrors s.events.entries.entries
  adjacency : s.adjacency.Mirrors s.events.entries.entries

namespace Shelf

variable {ε : Type} [Entity ε]

theorem Consistent.empty : ({} : Shelf ε).Consistent where
  keyed h := by cases h
  holds := by simp [SortedMap.empty, SortedMap.get?, Entries.find, get?, OrderedMap.empty,
    OrderedMap.get?]

theorem Consistent.fingerprint_unique {s : Shelf ε} (h : s.Consistent)
    {one other fingerprint : String} {d e : ε} (atOne : s.get? one = some d)
    (atOther : s.get? other = some e) (ofOne : Entity.fingerprint d = some fingerprint)
    (ofOther : Entity.fingerprint e = some fingerprint) : one = other := by
  have first := h.holds.mpr ⟨d, atOne, ofOne⟩
  rw [h.holds.mpr ⟨e, atOther, ofOther⟩, Option.some_inj] at first
  exact first.symm

/-- The fingerprints under the keys determine who holds each of them. -/
theorem Consistent.holders_eq {s t : Shelf ε} (hs : s.Consistent) (ht : t.Consistent)
    (same : ∀ key, (t.get? key).map Entity.fingerprint = (s.get? key).map Entity.fingerprint) :
    t.holders = s.holders := by
  refine SortedMap.ext_get? fun fingerprint => Option.ext fun key => ?_
  have carries (shelf : Shelf ε) :
      (∃ e, shelf.get? key = some e ∧ Entity.fingerprint e = some fingerprint) ↔
        (shelf.get? key).map Entity.fingerprint = some (some fingerprint) := by
    rw [Option.map_eq_some_iff]
  rw [ht.holds, hs.holds, carries, carries, same]

end Shelf

/-! ## Groups -/

theorem keysOfType_append (before after : List (String × Event)) (typeName : String) :
    keysOfType (before ++ after) typeName =
      keysOfType before typeName ++ keysOfType after typeName := by
  simp [keysOfType]

theorem mem_keysOfType {entries : List (String × Event)} {typeName key : String} :
    key ∈ keysOfType entries typeName ↔
      ∃ e, (key, e) ∈ entries ∧ e.core.typeName = some typeName := by
  simp [keysOfType]

theorem keysOfType_without (key : String) (entries : List (String × Event)) (typeName : String) :
    keysOfType (Entries.without key entries) typeName =
      (keysOfType entries typeName).filter (· ≠ key) := by
  simp only [keysOfType, Entries.without, List.filter_filter, List.filter_map, Function.comp_def,
    Bool.and_comm]

/-- A change of events that leaves their keys and types alone leaves the groups alone. -/
theorem keysOfType_map {entries : List (String × Event)} {renew : String × Event → String × Event}
    (sameType : ∀ entry ∈ entries, (renew entry).2.core.typeName = entry.2.core.typeName)
    (typeName : String) : keysOfType (entries.map renew) typeName =
      (entries.filter fun entry => decide (entry.2.core.typeName = some typeName)).map
        fun entry => (renew entry).1 := by
  rw [keysOfType, List.filter_map, List.map_map]
  congr 1
  exact List.filter_congr fun entry inside => by simp [sameType entry inside]

namespace TypeGroups

theorem Mirrors.empty : Mirrors .empty [] where
  held := by simp [OrderedMap.contains, keysOfType]
  listed h := by simp at h

/-- Groups mirror only the keys of each type. -/
theorem Mirrors.congr {g : TypeGroups} {entries others : List (String × Event)}
    (h : g.Mirrors entries)
    (same : ∀ typeName, keysOfType others typeName = keysOfType entries typeName) :
    g.Mirrors others where
  held typeName := same typeName ▸ h.held typeName
  listed found := (h.listed found).trans (same _).symm

theorem Mirrors.members {g : TypeGroups} {entries : List (String × Event)}
    (h : g.Mirrors entries) (typeName : String) :
    ((g.get? typeName).getD .empty).members = keysOfType entries typeName := by
  cases found : g.get? typeName with
  | some group => exact h.listed found
  | none =>
      have absent : ¬ g.contains typeName = true := by simp [OrderedMap.contains, found]
      exact (Decidable.not_not.mp fun some => absent ((h.held typeName).mpr some)).symm

/-- Groups are determined by the keys of each type. -/
theorem Mirrors.get?_eq {g g' : TypeGroups} {entries entries' : List (String × Event)}
    (h : g.Mirrors entries) (h' : g'.Mirrors entries') {typeName : String}
    (same : keysOfType entries typeName = keysOfType entries' typeName) :
    g.get? typeName = g'.get? typeName := by
  have held : g.contains typeName = true ↔ g'.contains typeName = true := by
    rw [h.held, h'.held, same]
  cases found : g.get? typeName with
  | none =>
      have absent : ¬ g'.contains typeName = true := fun there => by
        have here := held.mpr there
        rw [OrderedMap.contains, found] at here
        cases here
      exact ((OrderedMap.get?_eq_none_iff ..).mpr (Bool.eq_false_iff.mpr absent)).symm
  | some group =>
      have here : g.contains typeName = true := by rw [OrderedMap.contains, found]; rfl
      obtain ⟨group', found'⟩ := (OrderedMap.contains_iff ..).mp (held.mp here)
      rw [found', Option.some_inj]
      exact OrderedSet.ext_members ((h.listed found).trans (same.trans (h'.listed found').symm))

theorem Mirrors.file {g : TypeGroups} {entries : List (String × Event)} (h : g.Mirrors entries)
    {typeName key : String} {e : Event} (ofType : e.core.typeName = some typeName)
    (fresh : key ∉ entries.map Prod.fst) :
    (g.file typeName key).Mirrors (entries ++ [(key, e)]) := by
  have added (other : String) : keysOfType (entries ++ [(key, e)]) other =
      keysOfType entries other ++ if other = typeName then [key] else [] := by
    rw [keysOfType_append]
    by_cases same : other = typeName
    · simp [keysOfType, ofType, same]
    · simp [keysOfType, ofType, same, Ne.symm same]
  have unlisted : key ∉ ((g.get? typeName).getD .empty) := by
    rw [OrderedSet.mem_def, h.members, mem_keysOfType]
    rintro ⟨other, inside, _⟩
    exact fresh (List.mem_map_of_mem inside)
  constructor
  · intro other
    rw [added, OrderedMap.contains, TypeGroups.file, OrderedMap.get?_insert]
    by_cases same : other = typeName
    · simp [same]
    · simpa [same, OrderedMap.contains] using h.held other
  · intro other group found
    rw [TypeGroups.file, OrderedMap.get?_insert] at found
    rw [added]
    by_cases same : other = typeName
    · simp only [same, if_true, Option.some_inj] at found ⊢
      rw [← found, OrderedSet.members_insert_of_absent unlisted, h.members]
    · simp only [same, if_false, List.append_nil] at found ⊢
      exact h.listed found

theorem Mirrors.unfile {g : TypeGroups} {entries : List (String × Event)} (h : g.Mirrors entries)
    (distinct : (entries.map Prod.fst).Nodup) {typeName key : String} {e : Event}
    (inside : (key, e) ∈ entries) (ofType : e.core.typeName = some typeName) :
    (g.unfile typeName key).Mirrors (Entries.without key entries) := by
  -- the key is in no group but that of its type
  have elsewhere {other : String} (different : other ≠ typeName) :
      keysOfType (Entries.without key entries) other = keysOfType entries other := by
    rw [keysOfType_without]
    refine List.filter_eq_self.mpr fun listed isListed => decide_eq_true (p := listed ≠ key) ?_
    rintro rfl
    obtain ⟨d, held, otherType⟩ := mem_keysOfType.mp isListed
    rw [Entries.value_unique distinct held inside, ofType, Option.some_inj] at otherType
    exact different otherType.symm
  have nonempty : keysOfType entries typeName ≠ [] :=
    List.ne_nil_of_mem (mem_keysOfType.mpr ⟨e, inside, ofType⟩)
  obtain ⟨group, found⟩ := (OrderedMap.contains_iff ..).mp ((h.held typeName).mpr nonempty)
  have rest : (group.erase key).members = keysOfType (Entries.without key entries) typeName := by
    rw [keysOfType_without, ← h.listed found]
    rfl
  have lookup (other : String) : (g.unfile typeName key).get? other =
      if other = typeName then
        if (group.erase key).isEmpty then none else some (group.erase key)
      else g.get? other := by
    rw [TypeGroups.unfile, found]
    by_cases empty : (group.erase key).isEmpty = true <;> by_cases same : other = typeName <;>
      simp [empty, same]
  constructor
  · intro other
    rw [OrderedMap.contains, lookup]
    by_cases same : other = typeName
    · rw [same, ← rest]
      by_cases empty : (group.erase key).isEmpty = true <;>
        simp_all [OrderedSet.isEmpty]
    · simp only [same, if_false, elsewhere same]
      exact h.held other
  · intro other left found
    rw [lookup] at found
    by_cases same : other = typeName
    · simp only [same, if_true, Option.ite_none_left_eq_some, Option.some_inj] at found
      rw [same, ← found.2, rest]
    · simp only [same, if_false] at found
      rw [elsewhere same, h.listed found]

end TypeGroups

/-! ## Adjacency -/

namespace Adjacency

theorem eventsAt_link (a : Adjacency) (node event other : String) :
    (a.link node event).eventsAt other =
      if other = node then (a.eventsAt other).insert event else a.eventsAt other := by
  simp only [eventsAt, link, SortedMap.get?_insert]
  by_cases same : other = node
  · simp [same]
  · simp [same]

theorem eventsAt_unlink (a : Adjacency) (node event other : String) :
    (a.unlink node event).eventsAt other =
      if other = node then (a.eventsAt other).erase event else a.eventsAt other := by
  rw [unlink]
  cases found : a.get? node with
  | none =>
      by_cases same : other = node
      · have nothing : a.eventsAt other = .empty := by simp [eventsAt, same, found]
        rw [if_pos same, nothing]
        rfl
      · rw [if_neg same]
  | some events =>
      by_cases same : other = node
      · have here : a.eventsAt other = events := by simp [eventsAt, same, found]
        rw [if_pos same, here]
        by_cases empty : (events.erase event).isEmpty = true
        · have nothing : events.erase event = .empty :=
            OrderedSet.ext_members (OrderedSet.isEmpty_iff.mp empty)
          simpa [eventsAt, same, empty] using nothing.symm
        · simp [eventsAt, same, empty]
      · by_cases empty : (events.erase event).isEmpty = true
        · simp [eventsAt, same, empty]
        · simp [eventsAt, same, empty]

/-- An event may be linked twice to one node, which then has it once. -/
theorem eventsAt_foldl_link (nodes : List String) (a : Adjacency) (event other : String) :
    (nodes.foldl (fun a node => a.link node event) a).eventsAt other =
      if other ∈ nodes then (a.eventsAt other).insert event else a.eventsAt other := by
  induction nodes generalizing a with
  | nil => simp
  | cons node rest ih =>
      rw [List.foldl_cons, ih, eventsAt_link]
      by_cases same : other = node
      · have twice : ((a.eventsAt other).insert event).insert event =
            (a.eventsAt other).insert event := OrderedSet.insert_of_mem (by simp)
        simp [same] at twice ⊢
        exact fun _ => twice
      · simp [same]

theorem eventsAt_foldl_unlink (nodes : List String) (a : Adjacency) (event other : String) :
    (nodes.foldl (fun a node => a.unlink node event) a).eventsAt other =
      if other ∈ nodes then (a.eventsAt other).erase event else a.eventsAt other := by
  induction nodes generalizing a with
  | nil => simp
  | cons node rest ih =>
      rw [List.foldl_cons, ih, eventsAt_unlink]
      by_cases same : other = node
      · have twice : ((a.eventsAt other).erase event).erase event =
            (a.eventsAt other).erase event := OrderedSet.erase_of_absent (by simp)
        simp [same] at twice ⊢
        exact fun _ => twice
      · simp [same]

theorem mem_eventsAt_foldl_link (nodes : List String) (a : Adjacency) (event other key : String) :
    key ∈ (nodes.foldl (fun a node => a.link node event) a).eventsAt other ↔
      key ∈ a.eventsAt other ∨ other ∈ nodes ∧ key = event := by
  rw [eventsAt_foldl_link]
  by_cases inside : other ∈ nodes <;> simp [inside]

theorem mem_eventsAt_foldl_unlink (nodes : List String) (a : Adjacency)
    (event other key : String) :
    key ∈ (nodes.foldl (fun a node => a.unlink node event) a).eventsAt other ↔
      key ∈ a.eventsAt other ∧ ¬ (other ∈ nodes ∧ key = event) := by
  rw [eventsAt_foldl_unlink]
  by_cases inside : other ∈ nodes <;> simp [inside]

theorem Mirrors.empty : Mirrors .empty [] := by
  intro node key
  simp [eventsAt, OrderedSet.mem_def, OrderedSet.empty]

theorem Mirrors.link {a : Adjacency} {entries : List (String × Event)} (h : a.Mirrors entries)
    (key : String) (e : Event) :
    Mirrors (e.endKeys.foldl (fun a node => a.link node key) a) (entries ++ [(key, e)]) := by
  intro node other
  rw [mem_eventsAt_foldl_link, h]
  constructor
  · rintro (⟨d, inside, touches⟩ | ⟨touches, rfl⟩)
    · exact ⟨d, List.mem_append_left _ inside, touches⟩
    · exact ⟨e, by simp, touches⟩
  · rintro ⟨d, inside, touches⟩
    rcases List.mem_append.mp inside with earlier | last
    · exact Or.inl ⟨d, earlier, touches⟩
    · simp only [List.mem_singleton, Prod.mk.injEq] at last
      obtain ⟨rfl, rfl⟩ := last
      exact Or.inr ⟨touches, rfl⟩

theorem Mirrors.unlink {a : Adjacency} {entries : List (String × Event)} (h : a.Mirrors entries)
    (distinct : (entries.map Prod.fst).Nodup) {key : String} {e : Event}
    (inside : (key, e) ∈ entries) :
    Mirrors (e.endKeys.foldl (fun a node => a.unlink node key) a)
      (Entries.without key entries) := by
  intro node other
  rw [mem_eventsAt_foldl_unlink, h]
  simp only [Entries.without, List.mem_filter, decide_eq_true_eq]
  constructor
  · rintro ⟨⟨d, held, touches⟩, apart⟩
    refine ⟨d, ⟨held, ?_⟩, touches⟩
    rintro rfl
    exact apart ⟨Entries.value_unique distinct held inside ▸ touches, rfl⟩
  · rintro ⟨d, ⟨held, different⟩, touches⟩
    exact ⟨⟨d, held, touches⟩, fun same => different same.2⟩

end Adjacency

end SchemaGraph
