import Mathlib.Data.List.Basic
import SchemaGraph.Proofs.Store.Grouping

/-! # Views of consistent stores

What the indices of a consistent store lead to can be read off the events themselves. Where
only the groups are asked, they alone need to mirror the events.
-/

namespace SchemaGraph.Store

theorem perm_flatMap_filter {α κ : Type} [DecidableEq κ] (kind : α → Option κ) {kinds : List κ}
    (distinct : kinds.Nodup) (l : List α) (covered : ∀ a ∈ l, ∃ k ∈ kinds, kind a = some k) :
    (kinds.flatMap fun k => l.filter fun a => decide (kind a = some k)).Perm l := by
  induction kinds generalizing l with
  | nil =>
      have nothing : l = [] := List.eq_nil_iff_forall_not_mem.mpr fun a inside => by
        obtain ⟨k, isKind, _⟩ := covered a inside
        cases isKind
      rw [nothing]
      exact List.Perm.refl _
  | cons k rest ih =>
      obtain ⟨fresh, distinct⟩ := List.nodup_cons.mp distinct
      -- the other kinds sort what is left, which is all of the list as far as they look
      have others := ih distinct (l.filter fun a => !decide (kind a = some k)) (by
        intro a inside
        obtain ⟨listed, different⟩ := List.mem_filter.mp inside
        obtain ⟨own, isKind, isOwn⟩ := covered a listed
        rcases List.mem_cons.mp isKind with rfl | later
        · simp [isOwn] at different
        · exact ⟨own, later, isOwn⟩)
      have sameOthers :
          (rest.flatMap fun other => (l.filter fun a => !decide (kind a = some k)).filter
            fun a => decide (kind a = some other)) =
              rest.flatMap fun other => l.filter fun a => decide (kind a = some other) := by
        refine List.flatMap_congr fun other later => ?_
        rw [List.filter_filter]
        refine List.filter_congr fun a _ => ?_
        by_cases isOther : kind a = some other
        · have different : other ≠ k := fun same => fresh (same ▸ later)
          simp [isOther, different]
        · simp [isOther]
      rw [sameOthers] at others
      rw [List.flatMap_cons]
      exact (others.append_left _).trans (List.filter_append_perm _ l)

/-- Sorted by kinds, the items of one kind keep their order. -/
theorem filter_flatMap_filter {α κ : Type} [DecidableEq κ] (kind : α → Option κ) {kinds : List κ}
    (distinct : kinds.Nodup) (l : List α) (k : κ) :
    (kinds.flatMap fun other => l.filter fun a => decide (kind a = some other)).filter
      (fun a => decide (kind a = some k)) =
        if k ∈ kinds then l.filter fun a => decide (kind a = some k) else [] := by
  induction kinds with
  | nil => rfl
  | cons other rest ih =>
      obtain ⟨fresh, distinct⟩ := List.nodup_cons.mp distinct
      rw [List.flatMap_cons, List.filter_append, ih distinct, List.filter_filter]
      by_cases same : k = other
      · subst same
        simp [fresh]
      · have nothing :
            (l.filter fun a => decide (kind a = some k) && decide (kind a = some other)) = [] := by
          rw [List.filter_eq_nil_iff]
          intro a _ both
          simp only [Bool.and_eq_true, decide_eq_true_eq] at both
          exact same (Option.some_inj.mp (both.1.symm.trans both.2))
        simp [nothing, same]

variable {s : Store}

theorem Consistent.mem_incidentEvents (h : s.Consistent) {node : String} {e : Event} :
    e ∈ s.incidentEvents node ↔ e ∈ s.events.values ∧ node ∈ e.endKeys := by
  rw [incidentEvents, List.mem_filterMap]
  constructor
  · rintro ⟨key, listed, held⟩
    have inside := (s.events.entries.get?_eq_some_iff key e).mp held
    obtain ⟨d, other, touches⟩ := (h.adjacency node key).mp listed
    rw [Entries.value_unique s.events.entries.distinct other inside] at touches
    exact ⟨List.mem_map.mpr ⟨_, inside, rfl⟩, touches⟩
  · rintro ⟨listed, touches⟩
    obtain ⟨⟨key, d⟩, inside, rfl⟩ := List.mem_map.mp listed
    exact ⟨key, (h.adjacency node key).mpr ⟨d, inside, touches⟩,
      (s.events.entries.get?_eq_some_iff key d).mpr inside⟩

theorem filterMap_get?_keysOfType (s : Store) (typeName : String) :
    (keysOfType s.events.entries.entries typeName).filterMap s.events.get? =
      s.events.values.filter fun e => decide (e.core.typeName = some typeName) := by
  have values : s.events.values = s.events.entries.entries.map Prod.snd := rfl
  rw [keysOfType, List.filterMap_map, values, List.filter_map, ← List.filterMap_eq_map]
  refine List.filterMap_congr fun entry inside => ?_
  exact (s.events.entries.get?_eq_some_iff _ _).mpr (List.mem_filter.mp inside).1

theorem Grouped.entries_groupedEvents (h : s.Grouped) :
    s.groupedEvents.entries = s.groups.keys.map fun typeName =>
      (typeName, s.events.values.filter fun e => decide (e.core.typeName = some typeName)) := by
  change s.groups.entries.map _ = (s.groups.entries.map _).map _
  rw [List.map_map]
  refine List.map_congr_left fun ⟨typeName, group⟩ inside => ?_
  have found := (s.groups.get?_eq_some_iff typeName group).mpr inside
  simp only [Function.comp_apply, h.groups.listed found, filterMap_get?_keysOfType]

/-- The entries of the events, type by type in the order of the groups. -/
def listing (s : Store) : List (String × Event) :=
  s.groups.keys.flatMap fun typeName =>
    s.events.entries.entries.filter fun entry => decide (entry.2.core.typeName = some typeName)

theorem Grouped.values_groupedEvents (h : s.Grouped) :
    s.groupedEvents.values.flatten = s.listing.map Prod.snd := by
  rw [OrderedMap.values, h.entries_groupedEvents, List.map_map, ← List.flatMap_def, listing,
    List.map_flatMap]
  refine List.flatMap_congr fun typeName _ => ?_
  have values : s.events.values = s.events.entries.entries.map Prod.snd := rfl
  simp only [Function.comp_apply, values, List.filter_map]
  rfl

theorem Grouped.perm_listing (h : s.Grouped) : s.listing.Perm s.events.entries.entries := by
  refine perm_flatMap_filter (fun entry : String × Event => entry.2.core.typeName)
    s.groups.distinct _ fun entry inside => ?_
  obtain ⟨typeName, ofType⟩ :=
    Event.typeName_of_logicKey? (h.keyed ((s.events.mem_entries_iff _ _).mp inside))
  have listed : entry.1 ∈ keysOfType s.events.entries.entries typeName :=
    mem_keysOfType.mpr ⟨entry.2, inside, ofType⟩
  exact ⟨typeName, (s.groups.mem_keys_iff typeName).mpr
    ((h.groups.held typeName).mpr (List.ne_nil_of_mem listed)), ofType⟩

theorem Grouped.keysOfType_listing (h : s.Grouped) (typeName : String) :
    keysOfType s.listing typeName = keysOfType s.events.entries.entries typeName := by
  have sorted := filter_flatMap_filter (fun entry : String × Event => entry.2.core.typeName)
    s.groups.distinct s.events.entries.entries typeName
  rw [keysOfType, listing, OrderedMap.keys, sorted]
  split
  · rfl
  · rename_i absent
    by_contra nonempty
    exact absent ((s.groups.mem_keys_iff typeName).mpr
      ((h.groups.held typeName).mpr fun nothing => nonempty nothing.symm))

end SchemaGraph.Store
