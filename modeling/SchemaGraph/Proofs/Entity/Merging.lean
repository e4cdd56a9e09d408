import SchemaGraph.Proofs.Collections.Listing
import SchemaGraph.Proofs.Entity.Audit
import SchemaGraph.Proofs.Entity.Lawful

/-! # Merging properties

Merging one entity into another acts on the properties alone. Of several entities the last one has
precedence, however the merges are put together.
-/

namespace SchemaGraph.Entity

variable {α β γ : Type} [Entity α] [Entity β] [Entity γ]

@[simp] theorem core_merge (a : α) (b : β) : core (merge a b) =
    { (core a).stale with properties := (properties a).insertAll (properties b) } :=
  core_modifyCore _ a

@[simp] theorem properties_merge (a : α) (b : β) :
    properties (merge a b) = (properties a).insertAll (properties b) :=
  congrArg Core.properties (core_merge a b)

theorem core_merge_merge (a : α) (b : β) (c : γ) :
    core (merge (merge a b) c) = core (merge a (merge b c)) := by
  simp only [core_merge, properties_merge, OrderedMap.insertAll_assoc, Core.stale]

theorem core_merge_again (a : α) (b : β) : core (merge (merge a b) b) = core (merge a b) := by
  simp only [core_merge, properties_merge, OrderedMap.insertAll_again, Core.stale]

/-- Merging entities of any kinds is associative, for the values of the properties as well as for
    their order, and merging once more changes nothing. The merged-in entity has precedence: each
    of its properties has its value afterwards, and every other one stays. The properties that
    were there keep their places, and new ones follow in the order of the merged-in entity. Nothing
    else that an entity is kept for changes, neither do the ends and the membership of an event. -/
theorem merge_acts (a : α) (b : β) (c : γ) :
    properties (merge (merge a b) c) = properties (merge a (merge b c)) ∧
    core (merge (merge a b) b) = core (merge a b) ∧
    (∀ key, property? (merge a b) key = (property? b key).or (property? a key)) ∧
    (properties (merge a b)).keys =
      (properties a).keys ++ (properties b).keys.filter (· ∉ (properties a).keys) ∧
    (core (merge a b)).SameAudit (core a) ∧
    ∀ e : Event, (merge e b).left = e.left ∧ (merge e b).right = e.right ∧
      (merge e b).membership = e.membership := by
  refine ⟨congrArg Core.properties (core_merge_merge a b c), core_merge_again a b, ?_, ?_, ?_, ?_⟩
  · intro key
    rw [property?, properties_merge, OrderedMap.get?_insertAll]
    rfl
  · rw [properties_merge, OrderedMap.keys_insertAll]
  · rw [core_merge]
    exact ⟨rfl, rfl, rfl, rfl, rfl⟩
  · intro e
    exact ⟨rfl, rfl, rfl⟩

end SchemaGraph.Entity
