import SchemaGraph.Proofs.Entity.Lawful

/-! # The ends of effective events

An event with a logic identifier has a type and two identified ends, so it is found from two
nodes, or from one node twice.
-/

namespace SchemaGraph

theorem Endpoint.isSome_basis? (p : Endpoint) : p.basis?.isSome = p.logicKey?.isSome := by
  rw [basis?, logicKey?]
  cases p.id <;> cases p.typeName <;> rfl

namespace Event

/-- An event is effective when it has an identifier, a type and two identified ends. -/
theorem isEffective_iff {e : Event} : Entity.isEffective e = true ↔
    e.core.id.isSome ∧ e.core.typeName.isSome ∧
      e.left.logicKey?.isSome ∧ e.right.logicKey?.isSome := by
  rw [← Endpoint.isSome_basis?, ← Endpoint.isSome_basis?, Entity.isEffective]
  simp only [Entity.id, Entity.core, Entity.basis?]
  cases e.core.id <;> cases e.core.typeName <;> cases e.left.basis? <;> cases e.right.basis? <;>
    simp

theorem isEffective_of_logicKey? {e : Event} {key : String}
    (keyed : Entity.logicKey? e = some key) : Entity.isEffective e = true :=
  Entity.isEffective_iff.mpr ⟨key, keyed⟩

theorem leftKey?_of_logicKey? {e : Event} {key : String} (keyed : Entity.logicKey? e = some key) :
    e.leftKey? = e.left.logicKey? :=
  if_pos (isEffective_of_logicKey? keyed)

theorem rightKey?_of_logicKey? {e : Event} {key : String}
    (keyed : Entity.logicKey? e = some key) : e.rightKey? = e.right.logicKey? :=
  if_pos (isEffective_of_logicKey? keyed)

theorem typeName_of_logicKey? {e : Event} {key : String}
    (keyed : Entity.logicKey? e = some key) : ∃ typeName, e.core.typeName = some typeName :=
  Option.isSome_iff_exists.mp (isEffective_iff.mp (isEffective_of_logicKey? keyed)).2.1

theorem logicKey?_withMembership (c : Catalog) (e : Event) :
    Entity.logicKey? (e.withMembership c) = Entity.logicKey? e := rfl

theorem mem_endKeys {e : Event} {node : String} :
    node ∈ e.endKeys ↔ e.leftKey? = some node ∨ e.rightKey? = some node := by
  simp [endKeys]

theorem endKeys_withCore {e : Event} {core : Core} (sameId : core.id = e.core.id)
    (sameType : core.typeName = e.core.typeName) : ({ e with core } : Event).endKeys = e.endKeys := by
  have effective : Entity.isEffective ({ e with core } : Event) = Entity.isEffective e := by
    simp only [Entity.isEffective, Entity.id, Entity.core, Entity.basis?, sameId, sameType]
  simp only [endKeys, leftKey?, rightKey?, effective]

end Event

end SchemaGraph
