import SchemaGraph.Entity.Fingerprint
import SchemaGraph.Entity.Node
import SchemaGraph.Proofs.Entity.Identity
import SchemaGraph.Proofs.Outcome
import SchemaGraph.Proofs.Value.Text

/-! # What the text of a fingerprint tells

The text that goes into a fingerprint is the type with the texts of the indexed values behind it,
and nothing between them. So it tells the type and the values only together, and each value only
as far as its text does.
-/

namespace SchemaGraph

namespace Entity

variable {ε : Type} [Entity ε] {c : Catalog} {e : ε}

/-- Where every entry of the index is a property that is held, chains have no part. -/
theorem indexText?_of_held {index : List String} {properties : PropertyMap}
    {entries : List String} {values : List Value}
    (held : entries.map properties.get? = values.map some) :
    indexText? c index properties entries =
      .ok (some (String.join (values.map Value.fingerprintText))) := by
  induction entries generalizing values with
  | nil =>
      rw [List.map_nil, eq_comm, List.map_eq_nil_iff] at held
      subst held
      rfl
  | cons entry rest ih =>
      obtain ⟨value, values, rfl, found, heldLater⟩ := List.map_eq_cons_iff.mp held.symm
      have indexed : indexValue? c index properties entry = .ok (some value) := by
        rw [indexValue?, ← found]
      rw [indexText?, indexed, ih heldLater.symm, List.map_cons, String.join_cons]
      rfl

theorem fingerprintText?_of_held {basis id : String} {values : List Value}
    (hasBasis : basis? e = some basis) (hasId : Entity.id e = some id)
    (indexed : uniqueIndex c e ≠ [])
    (held : (uniqueIndex c e).map (property? e) = values.map some) :
    fingerprintText? c e =
      .ok (some (basis ++ String.join (values.map Value.fingerprintText))) := by
  have text : indexText? c (uniqueIndex c e) (properties e) (uniqueIndex c e) = _ :=
    indexText?_of_held held
  simp only [fingerprintText?, hasBasis, hasId]
  rw [if_neg (by simpa using indexed), text]
  rfl

end Entity

/-- A node with its type and identifier, and the values that it holds for all entries of the
    unique index, in the order of the index. -/
structure HoldsIndex (c : Catalog) (n : Node) (typeName id : String) (values : List Value) :
    Prop where
  typed : n.core.typeName = some typeName
  identified : n.core.id = some id
  indexed : Entity.uniqueIndex c n ≠ []
  held : (Entity.uniqueIndex c n).map (Entity.property? n) = values.map some

/-- Types and values that make up one text: the types are the same and the values count alike or
    are cut at other places, or one type goes on with what the values of the other begin with. -/
def FedAlike (typeA : String) (valuesA : List Value) (typeB : String) (valuesB : List Value) :
    Prop :=
  let textsA := valuesA.map Value.fingerprintText
  let textsB := valuesB.map Value.fingerprintText
  typeA = typeB ∧ (List.Forall₂ Value.CountAlike valuesA valuesB ∨
      CutEarlier textsA textsB ∨ CutEarlier textsB textsA) ∨
    (∃ more, more ≠ "" ∧ typeB = typeA ++ more ∧ String.join textsA = more ++ String.join textsB) ∨
    ∃ more, more ≠ "" ∧ typeA = typeB ++ more ∧ String.join textsB = more ++ String.join textsA

theorem append_eq_append_iff_fedAlike {typeA typeB : String} {valuesA valuesB : List Value}
    (lengths : typeA = typeB → valuesA.length = valuesB.length) :
    typeA ++ String.join (valuesA.map Value.fingerprintText) =
        typeB ++ String.join (valuesB.map Value.fingerprintText) ↔
      FedAlike typeA valuesA typeB valuesB := by
  have noRest {text more : String} (some : more ≠ "") : text ≠ text ++ more := by
    intro same
    exact some (by simpa using same.symm)
  by_cases sameType : typeA = typeB
  · subst sameType
    have textLengths : (valuesA.map Value.fingerprintText).length =
        (valuesB.map Value.fingerprintText).length := by simpa using lengths rfl
    have rows : valuesA.map Value.fingerprintText = valuesB.map Value.fingerprintText ↔
        List.Forall₂ Value.CountAlike valuesA valuesB := by
      rw [← List.forall₂_eq_eq_eq, List.forall₂_map_left_iff, List.forall₂_map_right_iff]
      simp only [Value.fingerprintText_eq_iff]
    rw [String.append_right_inj, join_eq_join_iff textLengths, rows, FedAlike]
    constructor
    · exact fun alike => Or.inl ⟨rfl, alike⟩
    · rintro (⟨_, alike⟩ | ⟨more, some, goesOn, _⟩ | ⟨more, some, goesOn, _⟩)
      · exact alike
      · exact absurd goesOn (noRest some)
      · exact absurd goesOn (noRest some)
  · constructor
    · intro whole
      rcases append_eq_append_cases whole with ⟨more, goesOn, later⟩ | ⟨more, goesOn, later⟩
      · refine Or.inr (Or.inl ⟨more, ?_, goesOn, later⟩)
        rintro rfl
        exact sameType (by simpa using goesOn.symm)
      · refine Or.inr (Or.inr ⟨more, ?_, goesOn, later⟩)
        rintro rfl
        exact sameType (by simpa using goesOn)
    · rintro (⟨same, _⟩ | ⟨more, _, rfl, later⟩ | ⟨more, _, rfl, later⟩)
      · exact absurd same sameType
      · rw [later, String.append_assoc]
      · rw [later, String.append_assoc]

namespace HoldsIndex

variable {c : Catalog} {a b : Node} {typeName id typeA typeB idA idB : String}
  {values valuesA valuesB : List Value}

theorem fingerprintText?_eq (h : HoldsIndex c a typeName id values) :
    Entity.fingerprintText? c a =
      .ok (some (typeName ++ String.join (values.map Value.fingerprintText))) :=
  Entity.fingerprintText?_of_held h.typed h.identified h.indexed h.held

theorem logicKey?_eq (h : HoldsIndex c a typeName id values) :
    Entity.logicKey? a = some (typeName ++ id) := by
  rw [Entity.logicKey?, show Entity.basis? a = _ from h.typed,
    show Entity.id a = _ from h.identified]
  rfl

theorem length_eq (heldA : HoldsIndex c a typeA idA valuesA)
    (heldB : HoldsIndex c b typeB idB valuesB) (sameType : typeA = typeB) :
    valuesA.length = valuesB.length := by
  have sameIndex : Entity.uniqueIndex c a = Entity.uniqueIndex c b := by
    simp only [Entity.uniqueIndex, Node.definition?, heldA.typed, heldB.typed, sameType]
  have ofA := congrArg List.length heldA.held
  have ofB := congrArg List.length heldB.held
  rw [List.length_map, List.length_map] at ofA ofB
  rw [← ofA, ← ofB, sameIndex]

end HoldsIndex

end SchemaGraph
