import SchemaGraph.Proofs.Entity.Fingerprint
import SchemaGraph.Proofs.Store.Contents

/-! # Which nodes violate uniqueness

Of two nodes that a store would take in each by itself, the second one violates uniqueness
exactly when the digests of their fingerprint texts are the same. When the texts are, is told by
the types and the indexed values.
-/

namespace SchemaGraph

namespace Shelf

variable {ε : Type} [Entity ε] {c : Catalog} {s : Shelf ε} {e : ε} {owner key digest : String}

theorem admitted_of_computed (computed : Entity.computeFingerprint c e = .ok (some digest)) :
    s.admitted c owner key e =
      let taken := Entity.withFingerprint e (some digest)
      match s.holders.get? digest with
      | some holder =>
          if holder = owner then .ok taken
          else .error (.uniqueness (Entity.kind taken) digest holder key)
      | none => .ok taken := by
  have stamps : Entity.stamped c e = .ok (Entity.withFingerprint e (some digest)) :=
    Entity.stamped_eq_ok_iff.mpr ⟨_, computed, rfl⟩
  have admits : (Entity.stamped c e).mapError StoreError.entity =
      .ok (Entity.withFingerprint e (some digest)) := Outcome.mapError_eq_ok_iff.mpr stamps
  simp only [admitted, admits, bind, Except.bind, Entity.fingerprint_withFingerprint,
    Option.bind_some]
  cases s.holders.get? digest <;> rfl

theorem Consistent.holder_ne {holder : String} (h : s.Consistent)
    (holds : s.holders.get? digest = some holder) (free : s.contains key = false) :
    holder ≠ key := by
  rintro rfl
  obtain ⟨e, found, _⟩ := h.holds.mp holds
  have contained : s.contains holder = true := (s.entries.contains_iff holder).mpr ⟨e, found⟩
  rw [free] at contained
  cases contained

end Shelf

namespace Store

variable {c : Catalog} {s : Store} {n : Node} {key digest : String}

theorem addNode_of_computed (consistent : s.nodes.Consistent)
    (keyed : Entity.logicKey? n = some key) (free : s.nodes.contains key = false)
    (computed : Entity.computeFingerprint c n = .ok (some digest)) :
    s.addNode c n false = match s.nodes.holders.get? digest with
      | some holder => (.error (.uniqueness "Node" digest holder key), s)
      | none => (.ok true, s.withNode key (Entity.withFingerprint n (some digest))) := by
  rw [addNode_eq, Shelf.verdict, keyed]
  simp only [free, Bool.and_false, Bool.false_eq_true, if_false,
    Shelf.admitted_of_computed computed]
  cases held : s.nodes.holders.get? digest with
  | none => rfl
  | some holder =>
      simp only [if_neg (consistent.holder_ne held free)]
      rfl

theorem addNode_eq_true (consistent : s.nodes.Consistent)
    (keyed : Entity.logicKey? n = some key)
    (computed : Entity.computeFingerprint c n = .ok (some digest))
    (added : (s.addNode c n false).1 = .ok true) :
    s.nodes.contains key = false ∧ s.nodes.holders.get? digest = none := by
  have free : s.nodes.contains key = false := by
    rw [addNode_eq] at added
    split at added
    · cases added
    · cases added
    · rename_i decided
      obtain ⟨keyedToo, free, _⟩ := Shelf.verdict_eq_some_iff.mp decided
      rw [keyed, Option.some_inj] at keyedToo
      exact keyedToo ▸ free rfl
  refine ⟨free, ?_⟩
  rw [addNode_of_computed consistent keyed free computed] at added
  split at added
  · cases added
  · assumption

/-- What a second node comes to that the store would take in as it would the first one. -/
theorem addNode_addNode (consistent : s.Consistent) {a b : Node}
    {keyA keyB digestA digestB : String}
    (keyedA : Entity.logicKey? a = some keyA) (keyedB : Entity.logicKey? b = some keyB)
    (ofA : Entity.computeFingerprint c a = .ok (some digestA))
    (ofB : Entity.computeFingerprint c b = .ok (some digestB))
    (first : (s.addNode c a false).1 = .ok true) (alone : (s.addNode c b false).1 = .ok true) :
    ((s.addNode c a false).2.addNode c b false).1 =
      if keyA = keyB then .ok false
      else if digestA = digestB then .error (.uniqueness "Node" digestB keyA keyB)
      else .ok true := by
  obtain ⟨freeA, unheldA⟩ := addNode_eq_true consistent.nodes keyedA ofA first
  obtain ⟨freeB, unheldB⟩ := addNode_eq_true consistent.nodes keyedB ofB alone
  have nodes := (consistent.addNode c a false).nodes
  rw [addNode_of_computed consistent.nodes keyedA freeA ofA, unheldA] at nodes ⊢
  have holders : (s.withNode keyA (Entity.withFingerprint a (some digestA))).nodes.holders =
      s.nodes.holders.insert digestA keyA := by
    simp only [withNode, Shelf.remove_of_absent freeA, Shelf.put, Shelf.hold,
      Entity.fingerprint_withFingerprint]
  have found := s.get?_nodes_withNode keyA keyB (Entity.withFingerprint a (some digestA))
  generalize s.withNode keyA (Entity.withFingerprint a (some digestA)) = s' at nodes holders found
  by_cases sameKey : keyA = keyB
  · have held : s'.nodes.contains keyB = true :=
      (s'.nodes.entries.contains_iff keyB).mpr ⟨_, found.trans (if_pos sameKey.symm)⟩
    have decided : s'.nodes.verdict c b false = .ok none :=
      Shelf.verdict_eq_none_iff.mpr (Or.inr ⟨rfl, keyB, keyedB, held⟩)
    rw [if_pos sameKey, addNode_eq, decided]
  · have absent : s.nodes.get? keyB = none := (s.nodes.entries.get?_eq_none_iff keyB).mpr freeB
    have free : s'.nodes.contains keyB = false := by
      rw [if_neg (Ne.symm sameKey), absent] at found
      exact (s'.nodes.entries.get?_eq_none_iff keyB).mp found
    -- of the two keys and holders, only those of the first node are new
    rw [if_neg sameKey, addNode_of_computed nodes keyedB free ofB, holders,
      SortedMap.get?_insert, unheldB]
    by_cases sameDigest : digestA = digestB
    · rw [if_pos sameDigest, if_pos sameDigest.symm]
    · rw [if_neg sameDigest, if_neg (Ne.symm sameDigest)]

/-- The texts of two nodes that hold a value for every entry of their indices are their types with
    the texts of the values behind them, and say so much of types and values as can be told from
    these together. Of two such nodes that a store would take in each by itself, the second one
    violates uniqueness exactly when the digests of the texts are the same. -/
theorem uniqueness_of_values (c : Catalog) {a b : Node} {typeA typeB idA idB : String}
    {valuesA valuesB : List Value} (heldA : HoldsIndex c a typeA idA valuesA)
    (heldB : HoldsIndex c b typeB idB valuesB) :
    let textA := typeA ++ String.join (valuesA.map Value.fingerprintText)
    let textB := typeB ++ String.join (valuesB.map Value.fingerprintText)
    Entity.fingerprintText? c a = .ok (some textA) ∧
    Entity.fingerprintText? c b = .ok (some textB) ∧
    (textA = textB ↔ FedAlike typeA valuesA typeB valuesB) ∧
    ∀ s : Store, s.Consistent → (s.addNode c a false).1 = .ok true →
      (s.addNode c b false).1 = .ok true →
      ((s.addNode c a false).2.addNode c b false).1 =
        if typeA ++ idA = typeB ++ idB then .ok false
        else if Digest.Sha256.ofText textA = Digest.Sha256.ofText textB then
          .error (.uniqueness "Node" (Digest.Sha256.ofText textB) (typeA ++ idA) (typeB ++ idB))
        else .ok true := by
  intro textA textB
  have fedA := heldA.fingerprintText?_eq
  have fedB := heldB.fingerprintText?_eq
  refine ⟨fedA, fedB, append_eq_append_iff_fedAlike (heldA.length_eq heldB), ?_⟩
  intro s consistent first alone
  have ofA : Entity.computeFingerprint c a = .ok (some (Digest.Sha256.ofText textA)) := by
    rw [Entity.computeFingerprint, fedA]
    rfl
  have ofB : Entity.computeFingerprint c b = .ok (some (Digest.Sha256.ofText textB)) := by
    rw [Entity.computeFingerprint, fedB]
    rfl
  exact addNode_addNode consistent heldA.logicKey?_eq heldB.logicKey?_eq ofA ofB first alone

/-- Houses are told apart by their block and their door. -/
def house : NodeDefinition := { name := "House", uniqueIndex := ["block", "door"] }

def houseCatalog : Catalog := (Catalog.empty.putNode house false).toOption.getD .empty

theorem houseCatalog_eq :
    houseCatalog = { Catalog.empty with nodes := Catalog.empty.nodes.insert "House" house } := by
  have sorted (texts : List String) (rising : texts.Pairwise (· ≤ ·)) :
      sortedTexts texts = texts := List.mergeSort_of_pairwise (by simpa using rising)
  have normal : house.normalized = house := by
    rw [NodeDefinition.normalized, sorted _ (by decide), sorted _ (by decide)]
  change { Catalog.empty with nodes := Catalog.empty.nodes.insert "House" house.normalized } = _
  rw [normal]

def houseAt (block : String) (door : Value) (id : String) : Node :=
  Entity.setProperty (Entity.setProperty (.named "House" id) "block" (.text block)) "door" door

theorem holdsIndex_houseAt (block : String) (door : Value) (id : String) :
    HoldsIndex houseCatalog (houseAt block door id) "House" id [.text block, door] := by
  have index : Entity.uniqueIndex houseCatalog (houseAt block door id) = ["block", "door"] := by
    rw [houseCatalog_eq]
    rfl
  refine ⟨rfl, rfl, ?_, ?_⟩
  · rw [index]
    decide
  · rw [index]
    rfl

/-- The third house of a block and the fourth one are told apart. -/
theorem neighbours_taken_in :
    let third := houseAt "K" (.integer 3) "a"
    let fourth := houseAt "K" (.integer 4) "b"
    ¬ FedAlike "House" [.text "K", .integer 3] "House" [.text "K", .integer 4] ∧
    ((Store.empty.addNode houseCatalog third false).2.addNode houseCatalog fourth false).1 =
      .ok true := by
  intro third fourth
  obtain ⟨_, _, told, added⟩ := uniqueness_of_values houseCatalog
    (holdsIndex_houseAt "K" (.integer 3) "a") (holdsIndex_houseAt "K" (.integer 4) "b")
  have thirdAlone : (Store.empty.addNode houseCatalog third false).1 = .ok true := by
    rw [houseCatalog_eq]
    decide +kernel
  have fourthAlone : (Store.empty.addNode houseCatalog fourth false).1 = .ok true := by
    rw [houseCatalog_eq]
    decide +kernel
  refine ⟨told.not.mp (by decide), ?_⟩
  rw [added .empty .empty thirdAlone fourthAlone]
  decide +kernel

/-- Door 12 of block `K` and door 2 of block `K1` are different values, but they are fed as one
    text, and the second house is refused. -/
theorem doors_confused :
    let one := houseAt "K" (.text "12") "a"
    let other := houseAt "K1" (.text "2") "b"
    HoldsIndex houseCatalog one "House" "a" [.text "K", .text "12"] ∧
    HoldsIndex houseCatalog other "House" "b" [.text "K1", .text "2"] ∧
    (∀ entry ∈ Entity.uniqueIndex houseCatalog one, Chain.hasMarker entry = false) ∧
    Entity.property? one "block" ≠ Entity.property? other "block" ∧
    Entity.fingerprintText? houseCatalog one = .ok (some "HouseK12") ∧
    Entity.fingerprintText? houseCatalog other = .ok (some "HouseK12") ∧
    ((Store.empty.addNode houseCatalog one false).2.addNode houseCatalog other false).1.isOk =
      false := by
  intro one other
  refine ⟨holdsIndex_houseAt .., holdsIndex_houseAt .., ?_⟩
  rw [houseCatalog_eq]
  refine ⟨by decide +kernel, ?_, by decide +kernel, by decide +kernel, by decide +kernel⟩
  have blocks : some (Value.text "K") ≠ some (.text "K1") := by simp
  exact blocks

end Store

end SchemaGraph
