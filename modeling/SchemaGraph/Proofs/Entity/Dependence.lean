import SchemaGraph.Proofs.Entity.Lawful
import SchemaGraph.Proofs.Schema.Declaration
import SchemaGraph.Proofs.Schema.Loading

/-! # What fingerprints depend on

Where the type has a unique index, the fingerprint is made of the type, for events with both
ends, and of the properties that the index names. Nothing else of an entity bears on it, nor does
the order in which the index was declared.
-/

namespace SchemaGraph

namespace Entity

variable {ε : Type} [Entity ε] {c : Catalog} {index : List String} {a b : ε}

/-- The entities have the same properties, or both none, wherever a unique index looks: under
    each of its entries, and under the property that a chain in it is associated with. -/
structure AgreeOn (c : Catalog) (index : List String) (a b : ε) : Prop where
  entry : ∀ entry ∈ index, property? a entry = property? b entry
  associated : ∀ name, Chain.associatedProperty? c index = .ok (some name) →
    property? a name = property? b name

theorem AgreeOn.indexValue?_eq (h : AgreeOn c index a b) {entry : String}
    (inside : entry ∈ index) :
    indexValue? c index (properties a) entry = indexValue? c index (properties b) entry := by
  have agree : (properties a).get? entry = (properties b).get? entry := h.entry entry inside
  unfold indexValue?
  rw [agree]
  cases (properties b).get? entry with
  | some value => rfl
  | none =>
      dsimp only
      split
      · -- which property a chain is associated with does not depend on the entity
        cases named : Chain.associatedProperty? c index with
        | error cause => rfl
        | ok name =>
            cases name with
            | none => rfl
            | some name => exact congrArg Except.ok (h.associated name named)
      · rfl

theorem AgreeOn.indexText?_eq (h : AgreeOn c index a b) {entries : List String}
    (inside : entries ⊆ index) :
    indexText? c index (properties a) entries = indexText? c index (properties b) entries := by
  induction entries with
  | nil => rfl
  | cons entry rest ih =>
      obtain ⟨here, later⟩ := List.cons_subset.mp inside
      unfold indexText?
      rw [h.indexValue?_eq here, ih later]

theorem computeFingerprint_of_agree (effective : isEffective a = true)
    (effectiveToo : isEffective b = true) (sameBasis : basis? a = basis? b)
    (sameIndex : uniqueIndex c a = uniqueIndex c b) (indexed : uniqueIndex c a ≠ [])
    (agree : AgreeOn c (uniqueIndex c a) a b) :
    computeFingerprint c a = computeFingerprint c b := by
  simp only [isEffective, Bool.and_eq_true, Option.isSome_iff_exists] at effective effectiveToo
  obtain ⟨⟨idA, hasIdA⟩, basis, hasBasis⟩ := effective
  obtain ⟨⟨idB, hasIdB⟩, _⟩ := effectiveToo
  have some : ¬ (uniqueIndex c a).isEmpty = true := by simpa using indexed
  have sameText := agree.indexText?_eq (List.Subset.refl _)
  simp only [computeFingerprint, fingerprintText?, ← sameBasis, ← sameIndex, hasBasis, hasIdA,
    hasIdB, if_neg some, sameText]

end Entity

open Entity (AgreeOn computeFingerprint isEffective uniqueIndex)

/-- Two effective nodes of one type with a unique index, or two effective events of one type
    between the same ends, have the same fingerprint, or one cannot be determined for either, or
    both fail alike, once they agree wherever the index looks. That the one is computed in a
    catalog which was declared with unique indices in other orders makes no difference. -/
theorem fingerprint_of_identity (start : Catalog) {actions actions' : List Catalog.Action}
    (reordered : List.Forall₂ Catalog.Action.Reorders actions actions') :
    let c := Catalog.runAll actions start
    let c' := Catalog.runAll actions' start
    (∀ a b : Node, isEffective a = true → isEffective b = true →
      a.core.typeName = b.core.typeName → uniqueIndex c a ≠ [] →
      AgreeOn c (uniqueIndex c a) a b → computeFingerprint c a = computeFingerprint c' b) ∧
    ∀ a b : Event, isEffective a = true → isEffective b = true →
      a.core.typeName = b.core.typeName → a.left = b.left → a.right = b.right →
      uniqueIndex c a ≠ [] → AgreeOn c (uniqueIndex c a) a b →
      computeFingerprint c a = computeFingerprint c' b := by
  intro c c'
  have sameCatalog : c' = c := (Catalog.runAll_reordered reordered start).symm
  rw [sameCatalog]
  constructor
  · intro a b effective effectiveToo sameType indexed agree
    apply Entity.computeFingerprint_of_agree effective effectiveToo sameType _ indexed agree
    simp only [uniqueIndex, Node.definition?, sameType]
  · intro a b effective effectiveToo sameType sameLeft sameRight indexed agree
    apply Entity.computeFingerprint_of_agree effective effectiveToo _ _ indexed agree
    · simp only [Entity.basis?, sameType, sameLeft, sameRight]
    · simp only [uniqueIndex, Event.definition?, Event.definitionKey?, sameType, sameLeft,
        sameRight]

/-- Accounts, which are unique by their number and by who holds them. -/
def account : NodeDefinition :=
  { name := "Account", uniqueIndex := ["Account-HeldBy>Person", "number"] }

/-- Who has held an account since when. -/
def heldBy : EventDefinition :=
  { key := ⟨"HeldBy", "Account", "Person"⟩, uniqueIndex := ["since"] }

def declaredAccounts (account : NodeDefinition) : List Catalog.Action :=
  [.putNode { name := "Person" } false, .putNode account false, .putEvent heldBy false]

theorem runAll_declaredAccounts :
    Catalog.runAll (declaredAccounts account) .empty =
      { Catalog.empty with
        nodes := (Catalog.empty.nodes.insert "Person" { name := "Person" }).insert "Account"
          account }.withEvents (Catalog.empty.events.insert heldBy.key heldBy) := by
  have person : ({ name := "Person" } : NodeDefinition).normalized = { name := "Person" } :=
    NodeDefinition.normalized_of_rising ⟨by decide, by decide⟩
  have held : heldBy.normalized = heldBy :=
    EventDefinition.normalized_of_rising ⟨by decide, by decide⟩
  have normal : account.normalized = account :=
    NodeDefinition.normalized_of_rising ⟨by decide, by decide⟩
  change { Catalog.empty with
      nodes := (Catalog.empty.nodes.insert "Person" (NodeDefinition.normalized _)).insert "Account"
        account.normalized }.withEvents
          (Catalog.empty.events.insert heldBy.key heldBy.normalized) = _
  rw [person, normal, held]

/-- Account 2 is account 1 once more, with a note, and declared in the other order. So is the
    second event that says who holds account 1. -/
theorem account_twice :
    let c := Catalog.runAll (declaredAccounts account) .empty
    let c' := Catalog.runAll (declaredAccounts
      { account with uniqueIndex := ["number", "Account-HeldBy>Person"] }) .empty
    let one := Entity.setProperty
      (Entity.setProperty (Node.named "Account" "1") "number" (.integer 7))
      "uniquePersonId" (.text "p")
    let two := Entity.setOperation (Entity.setProperty (Entity.setProperty (Entity.setProperty
      (Node.named "Account" "2") "uniquePersonId" (.text "p")) "note" .null)
      "number" (.integer 7)) .update
    let event := Entity.setProperty (Event.between "HeldBy" "e" one (.named "Person" "p"))
      "since" (.integer 2020)
    computeFingerprint c one = computeFingerprint c' two ∧
      computeFingerprint c event = computeFingerprint c' (Entity.setId event "f") := by
  intro c c' one two event
  have reordered : List.Forall₂ Catalog.Action.Reorders (declaredAccounts account)
      (declaredAccounts { account with uniqueIndex := ["number", "Account-HeldBy>Person"] }) :=
    .cons (.same _) (.cons (.putNode (.index (.swap _ _ _)) false) (.cons (.same _) .nil))
  have index : uniqueIndex c one = ["Account-HeldBy>Person", "number"] := by
    simp only [c, runAll_declaredAccounts]
    decide +kernel
  have associated : Chain.associatedProperty? c ["Account-HeldBy>Person", "number"] =
      .ok (some "uniquePersonId") := by
    simp only [c, runAll_declaredAccounts]
    decide +kernel
  have agree : AgreeOn c (uniqueIndex c one) one two := by
    rw [index]
    constructor
    · simp only [List.forall_mem_cons]
      exact ⟨rfl, rfl, List.forall_mem_nil _⟩
    · intro name named
      rw [associated] at named
      cases named
      rfl
  have eventIndex : uniqueIndex c event = ["since"] := by
    simp only [c, runAll_declaredAccounts]
    decide +kernel
  have agreeToo : AgreeOn c (uniqueIndex c event) event (Entity.setId event "f") :=
    ⟨fun _ _ => rfl, fun _ _ => rfl⟩
  obtain ⟨ofNodes, ofEvents⟩ := fingerprint_of_identity .empty reordered
  constructor
  · apply ofNodes one two rfl rfl rfl _ agree
    change uniqueIndex c one ≠ []
    rw [index]
    decide
  · apply ofEvents event (Entity.setId event "f") rfl rfl rfl rfl rfl _ agreeToo
    change uniqueIndex c event ≠ []
    rw [eventIndex]
    decide

end SchemaGraph
