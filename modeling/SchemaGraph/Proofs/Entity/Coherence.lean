import SchemaGraph.Proofs.Entity.Lawful

/-! # Held fingerprints stay right

An entity holds the fingerprint that was computed last. Whatever is done to the entity under one
catalog, it then holds none or the one that would be computed now. So an entity that is asked for
its fingerprint answers as if it held none.
-/

namespace SchemaGraph

namespace Entity

variable {ε : Type} [Entity ε] {c : Catalog} {e : ε}

/-- The fingerprint that an entity carries is the one that is computed for it; it carries none
    exactly when the computed one is indeterminate. -/
def Fresh (c : Catalog) (e : ε) : Prop := computeFingerprint c e = .ok (fingerprint e)

/-- The entity carries no fingerprint, or the one that is computed for it. -/
def Coherent (c : Catalog) (e : ε) : Prop :=
  ∀ f, fingerprint e = some f → computeFingerprint c e = .ok (some f)

theorem Fresh.coherent (h : Fresh c e) : Coherent c e := by
  intro f held
  rw [h, held]

theorem coherent_of_none (h : fingerprint e = none) : Coherent c e := by
  intro f held
  rw [h] at held
  cases held

theorem Coherent.congr {d : ε} (h : Coherent c e) (sameHeld : fingerprint d = fingerprint e)
    (sameComputed : computeFingerprint c d = computeFingerprint c e) : Coherent c d := by
  intro f held
  rw [sameComputed]
  apply h
  rw [← sameHeld, held]

/-- Asking a coherent entity for its fingerprint answers what is computed. -/
theorem Coherent.resolved_eq (h : Coherent c e) :
    (resolved c e).map fingerprint = computeFingerprint c e := by
  unfold resolved
  cases held : fingerprint e with
  | some f =>
      rw [Option.isSome_some, if_pos rfl, h f held]
      exact congrArg Except.ok held
  | none =>
      rw [Option.isSome_none, if_neg Bool.false_ne_true, stamped]
      cases computeFingerprint c e with
      | error cause => rfl
      | ok f => exact congrArg Except.ok (fingerprint_withFingerprint e f)

/-- What every edit keeps holds after a run of edits. -/
theorem Coherent.foldl {α : Type} {run : ε → α → ε} (h : Coherent c e)
    (kept : ∀ (e : ε) (edit : α), Coherent c e → Coherent c (run e edit)) (edits : List α) :
    Coherent c (edits.foldl run e) :=
  List.foldlRecOn edits run h fun e coherent edit _ => kept e edit coherent

end Entity

/-! ## What is done to entities -/

/-- An edit of an entity of either kind. -/
inductive Entity.Edit where
  | setProperty (key : String) (value : Value)
  | removeProperty (key : String)
  | mergeNode (other : Node)
  | mergeEvent (other : Event)
  | setId (id : String)
  | setOperation (operation : Operation)
  | removeDirectives
  /-- Compute the fingerprint and hold it. -/
  | stamp
  /-- Ask for the fingerprint, which is computed only when none is held. -/
  | resolve

/-- The entity behind an edit; one that fails leaves it as it was. -/
def Entity.Edit.run {ε : Type} [Entity ε] (c : Catalog) (e : ε) : Edit → ε
  | setProperty key value => Entity.setProperty e key value
  | removeProperty key => (Entity.removeProperty e key).2
  | mergeNode other => merge e other
  | mergeEvent other => merge e other
  | setId id => Entity.setId e id
  | setOperation operation => Entity.setOperation e operation
  | removeDirectives => Entity.removeDirectives e
  | stamp => (stamped c e).toOption.getD e
  | resolve => (resolved c e).toOption.getD e

/-- An edit of a node. -/
inductive Node.Edit where
  | shared (edit : Entity.Edit)
  | setTypeName (typeName : String)
  | putChild (definition : EventDefinition) (child : Node)
  /-- Go on with a copy for other hands. -/
  | detach

def Node.Edit.run (c : Catalog) (n : Node) : Edit → Node
  | shared edit => edit.run c n
  | setTypeName typeName => n.setTypeName typeName
  | putChild definition child => n.putChild definition child
  | detach => n.detached

/-- An edit of an event. An end is told by type and identifier, or by a node. -/
inductive Event.Edit where
  | shared (edit : Entity.Edit)
  | setLeft (typeName id : String)
  | setRight (typeName id : String)
  | setLeftNode (n : Node)
  | setRightNode (n : Node)
  /-- Go on with a copy for other hands. -/
  | detach

def Event.Edit.run (c : Catalog) (e : Event) : Edit → Event
  | shared edit => edit.run c e
  | setLeft typeName id => e.setLeft (.named typeName id)
  | setRight typeName id => e.setRight (.named typeName id)
  | setLeftNode n => e.setLeft (.ofNode n)
  | setRightNode n => e.setRight (.ofNode n)
  | detach => e.detached

/-! ## What edits keep -/

namespace Entity

variable {ε : Type} [Entity ε] {c : Catalog} {e : ε}

/-- A change that makes the core stale drops the fingerprint. -/
theorem coherent_modifyCore {change : Core → Core}
    (drops : (change (core e)).fingerprint = none) : Coherent c (modifyCore change e) := by
  apply coherent_of_none
  rw [fingerprint, core_modifyCore, drops]

variable [LawfulEntity ε]

theorem fresh_of_stamped {taken : ε} (stamping : stamped c e = .ok taken) : Fresh c taken := by
  obtain ⟨f, computed, rfl⟩ := stamped_eq_ok_iff.mp stamping
  rw [Fresh, computeFingerprint_withFingerprint, computed, fingerprint_withFingerprint]

theorem Fresh.setOperation (h : Fresh c e) (operation : Operation) :
    Fresh c (setOperation e operation) := by
  rw [Fresh, computeFingerprint_setOperation, fingerprint_setOperation]
  exact h

theorem Coherent.stamp (h : Coherent c e) : Coherent c ((stamped c e).toOption.getD e) :=
  Outcome.getD_keeps h fun stamping => (fresh_of_stamped stamping).coherent

theorem Coherent.resolve (h : Coherent c e) : Coherent c ((resolved c e).toOption.getD e) := by
  unfold resolved
  split
  · exact h
  · exact h.stamp

theorem Coherent.run (h : Coherent c e) (edit : Edit) : Coherent c (edit.run c e) := by
  cases edit with
  | setProperty | mergeNode | mergeEvent | setId =>
      unfold Edit.run
      exact coherent_modifyCore rfl
  | removeProperty =>
      dsimp only [Edit.run, Entity.removeProperty]
      exact coherent_modifyCore rfl
  | setOperation operation =>
      apply h.congr
      · exact fingerprint_setOperation e operation
      · exact computeFingerprint_setOperation c e operation
  | removeDirectives =>
      apply h.congr
      · simp [fingerprint, Edit.run, Entity.removeDirectives]
      · exact computeFingerprint_removeDirectives c e
  | stamp => exact h.stamp
  | resolve => exact h.resolve

end Entity

open Entity (Coherent)

theorem Node.coherent_run {c : Catalog} (n : Node) (edit : Edit) (h : Coherent c n) :
    Coherent c (edit.run c n) := by
  cases edit with
  | shared edit => exact h.run edit
  | setTypeName | detach => exact Entity.coherent_of_none rfl
  -- the children have no part in the fingerprint
  | putChild => exact h.congr rfl rfl

theorem Event.coherent_run {c : Catalog} (e : Event) (edit : Edit) (h : Coherent c e) :
    Coherent c (edit.run c e) := by
  cases edit with
  | shared edit => exact h.run edit
  | setLeft | setRight | setLeftNode | setRightNode | detach => exact Entity.coherent_of_none rfl

/-- After any edits under one catalog, failed ones included, an entity that held no fingerprint
    at first holds none or the one that is computed for its contents, and when it is asked for its
    fingerprint, it answers what is computed. -/
theorem edits_coherent (c : Catalog) :
    (∀ (n : Node) (edits : List Node.Edit), Entity.fingerprint n = none →
      let edited := edits.foldl (Node.Edit.run c) n
      Coherent c edited ∧
        (Entity.resolved c edited).map Entity.fingerprint = Entity.computeFingerprint c edited) ∧
    ∀ (e : Event) (edits : List Event.Edit), Entity.fingerprint e = none →
      let edited := edits.foldl (Event.Edit.run c) e
      Coherent c edited ∧
        (Entity.resolved c edited).map Entity.fingerprint = Entity.computeFingerprint c edited := by
  constructor
  · intro n edits unheld edited
    have coherent : Coherent c edited :=
      (Entity.coherent_of_none unheld).foldl Node.coherent_run edits
    exact ⟨coherent, coherent.resolved_eq⟩
  · intro e edits unheld edited
    have coherent : Coherent c edited :=
      (Entity.coherent_of_none unheld).foldl Event.coherent_run edits
    exact ⟨coherent, coherent.resolved_eq⟩

/-- A stamped note is marked, gets a child and another type, and a stamped event another end. When
    they are asked for their fingerprints, they hold new ones. -/
theorem retyped_note_coherent :
    let note : Node := .named "Note" "a"
    let link := Event.between "Link" "l" note note
    let retyped := [.shared .stamp, .shared (.setOperation .delete),
      .putChild default note, .setTypeName "Memo",
      .shared .resolve].foldl (Node.Edit.run .empty) note
    let relinked := [.shared .stamp, .setLeft "Memo" "a", .shared .resolve,
      .shared .removeDirectives].foldl (Event.Edit.run .empty) link
    (Entity.fingerprint note = none ∧ Entity.fingerprint link = none) ∧
      ((Entity.fingerprint retyped).isSome = true ∧ Coherent .empty retyped ∧
        (Entity.resolved .empty retyped).map Entity.fingerprint =
          Entity.computeFingerprint .empty retyped) ∧
      (Entity.fingerprint relinked).isSome = true ∧ Coherent .empty relinked ∧
        (Entity.resolved .empty relinked).map Entity.fingerprint =
          Entity.computeFingerprint .empty relinked := by
  intro note link retyped relinked
  have ofNode : Coherent .empty retyped ∧ _ := (edits_coherent .empty).1 note _ rfl
  have ofEvent : Coherent .empty relinked ∧ _ := (edits_coherent .empty).2 link _ rfl
  exact ⟨⟨rfl, rfl⟩, ⟨by decide +kernel, ofNode⟩, by decide +kernel, ofEvent⟩

end SchemaGraph
