import SchemaGraph.Entity.Event
import SchemaGraph.Entity.Fingerprint
import SchemaGraph.Proofs.Outcome

/-! # What a fingerprint says nothing about

Writing a fingerprint into an entity, or any other part of its core but the type and the
identifier, leaves alone what tells the entity apart.
-/

namespace SchemaGraph

/-- A kind whose entities are told apart by nothing of their core but the type. -/
class LawfulEntity (ε : Type) [Entity ε] : Prop where
  kind_withCore (e : ε) (core : Core) : Entity.kind (Entity.withCore e core) = Entity.kind e
  basis?_withCore (e : ε) (core : Core) (sameType : core.typeName = Entity.typeName e) :
    Entity.basis? (Entity.withCore e core) = Entity.basis? e
  uniqueIndex_withCore (c : Catalog) (e : ε) (core : Core)
    (sameType : core.typeName = Entity.typeName e) :
    Entity.uniqueIndex c (Entity.withCore e core) = Entity.uniqueIndex c e

instance : LawfulEntity Node where
  kind_withCore _ _ := rfl
  basis?_withCore _ _ sameType := sameType
  uniqueIndex_withCore _ _ _ sameType := by
    simp only [Entity.uniqueIndex, Node.definition?, Entity.withCore, sameType]
    rfl

instance : LawfulEntity Event where
  kind_withCore _ _ := rfl
  basis?_withCore _ _ sameType := by
    simp only [Entity.basis?, Entity.withCore, sameType]
    rfl
  uniqueIndex_withCore _ _ _ sameType := by
    simp only [Entity.uniqueIndex, Event.definition?, Event.definitionKey?, Entity.withCore,
      sameType]
    rfl

namespace Entity

variable {ε : Type} [Entity ε]

@[simp] theorem core_modifyCore (f : Core → Core) (e : ε) : core (modifyCore f e) = f (core e) :=
  core_withCore e _

@[simp] theorem id_withFingerprint (e : ε) (f : Option String) :
    id (withFingerprint e f) = id e := by
  simp [id, withFingerprint]

@[simp] theorem typeName_withFingerprint (e : ε) (f : Option String) :
    typeName (withFingerprint e f) = typeName e := by
  simp [typeName, withFingerprint]

@[simp] theorem fingerprint_withFingerprint (e : ε) (f : Option String) :
    fingerprint (withFingerprint e f) = f := by
  simp [fingerprint, withFingerprint]

/-- An entity is stamped with the fingerprint that is computed for it, and with nothing else. -/
theorem stamped_eq_ok_iff {c : Catalog} {e stampedOne : ε} :
    stamped c e = .ok stampedOne ↔
      ∃ f, computeFingerprint c e = .ok f ∧ stampedOne = withFingerprint e f := by
  rw [stamped, Outcome.bind_eq_ok_iff]
  refine exists_congr fun f => and_congr_right fun _ => ?_
  rw [Outcome.pure_eq_ok_iff, eq_comm]

theorem stamped_eq_error_iff {c : Catalog} {e : ε} {cause : EntityError} :
    stamped c e = .error cause ↔ computeFingerprint c e = .error cause := by
  rw [stamped, Outcome.bind_eq_error_iff]
  constructor
  · rintro (fails | ⟨f, _, stamps⟩)
    · exact fails
    · cases stamps
  · exact Or.inl

theorem logicId_eq_ok_iff {e : ε} {key : String} :
    logicId e = .ok key ↔ logicKey? e = some key := by
  rw [logicId]
  cases logicKey? e <;> simp

theorem isEffective_iff {e : ε} : isEffective e = true ↔ ∃ key, logicKey? e = some key := by
  rw [isEffective, logicKey?]
  cases basis? e <;> cases id e <;> simp

variable [LawfulEntity ε]

theorem kind_withFingerprint (e : ε) (f : Option String) : kind (withFingerprint e f) = kind e :=
  LawfulEntity.kind_withCore e _

@[simp] theorem logicKey?_withFingerprint (e : ε) (f : Option String) :
    logicKey? (withFingerprint e f) = logicKey? e := by
  have basis : basis? (withFingerprint e f) = basis? e :=
    LawfulEntity.basis?_withCore e _ rfl
  rw [logicKey?, logicKey?, basis, id_withFingerprint]

theorem logicKey?_setOperation (e : ε) (operation : Operation) :
    logicKey? (setOperation e operation) = logicKey? e := by
  have basis : basis? (setOperation e operation) = basis? e :=
    LawfulEntity.basis?_withCore e _ rfl
  have sameId : id (setOperation e operation) = id e := by simp [id, setOperation]
  rw [logicKey?, logicKey?, basis, sameId]

omit [LawfulEntity ε] in
theorem fingerprint_setOperation (e : ε) (operation : Operation) :
    fingerprint (setOperation e operation) = fingerprint e := by
  simp [fingerprint, setOperation]

theorem logicKey?_of_stamped {c : Catalog} {e stampedOne : ε}
    (h : stamped c e = .ok stampedOne) : logicKey? stampedOne = logicKey? e := by
  obtain ⟨f, _, rfl⟩ := stamped_eq_ok_iff.mp h
  exact logicKey?_withFingerprint e f

/-- Of the core, only the identifier, the type and the properties have a part in the fingerprint
    that is computed. -/
theorem computeFingerprint_modifyCore (c : Catalog) (e : ε) {change : Core → Core}
    (sameId : (change (core e)).id = id e) (sameType : (change (core e)).typeName = typeName e)
    (sameProperties : (change (core e)).properties = properties e) :
    computeFingerprint c (modifyCore change e) = computeFingerprint c e := by
  have ofId : id (modifyCore change e) = id e := by
    rw [id, core_modifyCore, sameId]
  have ofType : typeName (modifyCore change e) = typeName e := by
    rw [typeName, core_modifyCore, sameType]
  have ofProperties : properties (modifyCore change e) = properties e := by
    rw [properties, core_modifyCore, sameProperties]
  have ofKind : kind (modifyCore change e) = kind e := LawfulEntity.kind_withCore e _
  have ofBasis : basis? (modifyCore change e) = basis? e :=
    LawfulEntity.basis?_withCore e _ sameType
  have ofIndex : uniqueIndex c (modifyCore change e) = uniqueIndex c e :=
    LawfulEntity.uniqueIndex_withCore c e _ sameType
  simp only [computeFingerprint, fingerprintText?, notEffective, ofId, ofType, ofProperties, ofKind,
    ofBasis, ofIndex]

/-- The fingerprint that an entity holds has no part in the one that is computed. -/
theorem computeFingerprint_withFingerprint (c : Catalog) (e : ε) (f : Option String) :
    computeFingerprint c (withFingerprint e f) = computeFingerprint c e :=
  computeFingerprint_modifyCore c e rfl rfl rfl

/-- Neither have the directives. -/
theorem computeFingerprint_setOperation (c : Catalog) (e : ε) (operation : Operation) :
    computeFingerprint c (setOperation e operation) = computeFingerprint c e :=
  computeFingerprint_modifyCore c e rfl rfl rfl

theorem computeFingerprint_removeDirectives (c : Catalog) (e : ε) :
    computeFingerprint c (removeDirectives e) = computeFingerprint c e :=
  computeFingerprint_modifyCore c e rfl rfl rfl

end Entity

end SchemaGraph
