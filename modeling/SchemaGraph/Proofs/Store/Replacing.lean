import SchemaGraph.Proofs.Store.Insertion
import SchemaGraph.Proofs.Store.Moving

/-! # The contract of replacing

An update has requirements, and reports the first that is not met. When all are met, the target
takes over the place of the source: in the order, in the group of its type and, last there, at its
own ends. The entities and index entries that belong to neither of the two are left alone.
-/

namespace SchemaGraph

namespace Shelf

/-- What an update needs. -/
inductive Requirement where
  | effective
  | held
  | current
  | room
  | sameType
  | computable
  | unique
  deriving DecidableEq

/-- Requirements are looked at in this order. -/
def Requirement.place : Requirement → Nat
  | .effective => 0
  | .held => 1
  | .current => 2
  | .room => 3
  | .sameType => 4
  | .computable => 5
  | .unique => 6

variable {ε : Type} [Entity ε] {c : Catalog} {s s' : Shelf ε} {sourceKey sourceId key : String}
  {target e : ε}

/-- A requirement is met by the replacement of the entity under a key. -/
def Meets (c : Catalog) (s : Shelf ε) (sourceKey sourceId : String) (target : ε) :
    Requirement → Prop
  | .effective => Entity.isEffective target = true
  | .held => s.contains sourceKey = true
  | .current => ∃ source, s.get? sourceKey = some source ∧ Entity.id source = some sourceId
  | .room => ∃ key, Entity.logicKey? target = some key ∧
      (key = sourceKey ∨ s.contains key = false)
  | .sameType => ∃ source, s.get? sourceKey = some source ∧
      Entity.typeName source = Entity.typeName target
  | .computable => ∃ f, Entity.computeFingerprint c target = .ok f
  | .unique => ∀ digest holder, Entity.computeFingerprint c target = .ok (some digest) →
      s.Carries holder digest → holder = sourceKey

/-- What is reported of a requirement that is not met. -/
def Reports (c : Catalog) (s : Shelf ε) (sourceKey sourceId : String) (target : ε)
    (fault : StoreError) : Requirement → Prop
  | .effective => fault = .update .targetNotEffective
  | .held => fault = .update (.sourceNotFound sourceKey)
  | .current => ∃ source actual, s.get? sourceKey = some source ∧
      Entity.id source = some actual ∧ fault = .update (.staleSourceId sourceId actual)
  | .room => ∃ key, Entity.logicKey? target = some key ∧ fault = .update (.targetExists key)
  | .sameType => ∃ source, s.get? sourceKey = some source ∧
      fault = .update (.typeMismatch ((Entity.typeName source).getD "")
        ((Entity.typeName target).getD ""))
  | .computable => ∃ cause, Entity.computeFingerprint c target = .error cause ∧
      fault = .entity cause
  | .unique => ∃ digest holder key, Entity.computeFingerprint c target = .ok (some digest) ∧
      s.Carries holder digest ∧ holder ≠ sourceKey ∧ Entity.logicKey? target = some key ∧
      fault = .uniqueness (Entity.kind target) digest holder key

/-- Of the requirements that are not met, the first one. -/
def FirstUnmet (met : Requirement → Prop) (r : Requirement) : Prop :=
  ¬ met r ∧ ∀ q, q.place < r.place → met q

theorem Requirement.place_injective {q r : Requirement} (same : q.place = r.place) : q = r := by
  cases q <;> cases r <;> first | rfl | cases same

theorem FirstUnmet.eq {met : Requirement → Prop} {q r : Requirement} (first : FirstUnmet met q)
    (other : FirstUnmet met r) : q = r := by
  rcases Nat.lt_trichotomy q.place r.place with earlier | same | later
  · exact absurd (other.2 q earlier) first.1
  · exact Requirement.place_injective same
  · exact absurd (first.2 r later) other.1

theorem Consistent.report_eq (h : s.Consistent) {r : Requirement} {one other : StoreError}
    (first : s.Reports c sourceKey sourceId target one r)
    (second : s.Reports c sourceKey sourceId target other r) : one = other := by
  cases r with
  | effective => rw [first, second]
  | held => rw [first, second]
  | current =>
      obtain ⟨source, actual, found, named, rfl⟩ := first
      obtain ⟨_, _, foundToo, namedToo, rfl⟩ := second
      rw [found, Option.some_inj] at foundToo
      rw [← foundToo, named, Option.some_inj] at namedToo
      rw [namedToo]
  | room =>
      obtain ⟨key, keyed, rfl⟩ := first
      obtain ⟨_, keyedToo, rfl⟩ := second
      rw [Option.some_inj.mp (keyed.symm.trans keyedToo)]
  | sameType =>
      obtain ⟨source, found, rfl⟩ := first
      obtain ⟨_, foundToo, rfl⟩ := second
      rw [Option.some_inj.mp (found.symm.trans foundToo)]
  | computable =>
      obtain ⟨cause, computed, rfl⟩ := first
      obtain ⟨_, computedToo, rfl⟩ := second
      rw [Except.error.inj (computed.symm.trans computedToo)]
  | unique =>
      obtain ⟨digest, holder, key, computed, ⟨e, held, carries⟩, _, keyed, rfl⟩ := first
      obtain ⟨digest', _, _, computedToo, ⟨d, heldToo, carriesToo⟩, _, keyedToo, rfl⟩ := second
      have sameDigest := Option.some_inj.mp (Except.ok.inj (computed.symm.trans computedToo))
      subst sameDigest
      rw [Option.some_inj.mp (keyed.symm.trans keyedToo),
        h.fingerprint_unique held heldToo carries carriesToo]

/-- The checks of an effective target and a held source. -/
theorem replacement_eq {source : ε} {place : Nat} (keyed : Entity.logicKey? target = some key)
    (placed : s.entries.indexOf? sourceKey = some place) (found : s.get? sourceKey = some source) :
    s.replacement c sourceKey sourceId target =
      if Entity.id source ≠ some sourceId then
        .error (.update (.staleSourceId sourceId ((Entity.id source).getD "")))
      else if key ≠ sourceKey ∧ s.contains key = true then .error (.update (.targetExists key))
      else if Entity.typeName source ≠ Entity.typeName target then
        .error (.update (.typeMismatch ((Entity.typeName source).getD "")
          ((Entity.typeName target).getD "")))
      else (s.admitted c sourceKey key target).map fun taken => ⟨place, source, key, taken⟩ := by
  rw [replacement]
  simp only [keyed, placed, found, throw, throwThe, MonadExceptOf.throw, bind, Except.bind, pure,
    Except.pure, Bool.and_eq_true, decide_eq_true_eq]
  split
  · rfl
  · split
    · rfl
    · split
      · rfl
      · cases s.admitted c sourceKey key target <;> rfl

theorem met_to_next {met : Requirement → Prop} {r : Requirement}
    (before : ∀ q, q.place < r.place → met q) (here : met r) :
    ∀ q, q.place < r.place + 1 → met q := by
  intro q earlier
  rcases Nat.lt_succ_iff_lt_or_eq.mp earlier with lower | same
  · exact before q lower
  · rw [Requirement.place_injective same]
    exact here

theorem id_of_logicKey? (keyed : Entity.logicKey? e = some key) : ∃ id, Entity.id e = some id := by
  cases named : Entity.id e with
  | none => simp [Entity.logicKey?, named] at keyed
  | some id => exact ⟨id, rfl⟩

/-- The last two requirements are those of the fingerprint. -/
theorem Consistent.admission_cases [LawfulEntity ε] (h : s.Consistent)
    (keyed : Entity.logicKey? target = some key) :
    (∃ taken, s.admitted c sourceKey key target = .ok taken ∧
      s.Meets c sourceKey sourceId target .computable ∧
      s.Meets c sourceKey sourceId target .unique) ∨
    ∃ fault, s.admitted c sourceKey key target = .error fault ∧
      (¬ s.Meets c sourceKey sourceId target .computable ∧
          s.Reports c sourceKey sourceId target fault .computable ∨
        s.Meets c sourceKey sourceId target .computable ∧
          ¬ s.Meets c sourceKey sourceId target .unique ∧
          s.Reports c sourceKey sourceId target fault .unique) := by
  cases admission : s.admitted c sourceKey key target with
  | ok taken =>
      obtain ⟨stamping, free⟩ := admitted_eq_ok_iff.mp admission
      obtain ⟨f, computed, rfl⟩ := Entity.stamped_eq_ok_iff.mp stamping
      refine Or.inl ⟨_, rfl, ⟨f, computed⟩, fun digest holder carried carries => ?_⟩
      rw [computed, Except.ok.injEq] at carried
      exact free digest holder (by simpa using carried) (h.holds.mpr carries)
  | error fault =>
      refine Or.inr ⟨fault, rfl, ?_⟩
      rcases admitted_eq_error_iff.mp admission with ⟨cause, fails, rfl⟩ |
        ⟨digest, holder, computed, heldBy, other, rfl⟩
      · refine Or.inl ⟨?_, cause, fails, rfl⟩
        rintro ⟨f, computed⟩
        rw [fails] at computed
        cases computed
      · have carries : s.Carries holder digest := h.holds.mp heldBy
        have shared : ¬ s.Meets c sourceKey sourceId target .unique := fun unique =>
          other (unique digest holder computed carries)
        refine Or.inr ⟨⟨_, computed⟩, shared, ?_⟩
        exact ⟨digest, holder, key, computed, carries, other, keyed, rfl⟩

theorem meets_current (found : s.get? sourceKey = some e) :
    s.Meets c sourceKey sourceId target .current ↔ Entity.id e = some sourceId := by
  simp [Meets, found]

theorem meets_room (keyed : Entity.logicKey? target = some key) :
    s.Meets c sourceKey sourceId target .room ↔ ¬ (key ≠ sourceKey ∧ s.contains key = true) := by
  simp [Meets, keyed, Decidable.imp_iff_not_or]

theorem meets_sameType (found : s.get? sourceKey = some e) :
    s.Meets c sourceKey sourceId target .sameType ↔ Entity.typeName e = Entity.typeName target := by
  simp [Meets, found]

/-- With an effective target and a held source, either all requirements are met and the
    replacement goes ahead, or the first that is not met is reported. -/
theorem Consistent.replacement_cases_of_found [LawfulEntity ε] (h : s.Consistent) {source : ε}
    (keyed : Entity.logicKey? target = some key) (found : s.get? sourceKey = some source) :
    (∃ r, s.replacement c sourceKey sourceId target = .ok r ∧
      ∀ q, s.Meets c sourceKey sourceId target q) ∨
    ∃ fault q, s.replacement c sourceKey sourceId target = .error fault ∧
      FirstUnmet (s.Meets c sourceKey sourceId target) q ∧
      s.Reports c sourceKey sourceId target fault q := by
  have held : s.contains sourceKey = true := (s.entries.contains_iff sourceKey).mpr ⟨source, found⟩
  obtain ⟨place, placed⟩ : ∃ place, s.entries.indexOf? sourceKey = some place :=
    Option.isSome_iff_exists.mp ((s.entries.isSome_indexOf? sourceKey).trans held)
  rw [replacement_eq keyed placed found]
  -- what is met is collected in the order of the checks
  have met : ∀ q, q.place < Requirement.current.place → s.Meets c sourceKey sourceId target q := by
    refine met_to_next (r := .held) (met_to_next (r := .effective) ?_ ?_) held
    · exact fun q lower => absurd lower (Nat.not_lt_zero _)
    · exact Entity.isEffective_iff.mpr ⟨key, keyed⟩
  split
  · rename_i stale
    obtain ⟨actual, named⟩ := id_of_logicKey? (h.keyed found)
    refine Or.inr ⟨_, .current, rfl, ⟨mt (meets_current found).mp stale, met⟩, ?_⟩
    exact ⟨source, actual, found, named, by rw [named, Option.getD_some]⟩
  · rename_i current
    replace met := met_to_next (r := .current) met
      ((meets_current found).mpr (Decidable.not_not.mp current))
    split
    · rename_i taken
      refine Or.inr ⟨_, .room, rfl, ⟨fun room => (meets_room keyed).mp room taken, met⟩, ?_⟩
      exact ⟨key, keyed, rfl⟩
    · rename_i free
      replace met := met_to_next (r := .room) met ((meets_room keyed).mpr free)
      split
      · rename_i otherType
        refine Or.inr ⟨_, .sameType, rfl, ⟨mt (meets_sameType found).mp otherType, met⟩, ?_⟩
        exact ⟨source, found, rfl⟩
      · rename_i sameType
        replace met := met_to_next (r := .sameType) met
          ((meets_sameType found).mpr (Decidable.not_not.mp sameType))
        rcases h.admission_cases keyed with ⟨taken, admission, computable, unique⟩ |
          ⟨fault, refusal, ⟨unmet, report⟩ | ⟨computable, unmet, report⟩⟩
        · rw [admission]
          replace met := met_to_next (r := .unique) (met_to_next (r := .computable) met computable)
            unique
          exact Or.inl ⟨_, rfl, fun q => met q (by cases q <;> decide)⟩
        · rw [refusal]
          exact Or.inr ⟨fault, .computable, rfl, ⟨unmet, met⟩, report⟩
        · rw [refusal]
          replace met := met_to_next (r := .computable) met computable
          exact Or.inr ⟨fault, .unique, rfl, ⟨unmet, met⟩, report⟩

theorem Consistent.replacement_cases [LawfulEntity ε] (h : s.Consistent) (c : Catalog)
    (sourceKey sourceId : String) (target : ε) :
    (∃ r, s.replacement c sourceKey sourceId target = .ok r ∧
      ∀ q, s.Meets c sourceKey sourceId target q) ∨
    ∃ fault q, s.replacement c sourceKey sourceId target = .error fault ∧
      FirstUnmet (s.Meets c sourceKey sourceId target) q ∧
      s.Reports c sourceKey sourceId target fault q := by
  have met : ∀ q, q.place < Requirement.effective.place → s.Meets c sourceKey sourceId target q :=
    fun q lower => absurd lower (Nat.not_lt_zero _)
  cases keyed : Entity.logicKey? target with
  | none =>
      have unmet : ¬ s.Meets c sourceKey sourceId target .effective := by
        simp [Meets, Entity.isEffective_iff, keyed]
      exact Or.inr ⟨_, .effective, by rw [replacement, keyed]; rfl, ⟨unmet, met⟩, rfl⟩
  | some key =>
      cases found : s.get? sourceKey with
      | some source => exact h.replacement_cases_of_found keyed found
      | none =>
          have unmet : ¬ s.Meets c sourceKey sourceId target .held := by
            simp [Meets, (s.entries.get?_eq_none_iff sourceKey).mp found, contains]
          replace met := met_to_next met (Entity.isEffective_iff.mpr ⟨key, keyed⟩)
          refine Or.inr ⟨_, .held, ?_, ⟨unmet, met⟩, rfl⟩
          rw [replacement, keyed, found]
          cases s.entries.indexOf? sourceKey <;> rfl

/-- A replacement fails exactly with what is reported of its first requirement that is not met. -/
theorem Consistent.replacement_eq_error_iff [LawfulEntity ε] (h : s.Consistent)
    {fault : StoreError} : s.replacement c sourceKey sourceId target = .error fault ↔
      ∃ q, FirstUnmet (s.Meets c sourceKey sourceId target) q ∧
        s.Reports c sourceKey sourceId target fault q := by
  rcases h.replacement_cases c sourceKey sourceId target with ⟨r, passed, met⟩ |
    ⟨reported, q, failed, first, report⟩
  · rw [passed]
    constructor
    · intro failed
      cases failed
    · rintro ⟨q, ⟨unmet, _⟩, _⟩
      exact absurd (met q) unmet
  · rw [failed, Except.error.injEq]
    constructor
    · rintro rfl
      exact ⟨q, first, report⟩
    · rintro ⟨other, firstToo, reportToo⟩
      rw [firstToo.eq first] at reportToo
      exact h.report_eq report reportToo

end Shelf

namespace Adjacency

theorem get?_link_of_ne {node other : String} (apart : other ≠ node) (a : Adjacency)
    (event : String) : (a.link node event).get? other = a.get? other := by
  rw [link, SortedMap.get?_insert, if_neg apart]

theorem get?_unlink_of_ne {node other : String} (apart : other ≠ node) (a : Adjacency)
    (event : String) : (a.unlink node event).get? other = a.get? other := by
  rw [unlink]
  split
  · rfl
  · dsimp only
    split
    · rw [SortedMap.get?_erase, if_neg apart]
    · rw [SortedMap.get?_insert, if_neg apart]

theorem get?_foldl_link_of_not_mem {nodes : List String} {other : String} (apart : other ∉ nodes)
    (a : Adjacency) (event : String) :
    (nodes.foldl (fun a node => a.link node event) a).get? other = a.get? other := by
  refine List.foldlRecOn (motive := fun (b : Adjacency) => b.get? other = a.get? other) nodes _ rfl
    fun b same node inside => ?_
  have different : other ≠ node := (ne_of_mem_of_not_mem inside apart).symm
  rw [get?_link_of_ne different, same]

theorem get?_foldl_unlink_of_not_mem {nodes : List String} {other : String}
    (apart : other ∉ nodes) (a : Adjacency) (event : String) :
    (nodes.foldl (fun a node => a.unlink node event) a).get? other = a.get? other := by
  refine List.foldlRecOn (motive := fun (b : Adjacency) => b.get? other = a.get? other) nodes _ rfl
    fun b same node inside => ?_
  have different : other ≠ node := (ne_of_mem_of_not_mem inside apart).symm
  rw [get?_unlink_of_ne different, same]

end Adjacency

namespace Store

variable {c : Catalog} {s s' : Store} {sourceKey sourceId key : String} {source target e : Event}

/-- A store after an event has taken the place of another one: it stands where that one stood, in
    the order and in the group of its type, and is listed last at each of its ends. Nothing is
    left of the other one, and the rest is as it was. -/
structure ReplacedEvent (s s' : Store) (sourceKey : String) (source : Event) (key : String)
    (e : Event) : Prop where
  nodes : s'.nodes = s.nodes
  entries : s'.events.entries.entries = s.events.entries.entries.map fun entry =>
    if entry.1 = sourceKey then (key, e) else entry
  holders (digest : String) : s'.events.holders.get? digest =
    if Entity.fingerprint e = some digest then some key
    else (s.events.holders.get? digest).filter (· ≠ sourceKey)
  types : s'.groups.keys = s.groups.keys
  group (typeName : String) : ((s'.groups.get? typeName).getD .empty).members =
    ((s.groups.get? typeName).getD .empty).members.map fun listed =>
      if listed = sourceKey then key else listed
  incident (node : String) : (s'.adjacency.eventsAt node).members =
    (s.adjacency.eventsAt node).members.filter (· ≠ sourceKey) ++
      if node ∈ e.endKeys then [key] else []
  apart (node : String) : node ∉ source.endKeys → node ∉ e.endKeys →
    s'.adjacency.get? node = s.adjacency.get? node

theorem Consistent.replacedEvent (h : s.Consistent) {r : Shelf.Replacement Event}
    (passed : s.events.replacement c sourceKey sourceId target = .ok r)
    (h' : Consistent
      (s.applyEventUpdate sourceKey { r with target := r.target.withMembership c })) :
    s.ReplacedEvent (s.applyEventUpdate sourceKey { r with target := r.target.withMembership c })
      sourceKey r.source r.key (r.target.withMembership c) := by
  obtain ⟨changed, inside, -, sameType, fresh⟩ := replaced_of_replacement passed
  obtain ⟨_, _, found, _, free, _⟩ := Shelf.replacement_eq_ok_iff.mp passed
  refine ⟨rfl, changed, ?_, ?_, fun typeName => ?_, fun node => ?_, fun node notOld notNew => ?_⟩
  · exact h.events.holders_of_lookup h'.events (fun other => s.events.get?_replace ..) free
  · simp only [applyEventUpdate]
    split
    · exact TypeGroups.keys_refile ..
    · rfl
  · have ofMember : (r.target.withMembership c).core.typeName = r.source.core.typeName := sameType
    rw [h'.groups.members, h.groups.members, ← keysOfType_rekeyed,
      ← keysOfType_replaced s.events.entries.distinct inside ofMember, ← changed]
    rfl
  · have notLeft : r.key ∉ (s.adjacency.eventsAt node).erase sourceKey := by
      intro listed
      obtain ⟨listed, different⟩ := OrderedSet.mem_erase.mp listed
      obtain ⟨e, held, _⟩ := (h.adjacency node r.key).mp listed
      exact different (fresh (List.mem_map_of_mem held))
    simp only [applyEventUpdate, Adjacency.eventsAt_foldl_link, h.eventsAt_unlinked found]
    split
    · rw [OrderedSet.members_insert_of_absent notLeft]
      rfl
    · rw [List.append_nil]
      rfl
  · simp only [applyEventUpdate]
    rw [Adjacency.get?_foldl_link_of_not_mem notNew, Adjacency.get?_foldl_unlink_of_not_mem notOld]

theorem fst_updateEvent (c : Catalog) (s : Store) (sourceKey sourceId : String) (target : Event) :
    (s.updateEvent c sourceKey sourceId target).1 =
      (s.events.replacement c sourceKey sourceId target).map fun r =>
        r.target.withMembership c := by
  rw [updateEvent]
  cases s.events.replacement c sourceKey sourceId target <;> rfl

/-- When an update of an event fails and with what, and what one that succeeds does. -/
structure UpdatesEvent (c : Catalog) (s : Store) (sourceKey sourceId : String) (target : Event) :
    Prop where
  fails (fault : StoreError) : (s.updateEvent c sourceKey sourceId target).1 = .error fault ↔
    ∃ q, Shelf.FirstUnmet (s.events.Meets c sourceKey sourceId target) q ∧
      s.events.Reports c sourceKey sourceId target fault q
  failed (fault : StoreError) : (s.updateEvent c sourceKey sourceId target).1 = .error fault →
    (s.updateEvent c sourceKey sourceId target).2 = s
  succeeds : (∃ e, (s.updateEvent c sourceKey sourceId target).1 = .ok e) ↔
    ∀ q, s.events.Meets c sourceKey sourceId target q
  succeeded (e : Event) : (s.updateEvent c sourceKey sourceId target).1 = .ok e →
    ∃ source key f, s.events.get? sourceKey = some source ∧ Entity.logicKey? target = some key ∧
      Entity.computeFingerprint c target = .ok f ∧
      e = (Entity.withFingerprint target f).withMembership c ∧
      s.ReplacedEvent (s.updateEvent c sourceKey sourceId target).2 sourceKey source key e

/-- In a consistent store, the update of an event reports the first of its requirements that is
    not met and changes nothing, or all are met and the target, with its present fingerprint and
    membership, replaces the source and changes nothing else. -/
theorem Consistent.updates_event (h : s.Consistent) (c : Catalog) (sourceKey sourceId : String)
    (target : Event) : s.UpdatesEvent c sourceKey sourceId target where
  fails fault := by
    rw [fst_updateEvent, Outcome.map_eq_error_iff]
    exact h.events.replacement_eq_error_iff
  failed fault refused := by
    rw [fst_updateEvent, Outcome.map_eq_error_iff] at refused
    rw [Store.updateEvent, refused]
  succeeds := by
    rw [fst_updateEvent]
    rcases h.events.replacement_cases c sourceKey sourceId target with ⟨r, passed, met⟩ |
      ⟨fault, q, refused, ⟨unmet, _⟩, _⟩
    · rw [passed]
      exact ⟨fun _ => met, fun _ => ⟨_, rfl⟩⟩
    · rw [refused]
      constructor
      · rintro ⟨e, done⟩
        cases done
      · intro met
        exact absurd (met q) unmet
  succeeded e done := by
    have after := h.updateEvent c sourceKey sourceId target
    rw [fst_updateEvent] at done
    cases passed : s.events.replacement c sourceKey sourceId target with
    | error fault =>
        rw [passed] at done
        cases done
    | ok r =>
        rw [passed] at done
        cases done
        rw [Store.updateEvent, passed] at after ⊢
        obtain ⟨keyed, _, found, _, _, _, taken⟩ := Shelf.replacement_eq_ok_iff.mp passed
        obtain ⟨f, computed, given⟩ :=
          Entity.stamped_eq_ok_iff.mp (Shelf.admitted_eq_ok_iff.mp taken).1
        have replaced := h.replacedEvent passed after
        exact ⟨r.source, r.key, f, found, keyed, computed, congrArg _ given, replaced⟩

/-- A road from a town to itself is led to another town, where it comes last, and stays the first
    of the roads. It cannot be led there in the direction of a road that is there already. -/
theorem road_led_elsewhere :
    let s := roads [("a", "a"), ("a", "b"), ("b", "b")]
    let led := Event.between "Road" "r" (.named "Town" "b") (.named "Town" "a")
    let taken := Event.between "Road" "r" (.named "Town" "a") (.named "Town" "b")
    let s' := (s.updateEvent roadCatalog "RoadaTownaTownr" "r" led).2
    (∃ source key e, s.ReplacedEvent s' "RoadaTownaTownr" source key e) ∧
      s'.events.entries.keys = ["RoadbTownaTownr", "RoadaTownbTownr", "RoadbTownbTownr"] ∧
      (s'.adjacency.eventsAt "Towna").members = ["RoadaTownbTownr", "RoadbTownaTownr"] ∧
      (s'.adjacency.eventsAt "Townb").members =
        ["RoadaTownbTownr", "RoadbTownbTownr", "RoadbTownaTownr"] ∧
      (s.updateEvent roadCatalog "RoadaTownaTownr" "r" taken).1 =
        .error (.update (.targetExists "RoadaTownbTownr")) := by
  intro s led taken s'
  have consistent : s.Consistent := consistent_roads _
  refine ⟨?_, by decide +kernel, by decide +kernel, by decide +kernel, ?_⟩
  · have succeeds : (s.updateEvent roadCatalog "RoadaTownaTownr" "r" led).1.isOk = true := by
      decide +kernel
    obtain ⟨e, after, updated⟩ := exists_of_isOk succeeds
    obtain ⟨source, key, _, _, _, _, _, replaced⟩ :=
      (consistent.updates_event roadCatalog "RoadaTownaTownr" "r" led).succeeded e
        (congrArg Prod.fst updated)
    exact ⟨source, key, e, replaced⟩
  · have named : (s.events.get? "RoadaTownaTownr").bind Entity.id = some "r" := by decide +kernel
    have keyed : Entity.logicKey? taken = some "RoadaTownbTownr" := by decide +kernel
    refine ((consistent.updates_event roadCatalog "RoadaTownaTownr" "r" taken).fails _).mpr
      ⟨.room, ⟨fun room => ?_, fun q lower => ?_⟩, _, keyed, rfl⟩
    · exact (Shelf.meets_room keyed).mp room ⟨by decide, by decide +kernel⟩
    · cases q with
      | effective => exact Entity.isEffective_iff.mpr ⟨_, keyed⟩
      | held => exact (by decide +kernel : s.events.contains "RoadaTownaTownr" = true)
      | current => exact Option.bind_eq_some_iff.mp named
      | room | sameType | computable | unique => exact absurd lower (by decide)

end Store

end SchemaGraph
