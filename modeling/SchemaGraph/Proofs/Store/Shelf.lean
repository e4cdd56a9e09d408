import SchemaGraph.Proofs.Entity.Lawful
import SchemaGraph.Proofs.Store.Consistency

/-! # Changes of a shelf

What each operation of a shelf does to its entities, and that it keeps the shelf consistent.
An entity is taken in only with a fingerprint of its own, so nobody is forgotten for it.
-/

namespace SchemaGraph.Shelf

variable {ε : Type} [Entity ε]

omit [Entity ε] in
theorem mem_entries_iff (s : Shelf ε) (key : String) (e : ε) :
    (key, e) ∈ s.entries.entries ↔ s.get? key = some e :=
  (s.entries.get?_eq_some_iff key e).symm

omit [Entity ε] in
theorem get?_of_perm {s t : Shelf ε} (perm : t.entries.entries.Perm s.entries.entries)
    (key : String) : t.get? key = s.get? key := by
  refine Option.ext fun e => ?_
  rw [← mem_entries_iff, ← mem_entries_iff, perm.mem_iff]

/-! ## Taking off -/

theorem entries_remove (s : Shelf ε) (key : String) :
    (s.remove key).2.entries = s.entries.erase key := by
  rw [remove]
  cases found : s.get? key with
  | some e => rfl
  | none => exact (OrderedMap.erase_of_absent ((s.entries.get?_eq_none_iff key).mp found)).symm

@[simp] theorem get?_remove (s : Shelf ε) (key other : String) :
    (s.remove key).2.get? other = if other = key then none else s.get? other := by
  rw [get?, entries_remove, OrderedMap.get?_erase]
  rfl

theorem contains_remove (s : Shelf ε) (key : String) :
    (s.remove key).2.contains key = false :=
  (OrderedMap.get?_eq_none_iff _ _).mp ((s.get?_remove key key).trans (if_pos rfl))

theorem remove_of_absent {s : Shelf ε} {key : String} (absent : s.contains key = false) :
    s.remove key = (none, s) := by
  have found : s.get? key = none := (s.entries.get?_eq_none_iff key).mpr absent
  rw [remove, found]

theorem Consistent.remove {s : Shelf ε} (h : s.Consistent) (key : String) :
    (s.remove key).2.Consistent := by
  cases found : s.get? key with
  | none =>
      rw [remove_of_absent ((s.entries.get?_eq_none_iff key).mp found)]
      exact h
  | some e =>
      constructor
      · intro other d held
        rw [get?_remove] at held
        exact h.keyed (Option.ite_none_left_eq_some.mp held).2
      · intro fingerprint other
        have forgotten : (s.remove key).2.holders.get? fingerprint = some other ↔
            s.holders.get? fingerprint = some other ∧ Entity.fingerprint e ≠ some fingerprint := by
          rw [Shelf.remove, found]
          simp only [forget]
          cases carried : Entity.fingerprint e with
          | none => simp
          | some own =>
              rw [SortedMap.get?_erase, Option.ite_none_left_eq_some]
              simp only [ne_eq, Option.some_inj, eq_comm, and_comm]
        rw [forgotten, h.holds]
        constructor
        · rintro ⟨⟨d, held, carries⟩, notOwn⟩
          refine ⟨d, ?_, carries⟩
          rw [get?_remove, Option.ite_none_left_eq_some]
          refine ⟨?_, held⟩
          rintro rfl
          rw [found, Option.some_inj] at held
          exact notOwn (held ▸ carries)
        · rintro ⟨d, left, carries⟩
          rw [get?_remove, Option.ite_none_left_eq_some] at left
          exact ⟨⟨d, left.2, carries⟩, fun own =>
            left.1 (h.fingerprint_unique left.2 found carries own)⟩

theorem Consistent.find?_remove {s : Shelf ε} (h : s.Consistent) {lookup : Lookup} {key : String}
    (found : s.keyOf? lookup = some key) : (s.remove key).2.find? lookup = none := by
  rw [find?, Option.bind_eq_none_iff]
  intro other leads
  rw [get?_remove, ite_eq_left_iff]
  intro different
  cases lookup with
  | key given =>
      obtain rfl : given = key := Option.some_inj.mp found
      exact absurd (Option.some_inj.mp leads).symm different
  | fingerprint given =>
      obtain ⟨e, left, carries⟩ := (h.remove key).holds.mp leads
      rw [get?_remove, if_neg different] at left
      obtain ⟨d, held, carried⟩ := h.holds.mp found
      exact absurd (h.fingerprint_unique left held carries carried) different

/-! ## Putting on -/

/-- A shelf stays consistent when an entity with a fingerprint of its own comes onto it under
    its own key, at whatever place. -/
theorem Consistent.add {s t : Shelf ε} (h : s.Consistent) {key : String} {e : ε}
    (lookup : ∀ other, t.get? other = if other = key then some e else s.get? other)
    (holders : t.holders = hold s.holders key e) (own : Entity.logicKey? e = some key)
    (absent : s.contains key = false)
    (unheld : ∀ fingerprint, Entity.fingerprint e = some fingerprint →
      s.holders.get? fingerprint = none) : t.Consistent := by
  have notFound : s.get? key = none := (s.entries.get?_eq_none_iff key).mpr absent
  constructor
  · intro other d held
    rw [lookup] at held
    by_cases same : other = key
    · rw [if_pos same, Option.some_inj] at held
      rw [← held, same, own]
    · rw [if_neg same] at held
      exact h.keyed held
  · intro fingerprint other
    have noted : t.holders.get? fingerprint = some other ↔
        Entity.fingerprint e = some fingerprint ∧ other = key ∨
          s.holders.get? fingerprint = some other := by
      rw [holders, hold]
      cases carried : Entity.fingerprint e with
      | none => simp
      | some mine =>
          rw [SortedMap.get?_insert]
          by_cases same : fingerprint = mine
          · simp [same, unheld mine carried, eq_comm]
          · simp [same, Ne.symm same]
    rw [noted, h.holds]
    by_cases same : other = key
    · simp [lookup, same, notFound]
    · simp [lookup, same]

theorem Consistent.putAt {s : Shelf ε} (h : s.Consistent) (place : Nat) {key : String} {e : ε}
    (own : Entity.logicKey? e = some key) (absent : s.contains key = false)
    (unheld : ∀ fingerprint, Entity.fingerprint e = some fingerprint →
      s.holders.get? fingerprint = none) : (s.putAt place key e).Consistent :=
  h.add (fun other => s.entries.get?_insertAt place key other e) rfl own absent unheld

theorem Consistent.put {s : Shelf ε} (h : s.Consistent) {key : String} {e : ε}
    (own : Entity.logicKey? e = some key) (absent : s.contains key = false)
    (unheld : ∀ fingerprint, Entity.fingerprint e = some fingerprint →
      s.holders.get? fingerprint = none) : (s.put key e).Consistent :=
  h.add (fun other => s.entries.get?_insert key other e) rfl own absent unheld

theorem Consistent.mapValues {s : Shelf ε} (h : s.Consistent) {change : ε → ε}
    (sameKey : ∀ e, Entity.logicKey? (change e) = Entity.logicKey? e)
    (sameFingerprint : ∀ e, Entity.fingerprint (change e) = Entity.fingerprint e) :
    Consistent { s with entries := s.entries.mapValues change } := by
  have lookup (key : String) :
      get? { s with entries := s.entries.mapValues change } key = (s.get? key).map change :=
    s.entries.get?_mapValues change key
  constructor
  · intro key e held
    rw [lookup, Option.map_eq_some_iff] at held
    obtain ⟨d, held, rfl⟩ := held
    rw [sameKey, h.keyed held]
  · intro fingerprint key
    rw [h.holds]
    simp only [lookup, Option.map_eq_some_iff]
    constructor
    · rintro ⟨e, held, carries⟩
      exact ⟨change e, ⟨e, held, rfl⟩, (sameFingerprint e).trans carries⟩
    · rintro ⟨_, ⟨e, held, rfl⟩, carries⟩
      exact ⟨e, held, (sameFingerprint e).symm.trans carries⟩

/-! ## Own keys -/

/-- Every entity of a shelf stands under its own logic identifier. -/
def Keyed (s : Shelf ε) : Prop :=
  ∀ ⦃key : String⦄ ⦃e : ε⦄, s.get? key = some e → Entity.logicKey? e = some key

theorem Keyed.empty : ({} : Shelf ε).Keyed := by
  intro key e held
  cases held

theorem Consistent.keys {s : Shelf ε} (h : s.Consistent) : s.Keyed :=
  fun _ _ held => h.keyed held

theorem Keyed.remove {s : Shelf ε} (h : s.Keyed) (key : String) : (s.remove key).2.Keyed := by
  intro other e held
  rw [get?_remove] at held
  exact h (Option.ite_none_left_eq_some.mp held).2

theorem Keyed.put {s : Shelf ε} (h : s.Keyed) {key : String} {e : ε}
    (own : Entity.logicKey? e = some key) : (s.put key e).Keyed := by
  intro other d held
  have lookup := (s.entries.get?_insert key other e).symm.trans held
  split at lookup
  · rename_i same
    rw [← Option.some_inj.mp lookup, own, same]
  · exact h lookup

theorem Keyed.mapValues {s : Shelf ε} (h : s.Keyed) {change : ε → ε}
    (sameKey : ∀ e, Entity.logicKey? (change e) = Entity.logicKey? e) :
    Keyed { s with entries := s.entries.mapValues change } := by
  intro key d held
  obtain ⟨e, before, rfl⟩ := Option.map_eq_some_iff.mp
    ((s.entries.get?_mapValues change key).symm.trans held)
  exact (sameKey e).trans (h before)

/-! ## Admission -/

theorem admitted_eq_ok_iff {c : Catalog} {s : Shelf ε} {owner key : String} {e taken : ε} :
    s.admitted c owner key e = .ok taken ↔ Entity.stamped c e = .ok taken ∧
      ∀ fingerprint holder, Entity.fingerprint taken = some fingerprint →
        s.holders.get? fingerprint = some holder → holder = owner := by
  rw [admitted, Outcome.bind_eq_ok_iff]
  constructor
  · rintro ⟨given, stamps, done⟩
    have stamping := Outcome.mapError_eq_ok_iff.mp stamps
    split at done
    · rename_i own holder found
      split at done
      · rename_i mine
        cases done
        obtain ⟨_, carried, found⟩ := Option.bind_eq_some_iff.mp found
        obtain ⟨_, held, same⟩ := Option.map_eq_some_iff.mp found
        cases same
        refine ⟨stamping, fun fingerprint other carries heldBy => ?_⟩
        rw [carried, Option.some_inj] at carries
        rw [← carries, held, Option.some_inj] at heldBy
        exact heldBy.symm.trans mine
      · cases done
    · rename_i nobody
      cases done
      refine ⟨stamping, fun fingerprint holder carries heldBy => ?_⟩
      simp [carries, heldBy] at nobody
  · rintro ⟨stamping, free⟩
    refine ⟨taken, Outcome.mapError_eq_ok_iff.mpr stamping, ?_⟩
    split
    · rename_i own holder found
      obtain ⟨_, carried, found⟩ := Option.bind_eq_some_iff.mp found
      obtain ⟨_, held, same⟩ := Option.map_eq_some_iff.mp found
      cases same
      rw [if_pos (free _ _ carried held)]
      rfl
    · rfl

theorem admitted_eq_error_iff [LawfulEntity ε] {c : Catalog} {s : Shelf ε} {owner key : String}
    {e : ε} {fault : StoreError} : s.admitted c owner key e = .error fault ↔
      (∃ cause, Entity.computeFingerprint c e = .error cause ∧ fault = .entity cause) ∨
      ∃ digest holder, Entity.computeFingerprint c e = .ok (some digest) ∧
        s.holders.get? digest = some holder ∧ holder ≠ owner ∧
          fault = .uniqueness (Entity.kind e) digest holder key := by
  rw [admitted, Outcome.bind_eq_error_iff]
  cases computed : Entity.computeFingerprint c e with
  | error cause =>
      have fails : Entity.stamped c e = .error cause := Entity.stamped_eq_error_iff.mpr computed
      simp [fails, Except.mapError, eq_comm]
  | ok f =>
      have stamps : Entity.stamped c e = .ok (Entity.withFingerprint e f) :=
        Entity.stamped_eq_ok_iff.mpr ⟨f, computed, rfl⟩
      cases f with
      | none => simp [stamps, Except.mapError, pure, Except.pure]
      | some digest =>
          cases holds : s.holders.get? digest with
          | none => simp [stamps, holds, Except.mapError, pure, Except.pure]
          | some holder =>
              by_cases mine : holder = owner
              · simp [stamps, holds, mine, Except.mapError, pure, Except.pure]
              · simp [stamps, holds, mine, Except.mapError, throw, throwThe,
                  MonadExceptOf.throw, Entity.kind_withFingerprint]
                exact eq_comm

/-- A target may replace an entity when it is effective, the entity is held and has the given
    identifier, the target's key is free or stays, the types agree and it is admitted. -/
theorem replacement_eq_ok_iff {c : Catalog} {s : Shelf ε} {sourceKey sourceId : String}
    {target : ε} {r : Replacement ε} :
    s.replacement c sourceKey sourceId target = .ok r ↔
      Entity.logicKey? target = some r.key ∧
      s.entries.indexOf? sourceKey = some r.place ∧ s.get? sourceKey = some r.source ∧
      Entity.id r.source = some sourceId ∧
      (r.key = sourceKey ∨ s.contains r.key = false) ∧
      Entity.typeName r.source = Entity.typeName target ∧
      s.admitted c sourceKey r.key target = .ok r.target := by
  rw [replacement]
  cases keyed : Entity.logicKey? target with
  | none => simp [throw, throwThe, MonadExceptOf.throw]
  | some key =>
      cases placed : s.entries.indexOf? sourceKey with
      | none => simp [throw, throwThe, MonadExceptOf.throw]
      | some place =>
          cases found : s.get? sourceKey with
          | none => simp [throw, throwThe, MonadExceptOf.throw]
          | some source =>
              simp only [throw, throwThe, MonadExceptOf.throw, bind, Except.bind, pure,
                Except.pure, Option.some_inj]
              constructor
              · intro h
                split at h
                · cases h
                · rename_i current
                  split at h
                  · cases h
                  · rename_i free
                    split at h
                    · cases h
                    · rename_i sameType
                      cases taking : admitted c s sourceKey key target with
                      | error cause => simp [taking] at h
                      | ok taken =>
                          simp only [taking, Except.ok.injEq] at h
                          subst h
                          refine ⟨rfl, rfl, rfl, Decidable.not_not.mp current, ?_,
                            Decidable.not_not.mp sameType, taking⟩
                          by_cases same : key = sourceKey
                          · exact Or.inl same
                          · exact Or.inr (by simpa [same] using free)
              · rintro ⟨rfl, rfl, rfl, current, free, sameType, taking⟩
                have unclaimed : ¬ (decide (r.key ≠ sourceKey) && s.contains r.key) = true := by
                  rcases free with same | absent <;> simp [*]
                simp only [current, unclaimed, sameType, taking, ne_eq, not_true_eq_false, if_false,
                  Bool.false_eq_true]

theorem logicKey?_of_replacement [LawfulEntity ε] {c : Catalog}
    {s : Shelf ε} {sourceKey sourceId : String} {target : ε} {r : Replacement ε}
    (passed : s.replacement c sourceKey sourceId target = .ok r) :
    Entity.logicKey? r.target = some r.key := by
  obtain ⟨keyed, _, _, _, _, _, taken⟩ := replacement_eq_ok_iff.mp passed
  exact (Entity.logicKey?_of_stamped (admitted_eq_ok_iff.mp taken).1).trans keyed

/-! ## Replacing -/

theorem entries_replace {s : Shelf ε} {sourceKey : String} {r : Replacement ε}
    (placed : s.entries.indexOf? sourceKey = some r.place)
    (found : s.get? sourceKey = some r.source)
    (free : r.key = sourceKey ∨ s.contains r.key = false) :
    (s.replace sourceKey r).entries.entries = s.entries.entries.map fun entry =>
      if entry.1 = sourceKey then (r.key, r.target) else entry := by
  rw [replace, putAt, entries_remove]
  exact OrderedMap.entries_erase_insertAt found placed free

theorem get?_replace (s : Shelf ε) (sourceKey other : String) (r : Replacement ε) :
    (s.replace sourceKey r).get? other =
      if other = r.key then some r.target
      else if other = sourceKey then none else s.get? other := by
  change ((s.remove sourceKey).2.entries.insertAt r.place r.key r.target).get? other = _
  rw [OrderedMap.get?_insertAt]
  split
  · rfl
  · exact s.get?_remove sourceKey other

theorem Keyed.replace {s : Shelf ε} (h : s.Keyed) {sourceKey : String} {r : Replacement ε}
    (own : Entity.logicKey? r.target = some r.key) : (s.replace sourceKey r).Keyed := by
  intro key e held
  rw [get?_replace] at held
  split at held
  · rename_i isNew
    rw [← Option.some_inj.mp held, own, isNew]
  · exact h (Option.ite_none_left_eq_some.mp held).2

/-- Once its owner is gone, nobody holds the fingerprint of an admitted entity. -/
theorem unheld_of_admitted {c : Catalog} {s : Shelf ε} (h : s.Consistent) {owner key : String}
    {e taken : ε} (admission : s.admitted c owner key e = .ok taken) (fingerprint : String)
    (carries : Entity.fingerprint taken = some fingerprint) :
    (s.remove owner).2.holders.get? fingerprint = none := by
  rw [Option.eq_none_iff_forall_ne_some]
  intro holder stillHeld
  obtain ⟨e, left, carried⟩ := (h.remove owner).holds.mp stillHeld
  rw [get?_remove, Option.ite_none_left_eq_some] at left
  exact left.1 ((admitted_eq_ok_iff.mp admission).2 fingerprint holder carries
    (h.holds.mpr ⟨e, left.2, carried⟩))

/-- A replacement that passed the checks keeps a shelf consistent: the only fingerprint that
    the target may find held goes with the source. What a shelf does not look at may still
    change about the target. -/
theorem Consistent.replace [LawfulEntity ε] {c : Catalog} {s : Shelf ε} (h : s.Consistent)
    {sourceKey sourceId : String} {target : ε} {r : Replacement ε}
    (passed : s.replacement c sourceKey sourceId target = .ok r) {final : ε}
    (sameKey : Entity.logicKey? final = Entity.logicKey? r.target)
    (sameFingerprint : Entity.fingerprint final = Entity.fingerprint r.target) :
    (s.replace sourceKey { r with target := final }).Consistent := by
  obtain ⟨keyed, _, _, _, free, _, taken⟩ := replacement_eq_ok_iff.mp passed
  refine (h.remove sourceKey).putAt r.place ?_ ?_ fun fingerprint carries => ?_
  · rw [sameKey, Entity.logicKey?_of_stamped (admitted_eq_ok_iff.mp taken).1, keyed]
  · refine (OrderedMap.get?_eq_none_iff _ _).mp ((get?_remove s sourceKey r.key).trans ?_)
    rcases free with same | absent
    · rw [if_pos same]
    · have notFound : s.get? r.key = none := (s.entries.get?_eq_none_iff r.key).mpr absent
      rw [notFound, ite_self]
  · exact unheld_of_admitted h taken fingerprint (sameFingerprint ▸ carries)

end SchemaGraph.Shelf
