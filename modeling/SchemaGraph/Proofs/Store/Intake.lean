import SchemaGraph.Proofs.Collections.Firsts
import SchemaGraph.Proofs.Store.Insertion

/-! # Taking in one after the other

Entities that are offered to a shelf one after the other get in each other's way: one makes a later
one with its key superfluous, and one with its fingerprint impossible. Still it can be told at
once, from the shelf as it is and from the entities, which of them are taken in and whether the
offer fails.
-/

namespace SchemaGraph

namespace Entity

variable {ε : Type} [Entity ε] {c : Catalog} {e : ε} {f : Option String}

/-- An effective entity with its key. -/
def keyed? (e : ε) : Option (String × ε) := (logicKey? e).map fun key => (key, e)

/-- The entity with its fingerprint as it is now, or with none if it cannot be computed. -/
def renewed (c : Catalog) (e : ε) : ε :=
  withFingerprint e (computeFingerprint c e).toOption.join

theorem renewed_of_computed (computed : computeFingerprint c e = .ok f) :
    renewed c e = withFingerprint e f := by
  rw [renewed, computed]
  rfl

theorem keyed?_eq_some_iff {key : String} {d : ε} :
    keyed? e = some (key, d) ↔ logicKey? e = some key ∧ e = d := by
  rw [keyed?]
  cases logicKey? e <;> simp

end Entity

namespace Shelf

variable {ε : Type} [Entity ε] {c : Catalog} {s : Shelf ε} {e taken : ε} {es : List ε}
  {final : ε → ε} {key : String} {f : Option String} {entries : List (String × ε)}

/-- Take in entities as long as none fails, leaving out what is not effective or finds its place
    taken. Each gets a final touch before it is put on the shelf. -/
def addAll (c : Catalog) (final : ε → ε) (s : Shelf ε) :
    List ε → Except StoreError Unit × Shelf ε
  | [] => (.ok (), s)
  | e :: rest =>
      match s.verdict c e false with
      | .error cause => (.error cause, s)
      | .ok none => s.addAll c final rest
      | .ok (some (key, taken)) => (s.put key (final taken)).addAll c final rest

/-- The effective ones of the entities that are the first with their key and whose key the shelf
    does not hold, each with its key. -/
def newcomers (s : Shelf ε) (es : List ε) : List (String × ε) :=
  Entries.firsts ((es.filterMap Entity.keyed?).filter fun entry => !s.contains entry.1)

/-- How an entry comes to stand on the shelf: with its present fingerprint and the final touch. -/
def settled (c : Catalog) (final : ε → ε) (entry : String × ε) : String × ε :=
  (entry.1, final (Entity.renewed c entry.2))

/-- Why entries cannot all be taken in: the fingerprint of one cannot be computed, or it is
    determinate and carried by an entity on the shelf or shared by another one of the entries. -/
inductive Obstacle (c : Catalog) (s : Shelf ε) (entries : List (String × ε)) : Prop
  | uncomputable {entry : String × ε} {cause : EntityError} (inside : entry ∈ entries)
      (fails : Entity.computeFingerprint c entry.2 = .error cause)
  | carried {entry : String × ε} {digest holder : String} (inside : entry ∈ entries)
      (computed : Entity.computeFingerprint c entry.2 = .ok (some digest))
      (carries : s.Carries holder digest) (different : holder ≠ entry.1)
  | shared {one other : String × ε} {digest : String} (first : one ∈ entries)
      (second : other ∈ entries) (different : one.1 ≠ other.1)
      (ofOne : Entity.computeFingerprint c one.2 = .ok (some digest))
      (ofOther : Entity.computeFingerprint c other.2 = .ok (some digest))

/-! ## One more entry -/

theorem carries_put {holder digest : String} (carried : Entity.fingerprint e = f) :
    (s.put key e).Carries holder digest ↔
      if holder = key then f = some digest else s.Carries holder digest := by
  have lookup : (s.put key e).get? holder = if holder = key then some e else s.get? holder :=
    s.entries.get?_insert key holder e
  rw [Carries, lookup]
  by_cases same : holder = key
  · simp [same, carried]
  · simp [same, Carries]

/-- Once the first entry stands on the shelf, it is in the way of the others just as it was when it
    was one of them. -/
theorem obstacle_cons_iff (free : s.contains key = false)
    (computed : Entity.computeFingerprint c e = .ok f)
    (admits : ∀ digest holder, f = some digest → s.Carries holder digest → holder = key)
    (carried : Entity.fingerprint taken = f) (fresh : ∀ entry ∈ entries, entry.1 ≠ key) :
    s.Obstacle c ((key, e) :: entries) ↔ (s.put key taken).Obstacle c entries := by
  have held {holder digest : String} (carries : s.Carries holder digest) : holder ≠ key := by
    rintro rfl
    obtain ⟨d, found, _⟩ := carries
    rw [contains, (s.entries.contains_iff holder).mpr ⟨d, found⟩] at free
    cases free
  constructor
  · intro obstacle
    cases obstacle with
    | uncomputable inside fails =>
        rcases List.mem_cons.mp inside with rfl | inside
        · rw [computed] at fails
          cases fails
        · exact .uncomputable inside fails
    | @carried entry digest holder inside isComputed carries different =>
        rcases List.mem_cons.mp inside with rfl | inside
        · rw [computed, Except.ok.injEq] at isComputed
          exact absurd (admits digest holder isComputed carries) different
        · refine .carried inside isComputed ?_ different
          rw [carries_put carried, if_neg (held carries)]
          exact carries
    | @shared one other digest first second different ofOne ofOther =>
        -- the entry that has come onto the shelf carries the fingerprint there
        have onShelf (sameDigest : Entity.computeFingerprint c e = .ok (some digest)) :
            (s.put key taken).Carries key digest := by
          rw [computed, Except.ok.injEq] at sameDigest
          rw [carries_put carried, if_pos rfl]
          exact sameDigest
        rcases List.mem_cons.mp first with rfl | first
        · rcases List.mem_cons.mp second with rfl | second
          · exact absurd rfl different
          · exact .carried second ofOther (onShelf ofOne) different
        · rcases List.mem_cons.mp second with rfl | second
          · exact .carried first ofOne (onShelf ofOther) different.symm
          · exact .shared first second different ofOne ofOther
  · intro obstacle
    cases obstacle with
    | uncomputable inside fails => exact .uncomputable (List.mem_cons_of_mem _ inside) fails
    | @carried entry digest holder inside isComputed carries different =>
        rw [carries_put carried] at carries
        split at carries
        · rename_i same
          refine .shared List.mem_cons_self (List.mem_cons_of_mem _ inside)
            (fresh entry inside).symm ?_ isComputed
          rw [computed, carries]
        · exact .carried (List.mem_cons_of_mem _ inside) isComputed carries different
    | shared first second different ofOne ofOther =>
        exact .shared (List.mem_cons_of_mem _ first) (List.mem_cons_of_mem _ second) different
          ofOne ofOther

theorem not_obstacle_nil : ¬ s.Obstacle c [] := by
  intro obstacle
  cases obstacle with
  | uncomputable inside _ => cases inside
  | carried inside _ _ _ => cases inside
  | shared inside _ _ _ _ => cases inside

/-- What is not admitted is an obstacle among whatever entries. -/
theorem obstacle_of_refused [LawfulEntity ε] (h : s.Consistent) {cause : StoreError}
    (refusal : s.admitted c key key e = .error cause) :
    s.Obstacle c ((key, e) :: entries) := by
  rcases admitted_eq_error_iff.mp refusal with ⟨_, fails, _⟩ | ⟨_, _, computed, heldBy, other, _⟩
  · exact .uncomputable List.mem_cons_self fails
  · exact .carried List.mem_cons_self computed (h.holds.mp heldBy) other

/-! ## Newcomers -/

theorem contains_put (s : Shelf ε) (key other : String) (e : ε) :
    (s.put key e).contains other = (decide (other = key) || s.contains other) := by
  have lookup : (s.put key e).get? other = if other = key then some e else s.get? other :=
    s.entries.get?_insert key other e
  change ((s.put key e).get? other).isSome = _
  rw [lookup]
  by_cases same : other = key
  · simp [same]
  · simp [same]
    rfl

theorem keyed?_of_room (room : s.HasRoom e false key) : Entity.keyed? e = some (key, e) :=
  Entity.keyed?_eq_some_iff.mpr ⟨room.1, rfl⟩

theorem newcomers_of_noRoom (noRoom : ∀ key, ¬ s.HasRoom e false key) :
    s.newcomers (e :: es) = s.newcomers es := by
  rw [newcomers, List.filterMap_cons, Entity.keyed?]
  cases keyed : Entity.logicKey? e with
  | none => rfl
  | some own =>
      have held : s.contains own = true := by simpa [HasRoom, keyed] using noRoom own
      rw [Option.map_some, List.filter_cons_of_neg (by simp [held])]
      rfl

theorem newcomers_of_room (room : s.HasRoom e false key) (d : ε) :
    s.newcomers (e :: es) = (key, e) :: (s.put key d).newcomers es := by
  rw [newcomers, List.filterMap_cons_some (keyed?_of_room room),
    List.filter_cons_of_pos (by simp [room.2 rfl]), Entries.firsts, newcomers,
    ← Entries.firsts_without, Entries.without, List.filter_filter]
  congr 2
  apply List.filter_congr
  intro entry _
  simp [contains_put]

theorem free_of_newcomer {entry : String × ε} (new : entry ∈ s.newcomers es) :
    s.contains entry.1 = false := by
  have inside := (Entries.firsts_sublist _).subset new
  simpa using (List.mem_filter.mp inside).2

/-- There is a newcomer for each key that an effective entity brings and the shelf does not hold. -/
theorem mem_keys_newcomers_iff : key ∈ (s.newcomers es).map Prod.fst ↔
    (∃ e ∈ es, Entity.logicKey? e = some key) ∧ s.contains key = false := by
  rw [newcomers, Entries.mem_keys_firsts_iff]
  simp only [List.mem_map, List.mem_filter, List.mem_filterMap]
  constructor
  · rintro ⟨⟨_, d⟩, ⟨⟨e, inside, isEntry⟩, free⟩, rfl⟩
    obtain ⟨keyed, rfl⟩ := Entity.keyed?_eq_some_iff.mp isEntry
    exact ⟨⟨e, inside, keyed⟩, by simpa using free⟩
  · rintro ⟨⟨e, inside, keyed⟩, free⟩
    exact ⟨(key, e), ⟨⟨e, inside, Entity.keyed?_eq_some_iff.mpr ⟨keyed, rfl⟩⟩, by simpa using free⟩,
      rfl⟩

/-! ## A whole offer -/

/-- A touch that leaves alone all that a shelf looks at. -/
structure Light (final : ε → ε) : Prop where
  key (e : ε) : Entity.logicKey? (final e) = Entity.logicKey? e
  fingerprint (e : ε) : Entity.fingerprint (final e) = Entity.fingerprint e

theorem addAll_of_noRoom (noRoom : ∀ key, ¬ s.HasRoom e false key) :
    s.addAll c final (e :: es) = s.addAll c final es := by
  rw [addAll, verdict_eq_none_iff_noRoom.mpr noRoom]

theorem addAll_of_refused {cause : StoreError} (room : s.HasRoom e false key)
    (refusal : s.admitted c key key e = .error cause) :
    s.addAll c final (e :: es) = (.error cause, s) := by
  rw [addAll, verdict_of_room room, refusal]
  rfl

theorem addAll_of_admitted (room : s.HasRoom e false key)
    (admission : s.admitted c key key e = .ok taken) :
    s.addAll c final (e :: es) = (s.put key (final taken)).addAll c final es := by
  rw [addAll, verdict_of_room room, admission]
  rfl

theorem entries_put_of_room (room : s.HasRoom e false key) (d : ε) :
    (s.put key d).entries.entries = s.entries.entries ++ [(key, d)] :=
  OrderedMap.entries_insert_of_absent d (room.2 rfl)

theorem Consistent.put_of_verdict [LawfulEntity ε] (h : s.Consistent) (light : Light final)
    (decided : s.verdict c e false = .ok (some (key, taken))) :
    (s.put key (final taken)).Consistent := by
  obtain ⟨_, free, _⟩ := verdict_eq_some_iff.mp decided
  have taking := Store.consistent_of_verdict h decided (light.key taken) (light.fingerprint taken)
  rwa [remove_of_absent (free rfl)] at taking

theorem Consistent.entries_put_of_verdict [LawfulEntity ε] (h : s.Consistent) (final : ε → ε)
    (decided : s.verdict c e false = .ok (some (key, taken))) :
    (s.put key (final taken)).entries.entries =
      s.entries.entries ++ [settled c final (key, e)] := by
  obtain ⟨room, f, computed, rfl, -⟩ := (verdict_eq_given_iff h).mp decided
  rw [entries_put_of_room room, settled, Entity.renewed_of_computed computed]

theorem Consistent.obstacle_cons_iff [LawfulEntity ε] (h : s.Consistent) (light : Light final)
    (decided : s.verdict c e false = .ok (some (key, taken)))
    (fresh : ∀ entry ∈ entries, entry.1 ≠ key) :
    s.Obstacle c ((key, e) :: entries) ↔ (s.put key (final taken)).Obstacle c entries := by
  obtain ⟨room, f, computed, rfl, alone⟩ := (verdict_eq_given_iff h).mp decided
  apply Shelf.obstacle_cons_iff (room.2 rfl) computed alone _ fresh
  rw [light.fingerprint, Entity.fingerprint_withFingerprint]

/-- An offer to a consistent shelf fails exactly when there is an obstacle among the newcomers, and
    else puts the newcomers behind what is there. -/
theorem addAll_cases [LawfulEntity ε] (h : s.Consistent) (light : Light final) (c : Catalog)
    (es : List ε) :
    (¬ s.Obstacle c (s.newcomers es) ∧ ∃ s', s.addAll c final es = (.ok (), s') ∧
      s'.Consistent ∧ s'.entries.entries =
        s.entries.entries ++ (s.newcomers es).map (settled c final)) ∨
    (s.Obstacle c (s.newcomers es) ∧ ∃ cause s', s.addAll c final es = (.error cause, s')) := by
  induction es generalizing s with
  | nil => exact Or.inl ⟨not_obstacle_nil, s, rfl, h, (List.append_nil _).symm⟩
  | cons e rest ih =>
      by_cases room : ∃ key, s.HasRoom e false key
      · obtain ⟨key, room⟩ := room
        cases admission : s.admitted c key key e with
        | error cause =>
            rw [newcomers_of_room room e, addAll_of_refused room admission]
            exact Or.inr ⟨obstacle_of_refused h admission, cause, s, rfl⟩
        | ok taken =>
            have decided : s.verdict c e false = .ok (some (key, taken)) := by
              rw [verdict_of_room room, admission]
              rfl
            have fresh : ∀ entry ∈ (s.put key (final taken)).newcomers rest, entry.1 ≠ key := by
              intro entry new same
              have free := free_of_newcomer new
              rw [contains_put, same] at free
              simp at free
            rw [newcomers_of_room room (final taken), addAll_of_admitted room admission,
              h.obstacle_cons_iff light decided fresh, List.map_cons]
            have later := ih (h.put_of_verdict light decided)
            rw [h.entries_put_of_verdict final decided, List.append_assoc,
              List.singleton_append] at later
            exact later
      · have noRoom := not_exists.mp room
        rw [newcomers_of_noRoom noRoom, addAll_of_noRoom noRoom]
        exact ih h

theorem addAll_eq_error_iff [LawfulEntity ε] (h : s.Consistent) (light : Light final) :
    (∃ cause, (s.addAll c final es).1 = .error cause) ↔ s.Obstacle c (s.newcomers es) := by
  rcases addAll_cases h light c es with ⟨clear, s', added, _⟩ | ⟨obstacle, cause, s', failed⟩
  · simp [added, clear]
  · simp [failed, obstacle]

theorem entries_addAll [LawfulEntity ε] {s' : Shelf ε} (h : s.Consistent) (light : Light final)
    (added : s.addAll c final es = (.ok (), s')) : s'.entries.entries =
      s.entries.entries ++ (s.newcomers es).map (settled c final) := by
  rcases addAll_cases h light c es with ⟨_, _, same, _, entries⟩ | ⟨_, _, _, failed⟩
  · rw [added] at same
    cases same
    exact entries
  · rw [added] at failed
    cases failed

/-- Also an offer that fails leaves what is there in front. -/
theorem prefix_addAll (c : Catalog) (final : ε → ε) (s : Shelf ε) (es : List ε) :
    s.entries.entries <+: (s.addAll c final es).2.entries.entries := by
  induction es generalizing s with
  | nil => exact List.prefix_rfl
  | cons e rest ih =>
      by_cases room : ∃ key, s.HasRoom e false key
      · obtain ⟨key, room⟩ := room
        cases admission : s.admitted c key key e with
        | error cause =>
            refine ⟨[], ?_⟩
            rw [addAll_of_refused room admission, List.append_nil]
        | ok taken =>
            rw [addAll_of_admitted room admission]
            apply List.IsPrefix.trans _ (ih _)
            rw [entries_put_of_room room]
            exact List.prefix_append _ _
      · rw [addAll_of_noRoom (not_exists.mp room)]
        exact ih s

/-- There is an entity under the key of each of the entities that are effective. -/
def HoldsAll (s : Shelf ε) (es : List ε) : Prop :=
  ∀ e ∈ es, ∀ key, Entity.logicKey? e = some key → s.contains key = true

theorem HoldsAll.noRoom (held : s.HoldsAll (e :: es)) (key : String) :
    ¬ s.HasRoom e false key := by
  rintro ⟨keyed, free⟩
  rw [held e List.mem_cons_self key keyed] at free
  cases free rfl

theorem HoldsAll.tail (held : s.HoldsAll (e :: es)) : s.HoldsAll es :=
  fun other later => held other (List.mem_cons_of_mem e later)

theorem holdsAll_of_addAll [LawfulEntity ε] {s' : Shelf ε} (h : s.Consistent)
    (light : Light final) (added : s.addAll c final es = (.ok (), s')) : s'.HoldsAll es := by
  intro e inside key keyed
  have keys : s'.entries.keys = s.entries.keys ++ (s.newcomers es).map Prod.fst := by
    rw [OrderedMap.keys, entries_addAll h light added, List.map_append, List.map_map]
    rfl
  rw [contains, ← OrderedMap.mem_keys_iff, keys, List.mem_append, mem_keys_newcomers_iff,
    OrderedMap.mem_keys_iff]
  cases free : s.contains key with
  | true => exact Or.inl free
  | false => exact Or.inr ⟨⟨e, inside, keyed⟩, rfl⟩

/-! ## Copies from another shelf -/

/-- Copies that have the same computed fingerprints meet the same obstacles. -/
theorem obstacle_map_iff {copy : ε → ε}
    (sameText : ∀ e, Entity.computeFingerprint c (copy e) = Entity.computeFingerprint c e) :
    s.Obstacle c (entries.map fun entry => (entry.1, copy entry.2)) ↔ s.Obstacle c entries := by
  have copied {entry : String × ε} (inside : entry ∈ entries) :
      (entry.1, copy entry.2) ∈ entries.map fun entry => (entry.1, copy entry.2) :=
    List.mem_map_of_mem inside
  constructor
  · intro obstacle
    cases obstacle with
    | uncomputable inside fails =>
        obtain ⟨entry, listed, rfl⟩ := List.mem_map.mp inside
        exact .uncomputable listed ((sameText entry.2).symm.trans fails)
    | carried inside computed carries different =>
        obtain ⟨entry, listed, rfl⟩ := List.mem_map.mp inside
        exact .carried listed ((sameText entry.2).symm.trans computed) carries different
    | shared first second different ofOne ofOther =>
        obtain ⟨one, listedOne, rfl⟩ := List.mem_map.mp first
        obtain ⟨other, listedOther, rfl⟩ := List.mem_map.mp second
        exact .shared listedOne listedOther different ((sameText one.2).symm.trans ofOne)
          ((sameText other.2).symm.trans ofOther)
  · intro obstacle
    cases obstacle with
    | uncomputable inside fails => exact .uncomputable (copied inside) ((sameText _).trans fails)
    | carried inside computed carries different =>
        exact .carried (copied inside) ((sameText _).trans computed) carries different
    | shared first second different ofOne ofOther =>
        exact .shared (copied first) (copied second) different ((sameText _).trans ofOne)
          ((sameText _).trans ofOther)

/-- The entries of another shelf whose keys are not held. -/
def missing (s t : Shelf ε) : List (String × ε) :=
  t.entries.entries.filter fun entry => !s.contains entry.1

/-- Of the entities of another shelf, those come new that are missing. -/
theorem newcomers_values {t : Shelf ε} (keyed : t.Keyed) {copy : ε → ε}
    (sameKey : ∀ e, Entity.logicKey? (copy e) = Entity.logicKey? e) :
    s.newcomers (t.values.map copy) = (s.missing t).map fun entry => (entry.1, copy entry.2) := by
  have listed : (t.values.map copy).filterMap Entity.keyed? =
      t.entries.entries.map fun entry => (entry.1, copy entry.2) := by
    rw [values, OrderedMap.values, List.map_map, List.filterMap_map, ← List.filterMap_eq_map]
    apply List.filterMap_congr
    rintro ⟨key, e⟩ inside
    have own := keyed ((t.mem_entries_iff key e).mp inside)
    exact Entity.keyed?_eq_some_iff.mpr ⟨(sameKey e).trans own, rfl⟩
  rw [newcomers, listed, missing, List.filter_map]
  apply Entries.firsts_of_distinct
  rw [List.map_map]
  exact t.entries.distinct.sublist ((List.filter_sublist).map Prod.fst)

end Shelf

namespace Store

variable {c : Catalog} {s : Store}

theorem light_id {ε : Type} [Entity ε] : Shelf.Light (id : ε → ε) :=
  ⟨fun _ => rfl, fun _ => rfl⟩

theorem light_withMembership (c : Catalog) : Shelf.Light (Event.withMembership c) :=
  ⟨fun _ => rfl, fun _ => rfl⟩

theorem withNode_of_verdict {n taken : Node} {key : String}
    (decided : s.nodes.verdict c n false = .ok (some (key, taken))) :
    s.withNode key taken = { s with nodes := s.nodes.put key taken } := by
  obtain ⟨_, free, _⟩ := Shelf.verdict_eq_some_iff.mp decided
  rw [withNode, Shelf.remove_of_absent (free rfl)]

theorem events_withEvent_of_verdict {e taken : Event} {key : String}
    (decided : s.events.verdict c e false = .ok (some (key, taken))) (final : Event) :
    (s.withEvent key final).events = s.events.put key final := by
  obtain ⟨_, free, _⟩ := Shelf.verdict_eq_some_iff.mp decided
  have absent := (s.events.entries.get?_eq_none_iff key).mpr (free rfl)
  simp only [withEvent, removeEventAt_of_absent absent]

theorem nodes_withEvent (s : Store) (key : String) (e : Event) :
    (s.withEvent key e).nodes = s.nodes :=
  nodes_removeEventAt s key

/-- Adding nodes is a matter of the nodes. -/
theorem addNodes_eq (nodes : List Node) (s : Store) : s.addNodes c nodes =
    ((s.nodes.addAll c id nodes).1, { s with nodes := (s.nodes.addAll c id nodes).2 }) := by
  induction nodes generalizing s with
  | nil => rfl
  | cons n rest ih =>
      rw [addNodes, addNode_eq, Shelf.addAll]
      rcases decided : s.nodes.verdict c n false with cause | _ | ⟨key, taken⟩
      · rfl
      · exact ih s
      · simp only [withNode_of_verdict decided, id]
        exact ih _

/-- The events alone decide what becomes of events that are added. -/
theorem addEvents_eq (events : List Event) (s : Store) :
    (s.addEvents c events).1 = (s.events.addAll c (Event.withMembership c) events).1 ∧
    (s.addEvents c events).2.events = (s.events.addAll c (Event.withMembership c) events).2 ∧
    (s.addEvents c events).2.nodes = s.nodes := by
  induction events generalizing s with
  | nil => exact ⟨rfl, rfl, rfl⟩
  | cons e rest ih =>
      rw [addEvents, addEvent_eq, Shelf.addAll]
      rcases decided : s.events.verdict c e false with cause | _ | ⟨key, taken⟩
      · exact ⟨rfl, rfl, rfl⟩
      · exact ih s
      · have later := ih (s.withEvent key (taken.withMembership c))
        rw [events_withEvent_of_verdict decided, nodes_withEvent] at later
        exact later

/-- What is held by now is taken in no more. -/
theorem addNodes_of_held {nodes : List Node} (held : s.nodes.HoldsAll nodes) :
    s.addNodes c nodes = (.ok (), s) := by
  induction nodes with
  | nil => rfl
  | cons n rest ih =>
      rw [addNodes, addNode_eq, Shelf.verdict_eq_none_iff_noRoom.mpr held.noRoom]
      exact ih held.tail

theorem addEvents_of_held {events : List Event} (held : s.events.HoldsAll events) :
    s.addEvents c events = (.ok (), s) := by
  induction events with
  | nil => rfl
  | cons e rest ih =>
      rw [addEvents, addEvent_eq, Shelf.verdict_eq_none_iff_noRoom.mpr held.noRoom]
      exact ih held.tail

end Store

end SchemaGraph
