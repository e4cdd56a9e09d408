import SchemaGraph.Proofs.Entity.Text

/-! # What merging leaves alone

Merging touches nothing but properties. Once the entity is saved and read, this holds no longer
for properties with reserved keys: they stand beside the slots, or in place of one.
-/

namespace SchemaGraph

open Data (Tree)

/-! ## Properties with reserved keys -/

/-- A property that can be saved and read, and makes no difference to the slots then, apart from
    those of the fingerprint and the membership. -/
inductive Flat.Passes (slots : Slots) : String → Value → Prop
  | unreserved {key : String} {value : Value} (own : key ∉ slots.map Prod.fst)
      (readable : (Value.ofJson? value.json).isSome = true) : Passes slots key value
  | null {key : String} {value : Value} (vacant : (key, none) ∈ slots)
      (null : value.jsonForm = .null) : Passes slots key value
  | fingerprint (vacant : ("__uuid", none) ∈ slots) (text : String) :
      Passes slots "__uuid" (.text text)
  | membership (vacant : ("__isMember", none) ∈ slots) (truth : Bool) :
      Passes slots "__isMember" (.boolean truth)

namespace Flat

variable {slots : Slots} {properties : PropertyMap}

/-- What may be read in place of a slot that is not filled. -/
def Admissible (key : String) (value : Value) : Prop :=
  value.jsonForm = .null ∨ (key = "__uuid" ∧ ∃ text, value = .text text) ∨
    key = "__isMember" ∧ ∃ truth, value = .boolean truth

/-- All that is read in place of slots that are not filled may be. -/
def Admits (slots : Slots) (properties : PropertyMap) : Prop :=
  ∀ slot ∈ slots, slot.2 = none → ∀ value ∈ properties.get? slot.1, Admissible slot.1 value

/-- All properties without reserved keys can be saved and read. -/
def Readable (slots : Slots) (properties : PropertyMap) : Prop :=
  ∀ key value, properties.get? key = some value → key ∉ slots.map Prod.fst →
    (Value.ofJson? value.json).isSome = true

theorem passes_iff (distinct : (slots.map Prod.fst).Nodup) {key : String} {value : Value} :
    Passes slots key value ↔
      (key ∉ slots.map Prod.fst → (Value.ofJson? value.json).isSome = true) ∧
        ∀ t, (key, t) ∈ slots → t = none ∧ Admissible key value := by
  constructor
  · intro passes
    have taken {t : Option Tree} (inside : (key, t) ∈ slots) : key ∈ slots.map Prod.fst :=
      List.mem_map_of_mem inside
    have only {t : Option Tree} (vacant : (key, none) ∈ slots) (inside : (key, t) ∈ slots) :
        t = none := Entries.value_unique distinct inside vacant
    cases passes with
    | unreserved own readable =>
        exact ⟨fun _ => readable, fun t inside => absurd (taken inside) own⟩
    | null vacant null =>
        exact ⟨absurd (taken vacant), fun t inside => ⟨only vacant inside, .inl null⟩⟩
    | fingerprint vacant text =>
        exact ⟨absurd (taken vacant),
          fun t inside => ⟨only vacant inside, .inr (.inl ⟨rfl, text, rfl⟩)⟩⟩
    | membership vacant truth =>
        exact ⟨absurd (taken vacant),
          fun t inside => ⟨only vacant inside, .inr (.inr ⟨rfl, truth, rfl⟩)⟩⟩
  · rintro ⟨readable, admissible⟩
    by_cases reserved : key ∈ slots.map Prod.fst
    · obtain ⟨⟨_, t⟩, inside, rfl⟩ := List.mem_map.mp reserved
      obtain ⟨rfl, null | ⟨rfl, text, rfl⟩ | ⟨rfl, truth, rfl⟩⟩ := admissible t inside
      · exact .null inside null
      · exact .fingerprint inside text
      · exact .membership inside truth
    · exact .unreserved reserved (readable reserved)

theorem forall_passes_iff (distinct : (slots.map Prod.fst).Nodup) :
    (∀ key value, properties.get? key = some value → Passes slots key value) ↔
      Apart slots properties ∧ Readable slots properties ∧ Admits slots properties := by
  simp only [passes_iff distinct]
  constructor
  · intro all
    refine ⟨?_, fun key value found => (all key value found).1, ?_⟩
    · rintro ⟨key, t⟩ inside held isProperty
      have contained := (properties.mem_keys_iff key).mp isProperty
      obtain ⟨value, found⟩ := (properties.contains_iff key).mp contained
      exact held ((all key value found).2 t inside).1
    · rintro ⟨key, t⟩ inside _ value found
      exact ((all key value found).2 t inside).2
  · rintro ⟨apart, readable, admissible⟩ key value found
    refine ⟨readable key value found, fun t inside => ?_⟩
    have vacant : t = none := by
      by_contra held
      exact apart (key, t) inside held (OrderedMap.mem_keys_of_get? found)
    exact ⟨vacant, admissible (key, t) inside vacant value found⟩

theorem shallow_iff : Shallow properties ↔ ∀ key value, properties.get? key = some value →
    value.toTree.depth < Data.Format.json.depthLimit := by
  simp only [properties.get?_eq_some_iff]
  exact ⟨fun shallow key value inside => shallow (key, value) inside,
    fun shallow entry inside => shallow entry.1 entry.2 inside⟩

theorem exists_others?_iff_readable (shallow : Shallow properties) :
    (∃ others, others? slots properties = some others) ↔ Readable slots properties := by
  have texts (entry : String × Value) (inside : entry ∈ properties.entries) :
      Value.ofJson? entry.2.json = Value.ofTree? entry.2.kept :=
    Value.ofJson?_json (Nat.le_of_lt (shallow entry inside))
  rw [exists_others?_iff]
  constructor
  · intro all key value found own
    have inside := (properties.get?_eq_some_iff key value).mp found
    exact texts _ inside ▸ all _ inside own
  · intro readable entry inside own
    have found := (properties.get?_eq_some_iff entry.1 entry.2).mpr inside
    exact texts entry inside ▸ readable _ _ found own

theorem admits_iff_silent (noFingerprint : "__uuid" ∉ slots.map Prod.fst)
    (noMembership : "__isMember" ∉ slots.map Prod.fst) :
    Admits slots properties ↔ Silent slots properties := by
  constructor
  · intro admits slot inside vacant value found
    have reserved : slot.1 ∈ slots.map Prod.fst := List.mem_map_of_mem inside
    obtain null | ⟨same, _⟩ | ⟨same, _⟩ := admits slot inside vacant value found
    · exact null
    · exact absurd (same ▸ reserved) noFingerprint
    · exact absurd (same ▸ reserved) noMembership
  · intro silent slot inside vacant value found
    exact .inl (silent slot inside vacant value found)

end Flat

variable {listed : List (String × Tree)} {properties : PropertyMap} {key : String}
  {given : Option Value}

/-- In place of a slot that is not filled, a property is read as null if it says null. -/
theorem Flat.exists_field?_iff {α : Type} {read : Tree → Option α} {write : α → Tree}
    {own : Option α} (reads : ∀ x ∈ own, Tree.asOptional? read (write x) = some (some x))
    (found : Entries.find key listed = (own.map write).or (given.map Value.kept)) :
    (∃ x, Tree.field? listed key none (Tree.asOptional? read) = some x) ↔
      (own = none → ∀ value ∈ given,
        value.jsonForm = .null ∨ ∃ x, read value.kept = some x) := by
  have taken (value : Value) : (∃ x, Tree.asOptional? read value.kept = some x) ↔
      value.jsonForm = .null ∨ ∃ x, read value.kept = some x := by
    rw [← Value.kept_eq_null_iff]
    cases held : value.kept with
    | plain text => exact absurd held (value.kept_ne_plain text)
    | _ => simp [Tree.asOptional?]
  unfold Tree.field?
  rw [found]
  cases own with
  | some x => simp [reads x rfl]
  | none =>
      cases given with
      | none => simp
      | some value => simpa using taken value

theorem exists_textField?_iff {own : Option String}
    (found : Entries.find key listed = (own.map .text).or (given.map Value.kept)) :
    (∃ text, textField? listed key = some text) ↔
      (own = none → ∀ value ∈ given, value.jsonForm = .null ∨ ∃ text, value = .text text) := by
  have texts (value : Value) (text : String) :
      value.kept.asText? = some text ↔ value = .text text := by
    rw [← Value.kept_eq_text_iff]
    cases held : value.kept with
    | plain text => exact absurd held (value.kept_ne_plain text)
    | _ => simp [Tree.asText?]
  apply (Flat.exists_field?_iff (fun _ _ => rfl) found).trans
  simp only [texts]

theorem exists_boolField?_iff {own : Option Bool}
    (found : Entries.find key listed = (own.map .bool).or (given.map Value.kept)) :
    (∃ truth, boolField? listed key = some truth) ↔
      (own = none → ∀ value ∈ given, value.jsonForm = .null ∨ ∃ truth, value = .boolean truth) := by
  have truths (value : Value) (truth : Bool) :
      value.kept.asBool? = some truth ↔ value = .boolean truth := by
    rw [← Value.kept_eq_bool_iff]
    cases held : value.kept with
    | plain text => exact absurd held (value.kept_ne_plain text)
    | _ => simp [Tree.asBool?]
  apply (Flat.exists_field?_iff (fun _ _ => rfl) found).trans
  simp only [truths]

/-! ## Cores -/

namespace Core

/-- The same identifier, type, times and directives. -/
structure SameAudit (c d : Core) : Prop where
  id : c.id = d.id
  typeName : c.typeName = d.typeName
  created : c.created = d.created
  updated : c.updated = d.updated
  directives : c.directives = d.directives

theorem mem_slots_iff {c : Core} {slot : String × Option Tree} :
    slot ∈ c.slots ↔ slot = ("__uuid", c.fingerprint.map .text) ∨ slot ∈ c.lastingSlots := by
  simp only [slots, lastingSlots, List.cons_append, List.nil_append, List.mem_cons]
  exact or_left_comm

theorem admits_iff {c : Core} : Flat.Admits c.slots properties ↔
    (c.fingerprint = none → ∀ value ∈ properties.get? "__uuid",
      value.jsonForm = .null ∨ ∃ text, value = .text text) ∧
    Flat.Silent c.lastingSlots properties := by
  have keys : c.lastingSlots.map Prod.fst =
      ["__id", "__sd", "__createTime", "__updateTime"] ++ Directives.keys := rfl
  rw [← Flat.admits_iff_silent (keys ▸ by decide) (keys ▸ by decide)]
  constructor
  · intro admits
    constructor
    · intro vacant value found
      obtain null | ⟨_, text⟩ | ⟨other, _⟩ := admits _ (mem_slots_iff.mpr (.inl rfl))
        (Option.map_eq_none_iff.mpr vacant) value found
      · exact .inl null
      · exact .inr text
      · have different : "__uuid" ≠ "__isMember" := by decide
        exact absurd other different
    · intro slot inside
      exact admits slot (mem_slots_iff.mpr (.inr inside))
  · rintro ⟨fingerprint, admits⟩ slot inside
    cases mem_slots_iff.mp inside with
    | inr lasting => exact admits slot lasting
    | inl same =>
        subst same
        intro vacant value found
        cases fingerprint (Option.map_eq_none_iff.mp vacant) value found with
        | inl null => exact .inl null
        | inr text => exact .inr (.inl ⟨rfl, text⟩)

/-- An entity with these fields can be read just when they are what is written, or nothing, or
    at the fingerprint a text. -/
theorem exists_ofFields?_iff {c : Core} (others : PropertyMap) (timely : c.Timely)
    (settled : resolved listed = listed) (finds : Flat.Finds listed c.slots properties) :
    (∃ r, ofFields? listed others = some r ∧ r.SameAudit c) ↔
      Flat.Admits c.slots properties := by
  have held : ("__uuid", c.fingerprint.map .text) ∈ c.slots := mem_slots_iff.mpr (.inl rfl)
  rw [admits_iff, ← exists_textField?_iff (finds _ held),
    ← saidBy_iff timely settled fun slot inside => finds slot (c.lastingSlots_subset inside)]
  constructor
  · rintro ⟨r, read, same⟩
    rw [ofFields?_eq_some_iff, settled] at read
    obtain ⟨id, fingerprint, typeName, created, updated, directives, _⟩ := read
    exact ⟨⟨_, fingerprint⟩, same.id ▸ id, same.typeName ▸ typeName, same.created ▸ created,
      same.updated ▸ updated, same.directives ▸ directives⟩
  · rintro ⟨⟨fingerprint, read⟩, said⟩
    have whole : ofFields? listed others =
        some { c with fingerprint := fingerprint, properties := others } := by
      rw [ofFields?_eq_some_iff, settled]
      exact ⟨said.id, read, said.typeName, said.created, said.updated, said.directives, rfl⟩
    exact ⟨_, whole, rfl, rfl, rfl, rfl, rfl⟩

end Core

/-! ## Events -/

namespace Event

theorem mem_slots_iff {e : Event} {slot : String × Option Tree} : slot ∈ e.slots ↔
    slot = ("__isMember", e.membership.map .bool) ∨ slot ∈ e.endSlots ∨ slot ∈ e.core.slots := by
  simp only [slots, endSlots, List.cons_append, List.nil_append, List.mem_cons, List.not_mem_nil,
    or_false]
  grind

theorem admits_iff {e : Event} : Flat.Admits e.slots properties ↔
    (e.membership = none → ∀ value ∈ properties.get? "__isMember",
      value.jsonForm = .null ∨ ∃ truth, value = .boolean truth) ∧
    Flat.Silent e.endSlots properties ∧ Flat.Admits e.core.slots properties := by
  have keys : e.endSlots.map Prod.fst = ["__left", "__leftSd", "__right", "__rightSd"] := rfl
  rw [← Flat.admits_iff_silent (keys ▸ by decide) (keys ▸ by decide)]
  constructor
  · intro admits
    refine ⟨?_, fun slot inside => admits slot (mem_slots_iff.mpr (.inr (.inl inside))),
      fun slot inside => admits slot (mem_slots_iff.mpr (.inr (.inr inside)))⟩
    intro vacant value found
    obtain null | ⟨other, _⟩ | ⟨_, truth⟩ := admits _ (mem_slots_iff.mpr (.inl rfl))
      (Option.map_eq_none_iff.mpr vacant) value found
    · exact .inl null
    · have different : "__isMember" ≠ "__uuid" := by decide
      exact absurd other different
    · exact .inr truth
  · rintro ⟨membership, atEnds, inCore⟩ slot inside
    obtain same | atEnd | further := mem_slots_iff.mp inside
    · subst same
      intro vacant value found
      cases membership (Option.map_eq_none_iff.mp vacant) value found with
      | inl null => exact .inl null
      | inr truth => exact .inr (.inr ⟨rfl, truth⟩)
    · exact atEnds slot atEnd
    · exact inCore slot further

end Event

/-! ## Saving and reading -/

/-- A node is read with what it was saved with just when no property says anything else. -/
theorem Node.exists_sameAudit_iff {n : Node} (timely : n.core.Timely) :
    (∃ r, Node.ofJson? n.json = some r ∧ r.core.SameAudit n.core) ↔
      Flat.Shallow n.core.properties ∧
      ∀ key value, n.core.properties.get? key = some value →
        Flat.Passes n.core.slots key value := by
  have proper := n.core.proper_slots
  have finds : Flat.Finds (Flat.fields n.core.slots n.core.properties) n.core.slots
      n.core.properties := Flat.finds_fields proper
  have fields (others : PropertyMap) := Core.exists_ofFields?_iff others timely
    (Flat.resolved_fields proper) finds
  rw [Flat.forall_passes_iff proper.distinct]
  simp only [Node.ofJson?_json_iff]
  constructor
  · rintro ⟨_, ⟨shallow, apart, others, told, c, read, rfl⟩, same⟩
    exact ⟨shallow, apart, (Flat.exists_others?_iff_readable shallow).mp ⟨others, told⟩,
      (fields others).mp ⟨c, read, same⟩⟩
  · rintro ⟨shallow, apart, readable, admits⟩
    obtain ⟨others, told⟩ := (Flat.exists_others?_iff_readable shallow).mpr readable
    obtain ⟨c, read, same⟩ := (fields others).mpr admits
    exact ⟨_, ⟨shallow, apart, others, told, c, read, rfl⟩, same⟩

theorem Event.exists_sameAudit_iff {e : Event} (timely : e.core.Timely) :
    (∃ r, Event.ofJson? e.json = some r ∧ r.core.SameAudit e.core ∧
        r.left = e.left ∧ r.right = e.right) ↔
      Flat.Shallow e.core.properties ∧
      ∀ key value, e.core.properties.get? key = some value → Flat.Passes e.slots key value := by
  have proper := e.proper_slots
  have finds : Flat.Finds (Flat.fields e.slots e.core.properties) e.slots e.core.properties :=
    Flat.finds_fields proper
  have fields (others : PropertyMap) := Core.exists_ofFields?_iff others timely
    (Flat.resolved_fields proper) fun slot inside => finds slot (List.mem_append_right _ inside)
  have membership := exists_boolField?_iff (finds _ (mem_slots_iff.mpr (.inl rfl)))
  have ends := endsSaidBy_iff fun slot inside => finds slot (e.endSlots_subset inside)
  rw [Flat.forall_passes_iff proper.distinct, admits_iff, ← membership, ← ends]
  simp only [Event.ofJson?_json_iff]
  constructor
  · rintro ⟨r, ⟨shallow, apart, others, told, left, leftType, right, rightType, member, core⟩,
      same, sameLeft, sameRight⟩
    rw [sameLeft] at left leftType
    rw [sameRight] at right rightType
    exact ⟨shallow, apart, (Flat.exists_others?_iff_readable shallow).mp ⟨others, told⟩,
      ⟨_, member⟩, ⟨left, leftType, right, rightType⟩, (fields others).mp ⟨r.core, core, same⟩⟩
  · rintro ⟨shallow, apart, readable, ⟨member, isMember⟩, said, admits⟩
    obtain ⟨others, told⟩ := (Flat.exists_others?_iff_readable shallow).mpr readable
    obtain ⟨core, read, same⟩ := (fields others).mpr admits
    exact ⟨{ left := e.left, right := e.right, membership := member, core := core },
      ⟨shallow, apart, others, told, said.left, said.leftType, said.right, said.rightType, isMember,
        read⟩, same, rfl, rfl⟩

/-! ## Merging -/

theorem Core.sameAudit_renewed {c d : Core} {properties : PropertyMap} :
    c.SameAudit { d.stale with properties } ↔ c.SameAudit d := by
  constructor
  · rintro ⟨id, typeName, created, updated, directives⟩
    exact ⟨id, typeName, created, updated, directives⟩
  · rintro ⟨id, typeName, created, updated, directives⟩
    exact ⟨id, typeName, created, updated, directives⟩

/-- When one node was merged into another, or one event, what is saved of it is read with its
    identity, ends, times and directives just when every property that the merge left is nested no
    deeper than the reader goes and can be read, and has no reserved key unless its slot is not
    filled and the property is written as null, is a text for the fingerprint, or is a truth value
    for the membership. -/
theorem merged_kept_iff (a b : Node) (e f : Event) (timely : a.core.Timely)
    (timelyToo : e.core.Timely) :
    ((∃ r, Node.ofJson? (Entity.merge a b).json = some r ∧ r.core.SameAudit a.core) ↔
      ∀ key value, (b.core.properties.get? key).or (a.core.properties.get? key) = some value →
        value.toTree.depth < Data.Format.json.depthLimit ∧
          Flat.Passes a.detached.core.slots key value) ∧
    ((∃ r, Event.ofJson? (Entity.merge e f).json = some r ∧ r.core.SameAudit e.core ∧
        r.left = e.left ∧ r.right = e.right) ↔
      ∀ key value, (f.core.properties.get? key).or (e.core.properties.get? key) = some value →
        value.toTree.depth < Data.Format.json.depthLimit ∧
          Flat.Passes e.detached.slots key value) := by
  constructor
  · have merged : (Entity.merge a b).core =
        { a.core.stale with properties := a.core.properties.insertAll b.core.properties } := rfl
    have slots : (Entity.merge a b).core.slots = a.detached.core.slots := rfl
    have saved := Node.exists_sameAudit_iff (n := Entity.merge a b) timely
    rw [Flat.shallow_iff, slots, merged] at saved
    simp only [Core.sameAudit_renewed, OrderedMap.get?_insertAll, ← forall_and] at saved
    exact saved
  · have merged : (Entity.merge e f).core =
        { e.core.stale with properties := e.core.properties.insertAll f.core.properties } := rfl
    have slots : (Entity.merge e f).slots = e.detached.slots := rfl
    have saved := Event.exists_sameAudit_iff (e := Entity.merge e f) timelyToo
    rw [Flat.shallow_iff, slots, merged] at saved
    simp only [Core.sameAudit_renewed, OrderedMap.get?_insertAll, ← forall_and] at saved
    exact saved

/-- A new name and a lock that says nothing are merged in, and a year into an event, and
    what is saved of them is read as what it was. -/
theorem name_merged_in :
    let a := Entity.setProperty (Node.named "P" "1") "name" (.text "ann")
    let b := Entity.setProperty (Entity.setProperty (Node.named "P" "2") "name" (.text "bob"))
      "$syncLock" .null
    let e := Event.between "KNOWS" "e" a b
    let f := Entity.setProperty (Event.named "KNOWS" "f") "since" (.integer 2020)
    (∃ r, Node.ofJson? (Entity.merge a b).json = some r ∧ r.core.SameAudit a.core) ∧
    ∃ r, Event.ofJson? (Entity.merge e f).json = some r ∧ r.core.SameAudit e.core ∧
      r.left = e.left ∧ r.right = e.right := by
  intro a b e f
  have timeless (c : Core) (created : c.created = none) (updated : c.updated = none) :
      c.Timely := by
    unfold Core.Timely
    rw [created, updated]
    constructor
    · intro i held
      cases held
    · intro i held
      cases held
  have readable {v : Value} (exact : v.Exact) (flat : v.toTree.depth = 0) :
      (Value.ofJson? v.json).isSome = true := by
    rw [Value.ofJson?_of_exact exact (flat ▸ Nat.zero_le _), Option.isSome_some]
  obtain ⟨ofNodes, ofEvents⟩ :=
    merged_kept_iff a b e f (timeless _ rfl rfl) (timeless _ rfl rfl)
  constructor
  · apply ofNodes.mpr
    intro key value found
    have listed : (a.core.properties.insertAll b.core.properties).entries =
        [("name", .text "bob"), ("$syncLock", .null)] := rfl
    rw [← OrderedMap.get?_insertAll, OrderedMap.get?_eq_some_iff, listed] at found
    simp only [List.mem_cons, Prod.mk.injEq, List.not_mem_nil, or_false] at found
    obtain ⟨rfl, rfl⟩ | ⟨rfl, rfl⟩ := found
    · exact ⟨by decide, .unreserved (by decide) (readable (.text "bob") rfl)⟩
    · exact ⟨by decide, .null (List.mem_of_getLast? rfl) rfl⟩
  · apply ofEvents.mpr
    intro key value found
    have listed : (e.core.properties.insertAll f.core.properties).entries =
        [("since", .integer 2020)] := rfl
    rw [← OrderedMap.get?_insertAll, OrderedMap.get?_eq_some_iff, listed] at found
    simp only [List.mem_cons, Prod.mk.injEq, List.not_mem_nil, or_false] at found
    obtain ⟨rfl, rfl⟩ := found
    exact ⟨by decide, .unreserved (by decide) (readable (.integer 2020) rfl)⟩

/-- A lock that is merged in as a property comes into force, and with another type that is
    merged in, the text has two types and cannot be read. -/
theorem lock_merged_in :
    let a := Node.named "P" "1"
    let locked := Entity.setProperty (Node.named "P" "2") "$syncLock" (.boolean true)
    let retyped := Entity.setProperty (Node.named "P" "3") "__sd" (.text "Q")
    a.core.directives.syncLock = none ∧
    (Node.ofJson? (Entity.merge a locked).json).map (fun r => r.core.directives.syncLock) =
      some (some true) ∧
    (Node.ofJson? (Entity.merge a retyped).json).isNone = true := by
  decide +kernel

end SchemaGraph
