import SchemaGraph.Proofs.Entity.Flat
import SchemaGraph.Proofs.Time.Notation

/-! # Entities are told by their texts

What an entity is written as can be read as the same entity, as long as no property has a
reserved key.
-/

namespace SchemaGraph

open Data (Tree keyed)
open Flat (Slots Slight)

/-! ## Authorities -/

namespace Authority

/-- The fields of a written authority. -/
def fields (a : Authority) : List (String × Tree) := [
  ("editDisabled", .bool a.editDisabled),
  ("deleteDisabled", .bool a.deleteDisabled),
  ("propertiesDisabled", .list (a.propertiesDisabled.map .text))]

theorem toTree_eq (a : Authority) : a.toTree = .map (keyed a.fields) := rfl

theorem exact_fields (a : Authority) : ∀ entry ∈ a.fields, entry.2.Exact := by
  have exactTexts : (Data.Tree.list (a.propertiesDisabled.map .text)).Exact := by
    apply Data.Tree.Exact.list
    exact List.forall_mem_map.mpr fun name _ => .text name
  simp only [fields, List.forall_mem_cons]
  exact ⟨.bool _, .bool _, exactTexts, List.forall_mem_nil _⟩

theorem exact_toTree (a : Authority) : a.toTree.Exact := .map a.exact_fields

theorem depth_toTree (a : Authority) : a.toTree.depth = 2 := by
  have flat (names : List String) : Tree.listDepth (names.map .text) = 0 := by
    induction names with
    | nil => rfl
    | cons name rest ih => rw [List.map_cons, Tree.listDepth, ih]; rfl
  unfold toTree
  simp [Tree.depth, Tree.entriesDepth, flat]

theorem asTexts?_texts (names : List String) :
    Tree.asTexts? (.list (names.map .text)) = some names := by
  unfold Tree.asTexts? Tree.asList?
  rw [Option.bind_eq_bind, Option.bind_some]
  induction names with
  | nil => rfl
  | cons name rest ih => rw [List.map_cons, List.mapM_cons, ih]; rfl

theorem ofTree?_toTree (a : Authority) : ofTree? a.toTree = some a := by
  have inside : a.toTree.asInnerRecord? fieldNames = some a.fields := rfl
  have edit : Tree.field? a.fields "editDisabled" false Tree.asBool? = some a.editDisabled := rfl
  have delete : Tree.field? a.fields "deleteDisabled" false Tree.asBool? =
      some a.deleteDisabled := rfl
  have disabled : Tree.field? a.fields "propertiesDisabled" [] Tree.asTexts? =
      some a.propertiesDisabled := asTexts?_texts _
  have settled : resolved a.fields = a.fields := resolved_of_forall fun entry inside =>
    Tree.resolve_of_exact (a.exact_fields entry inside)
  unfold ofTree?
  rw [Tree.resolve_of_exact a.exact_toTree, Tree.isReadable_of_exact a.exact_toTree, inside]
  simp only [guard, if_true, Option.bind_eq_bind, Option.bind_some, Option.pure_def,
    settled, edit, delete, disabled]

end Authority

/-! ## Slots -/

namespace Directives

/-- The reserved keys of directives. -/
def slots (d : Directives) : Slots := [
  ("$operate", d.operation.map fun o => .text o.name),
  ("$operate_delete_enforce", d.deleteEnforced.map .bool),
  ("$operate_create_original_id", d.createsWithOwnId.map .bool),
  ("$authority", d.authority.map Authority.toTree),
  ("$syncLock", d.syncLock.map .bool)]

end Directives

namespace Core

/-- The reserved keys that all entities have. -/
def slots (c : Core) : Slots := [
  ("__id", c.id.map .text),
  ("__uuid", c.fingerprint.map .text),
  ("__sd", c.typeName.map .text),
  ("__createTime", c.created.map fun i => .text i.write),
  ("__updateTime", c.updated.map fun i => .text i.write)] ++ c.directives.slots

theorem keys_slots (c : Core) : c.slots.map Prod.fst = keys := rfl

end Core

namespace Event

/-- The reserved keys of events. -/
def slots (e : Event) : Slots := [
  ("__left", e.left.id.map .text),
  ("__leftSd", e.left.typeName.map .text),
  ("__right", e.right.id.map .text),
  ("__rightSd", e.right.typeName.map .text),
  ("__isMember", e.membership.map .bool)] ++ e.core.slots

theorem keys_slots (e : Event) : e.slots.map Prod.fst = keys := rfl

end Event

theorem Flat.tree_eq (slots : Slots) (properties : PropertyMap) :
    tree slots properties = .map (slots.flatMap (fun slot => reservedEntry slot.1 slot.2) ++
      Core.propertyEntries properties) := by
  have inSlots : keyed (filled slots) = slots.flatMap fun slot => reservedEntry slot.1 slot.2 := by
    induction slots with
    | nil => rfl
    | cons slot rest ih =>
        obtain ⟨key, t⟩ := slot
        rw [List.flatMap_cons, ← ih]
        cases t <;> rfl
  have inProperties : keyed (properties.entries.map fun entry => (entry.1, entry.2.toTree)) =
      Core.propertyEntries properties := by
    unfold keyed Core.propertyEntries
    rw [List.map_map]
    rfl
  rw [← inSlots, ← inProperties, tree]
  exact congrArg Data.Tree.map List.map_append

theorem Node.toTree_eq (n : Node) : n.toTree = Flat.tree n.core.slots n.core.properties := by
  simp only [Flat.tree_eq, toTree, Core.entries, Directives.entries, Core.slots, Directives.slots,
    List.flatMap_cons, List.flatMap_nil, List.cons_append, List.nil_append, List.append_assoc,
    List.append_nil]

theorem Event.toTree_eq (e : Event) : e.toTree = Flat.tree e.slots e.core.properties := by
  simp only [Flat.tree_eq, toTree, Core.entries, Directives.entries, slots, Core.slots,
    Directives.slots, List.flatMap_cons, List.flatMap_nil, List.cons_append, List.nil_append,
    List.append_assoc, List.append_nil]

theorem slight_text (text : String) : Slight (.text text) := ⟨.text text, Nat.zero_le _⟩

theorem slight_bool (value : Bool) : Slight (.bool value) := ⟨.bool value, Nat.zero_le _⟩

theorem slight_authority (a : Authority) : Slight a.toTree :=
  ⟨a.exact_toTree, Nat.le_of_eq a.depth_toTree⟩

theorem slight_map {α : Type} {own : Option α} {write : α → Tree} (slight : ∀ x, Slight (write x)) :
    ∀ t ∈ own.map write, Slight t := by
  intro t written
  obtain ⟨x, _, rfl⟩ := Option.map_eq_some_iff.mp written
  exact slight x

theorem Core.proper_slots (c : Core) : Flat.Proper c.slots := by
  constructor
  · rw [keys_slots]
    decide
  · simp only [slots, Directives.slots, List.cons_append, List.nil_append, List.forall_mem_cons]
    exact ⟨slight_map slight_text, slight_map slight_text, slight_map slight_text,
      slight_map fun i => slight_text i.write, slight_map fun i => slight_text i.write,
      slight_map fun o => slight_text o.name, slight_map slight_bool, slight_map slight_bool,
      slight_map slight_authority, slight_map slight_bool, List.forall_mem_nil _⟩

theorem Event.proper_slots (e : Event) : Flat.Proper e.slots := by
  constructor
  · rw [keys_slots]
    decide
  · simp only [slots, List.cons_append, List.nil_append, List.forall_mem_cons]
    exact ⟨slight_map slight_text, slight_map slight_text, slight_map slight_text,
      slight_map slight_text, slight_map slight_bool, e.core.proper_slots.slight⟩

/-! ## Fields -/

theorem Directives.ofFields?_eq_some_iff {listed : List (String × Tree)} {d : Directives} :
    ofFields? listed = some d ↔
      Tree.field? listed "$operate" none (Tree.asOptional? Operation.ofTree?) = some d.operation ∧
      boolField? (resolved listed) "$operate_delete_enforce" = some d.deleteEnforced ∧
      boolField? (resolved listed) "$operate_create_original_id" = some d.createsWithOwnId ∧
      Tree.field? listed "$authority" none (Tree.asOptional? Authority.ofTree?) =
        some d.authority ∧
      boolField? (resolved listed) "$syncLock" = some d.syncLock := by
  simp only [ofFields?, Option.bind_eq_bind, Option.bind_eq_some_iff, Option.pure_def,
    Option.some.injEq]
  constructor
  · rintro ⟨_, operation, _, enforced, _, ownId, _, authority, _, lock, rfl⟩
    exact ⟨operation, enforced, ownId, authority, lock⟩
  · rintro ⟨operation, enforced, ownId, authority, lock⟩
    exact ⟨_, operation, _, enforced, _, ownId, _, authority, _, lock, rfl⟩

theorem Core.ofFields?_eq_some_iff {listed : List (String × Tree)} {properties : PropertyMap}
    {c : Core} : ofFields? listed properties = some c ↔
      textField? (resolved listed) "__id" = some c.id ∧
      textField? (resolved listed) "__uuid" = some c.fingerprint ∧
      textField? (resolved listed) "__sd" = some c.typeName ∧
      timeField? (resolved listed) "__createTime" = some c.created ∧
      timeField? (resolved listed) "__updateTime" = some c.updated ∧
      Directives.ofFields? listed = some c.directives ∧ c.properties = properties := by
  simp only [ofFields?, Option.bind_eq_bind, Option.bind_eq_some_iff, Option.pure_def,
    Option.some.injEq]
  constructor
  · rintro ⟨_, id, _, fingerprint, _, typeName, _, created, _, updated, _, directives, rfl⟩
    exact ⟨id, fingerprint, typeName, created, updated, directives, rfl⟩
  · rintro ⟨id, fingerprint, typeName, created, updated, directives, rfl⟩
    exact ⟨_, id, _, fingerprint, _, typeName, _, created, _, updated, _, directives, rfl⟩

section

variable {listed : List (String × Tree)} {properties : PropertyMap} {key : String}
  {given : Option Value}

theorem textField?_eq_own_iff {own : Option String}
    (found : Entries.find key listed = (own.map .text).or (given.map Value.kept)) :
    textField? listed key = some own ↔ (own = none → ∀ value ∈ given, value.jsonForm = .null) :=
  Flat.field?_eq_own_iff (fun _ _ => rfl) found

theorem boolField?_eq_own_iff {own : Option Bool}
    (found : Entries.find key listed = (own.map .bool).or (given.map Value.kept)) :
    boolField? listed key = some own ↔ (own = none → ∀ value ∈ given, value.jsonForm = .null) :=
  Flat.field?_eq_own_iff (fun _ _ => rfl) found

theorem timeField?_eq_own_iff {own : Option Time.Instant}
    (possible : ∀ i ∈ own, Time.Instant.inRange i.date = true)
    (found : Entries.find key listed =
      (own.map fun i => .text i.write).or (given.map Value.kept)) :
    timeField? listed key = some own ↔ (own = none → ∀ value ∈ given, value.jsonForm = .null) := by
  have reads : ∀ i ∈ own, Tree.asOptional? (fun t => t.asText?.bind Time.Instant.read?)
      (.text i.write) = some (some i) := by
    intro i inside
    simp only [Tree.asOptional?, Tree.asText?, Option.bind_some,
      Time.Instant.read?_write (possible i inside), Option.map_some]
  exact Flat.field?_eq_own_iff reads found

theorem Directives.ofFields?_eq_self_iff {d : Directives} (settled : resolved listed = listed)
    (finds : Flat.Finds listed d.slots properties) :
    ofFields? listed = some d ↔ Flat.Silent d.slots properties := by
  simp only [Flat.Finds, slots, List.forall_mem_cons] at finds
  obtain ⟨operation, enforced, ownId, authority, lock, _⟩ := finds
  have reads (o : Operation) : Tree.asOptional? Operation.ofTree? (.text o.name) = some (some o) :=
    congrArg (Option.map some) (Operation.ofName?_name o)
  have readsToo (a : Authority) : Tree.asOptional? Authority.ofTree? a.toTree = some (some a) :=
    congrArg (Option.map some) (Authority.ofTree?_toTree a)
  rw [ofFields?_eq_some_iff, settled, boolField?_eq_own_iff enforced, boolField?_eq_own_iff ownId,
    boolField?_eq_own_iff lock, Flat.field?_eq_own_iff (fun o _ => reads o) operation,
    Flat.field?_eq_own_iff (fun a _ => readsToo a) authority]
  simp only [Flat.Silent, slots, List.forall_mem_cons, Option.map_eq_none_iff, List.not_mem_nil,
    false_implies, implies_true, and_true]

/-- The slots of a core without that of its fingerprint. -/
def Core.lastingSlots (c : Core) : Slots := [
  ("__id", c.id.map .text),
  ("__sd", c.typeName.map .text),
  ("__createTime", c.created.map fun i => .text i.write),
  ("__updateTime", c.updated.map fun i => .text i.write)] ++ c.directives.slots

theorem Core.lastingSlots_subset (c : Core) : c.lastingSlots ⊆ c.slots := by
  intro slot inside
  simp only [lastingSlots, slots, List.cons_append, List.nil_append, List.mem_cons] at inside ⊢
  cases inside with
  | inl id => exact .inl id
  | inr later => exact .inr (.inr later)

/-- The fields say all of a core but its fingerprint and properties. -/
structure Core.SaidBy (c : Core) (listed : List (String × Tree)) : Prop where
  id : textField? listed "__id" = some c.id
  typeName : textField? listed "__sd" = some c.typeName
  created : timeField? listed "__createTime" = some c.created
  updated : timeField? listed "__updateTime" = some c.updated
  directives : Directives.ofFields? listed = some c.directives

/-- All times of a core are such that the calendar of the reader reaches them. -/
def Core.Timely (c : Core) : Prop :=
  (∀ i ∈ c.created, Time.Instant.inRange i.date = true) ∧
    ∀ i ∈ c.updated, Time.Instant.inRange i.date = true

theorem Core.saidBy_iff {c : Core} (timely : c.Timely) (settled : resolved listed = listed)
    (finds : Flat.Finds listed c.lastingSlots properties) :
    c.SaidBy listed ↔ Flat.Silent c.lastingSlots properties := by
  have ofDirectives : Flat.Finds listed c.directives.slots properties :=
    fun slot inside => finds slot (List.mem_append_right _ inside)
  simp only [Flat.Finds, lastingSlots, List.cons_append, List.nil_append,
    List.forall_mem_cons] at finds
  obtain ⟨id, typeName, created, updated, _⟩ := finds
  have silent : Flat.Silent c.lastingSlots properties ↔
      (c.id = none → ∀ value ∈ properties.get? "__id", value.jsonForm = .null) ∧
      (c.typeName = none → ∀ value ∈ properties.get? "__sd", value.jsonForm = .null) ∧
      (c.created = none → ∀ value ∈ properties.get? "__createTime", value.jsonForm = .null) ∧
      (c.updated = none → ∀ value ∈ properties.get? "__updateTime", value.jsonForm = .null) ∧
      Flat.Silent c.directives.slots properties := by
    simp only [Flat.Silent, lastingSlots, List.cons_append, List.nil_append, List.forall_mem_cons,
      Option.map_eq_none_iff]
  rw [silent, ← textField?_eq_own_iff id, ← textField?_eq_own_iff typeName,
    ← timeField?_eq_own_iff timely.1 created, ← timeField?_eq_own_iff timely.2 updated,
    ← Directives.ofFields?_eq_self_iff settled ofDirectives]
  constructor
  · intro said
    exact ⟨said.id, said.typeName, said.created, said.updated, said.directives⟩
  · rintro ⟨id, typeName, created, updated, directives⟩
    exact ⟨id, typeName, created, updated, directives⟩

theorem Core.ofFields?_eq_self {c : Core} (timely : c.Timely) (settled : resolved listed = listed)
    (finds : Flat.Finds listed c.slots properties) (silent : Flat.Silent c.slots properties) :
    ofFields? listed properties = some { c with properties } := by
  have said : c.SaidBy listed := (saidBy_iff timely settled fun slot inside =>
    finds slot (c.lastingSlots_subset inside)).mpr
      fun slot inside => silent slot (c.lastingSlots_subset inside)
  have fingerprint : textField? listed "__uuid" = some c.fingerprint := by
    have held : ("__uuid", c.fingerprint.map .text) ∈ c.slots := by simp [slots]
    apply (textField?_eq_own_iff (finds _ held)).mpr
    intro none
    exact silent _ held (Option.map_eq_none_iff.mpr none)
  rw [ofFields?_eq_some_iff, settled]
  exact ⟨said.id, fingerprint, said.typeName, said.created, said.updated, said.directives, rfl⟩

/-- The slots of the ends of an event. -/
def Event.endSlots (e : Event) : Slots := [
  ("__left", e.left.id.map .text),
  ("__leftSd", e.left.typeName.map .text),
  ("__right", e.right.id.map .text),
  ("__rightSd", e.right.typeName.map .text)]

theorem Event.endSlots_subset (e : Event) : e.endSlots ⊆ e.slots :=
  fun _ inside => List.mem_append_left _ (List.mem_append_left [_] inside)

/-- The fields say the ends of an event. -/
structure Event.EndsSaidBy (e : Event) (listed : List (String × Tree)) : Prop where
  left : textField? listed "__left" = some e.left.id
  leftType : textField? listed "__leftSd" = some e.left.typeName
  right : textField? listed "__right" = some e.right.id
  rightType : textField? listed "__rightSd" = some e.right.typeName

theorem Event.endsSaidBy_iff {e : Event} (finds : Flat.Finds listed e.endSlots properties) :
    e.EndsSaidBy listed ↔ Flat.Silent e.endSlots properties := by
  simp only [Flat.Finds, endSlots, List.forall_mem_cons] at finds
  obtain ⟨left, leftType, right, rightType, _⟩ := finds
  have silent : Flat.Silent e.endSlots properties ↔
      (e.left.id = none → ∀ value ∈ properties.get? "__left", value.jsonForm = .null) ∧
      (e.left.typeName = none → ∀ value ∈ properties.get? "__leftSd", value.jsonForm = .null) ∧
      (e.right.id = none → ∀ value ∈ properties.get? "__right", value.jsonForm = .null) ∧
      (e.right.typeName = none →
        ∀ value ∈ properties.get? "__rightSd", value.jsonForm = .null) := by
    simp only [Flat.Silent, endSlots, List.forall_mem_cons, Option.map_eq_none_iff,
      List.not_mem_nil, false_implies, implies_true, and_true]
  rw [silent, ← textField?_eq_own_iff left, ← textField?_eq_own_iff leftType,
    ← textField?_eq_own_iff right, ← textField?_eq_own_iff rightType]
  constructor
  · intro said
    exact ⟨said.left, said.leftType, said.right, said.rightType⟩
  · rintro ⟨left, leftType, right, rightType⟩
    exact ⟨left, leftType, right, rightType⟩

end

/-! ## Texts -/

theorem Node.ofTree?_eq_some_iff {t : Tree} {r : Node} :
    ofTree? .json 0 t = some r ↔ t.fitsBelow .json 0 = true ∧
      ∃ found, readFlat? Core.keys t = some found ∧
        ∃ c, Core.ofFields? found.1 found.2 = some c ∧ .ofCore c = r := by
  unfold ofTree?
  cases t.fitsBelow .json 0 with
  | false => simp [guard]
  | true => simp [guard, Option.bind_eq_some_iff]

theorem Event.ofTree?_eq_some_iff {t : Tree} {r : Event} :
    ofTree? .json 0 t = some r ↔ t.fitsBelow .json 0 = true ∧
      ∃ found, readFlat? keys t = some found ∧
        textField? found.1 "__left" = some r.left.id ∧
        textField? found.1 "__leftSd" = some r.left.typeName ∧
        textField? found.1 "__right" = some r.right.id ∧
        textField? found.1 "__rightSd" = some r.right.typeName ∧
        boolField? found.1 "__isMember" = some r.membership ∧
        Core.ofFields? found.1 found.2 = some r.core := by
  unfold ofTree?
  cases t.fitsBelow .json 0 with
  | false => simp [guard]
  | true =>
      simp only [guard, if_true, Option.bind_eq_bind, Option.pure_def, Option.bind_some, true_and,
        Option.bind_eq_some_iff, Option.some.injEq]
      constructor
      · rintro ⟨found, read, _, left, _, leftType, _, right, _, rightType, _, membership, _, core,
          rfl⟩
        exact ⟨found, read, left, leftType, right, rightType, membership, core⟩
      · rintro ⟨found, read, left, leftType, right, rightType, membership, core⟩
        exact ⟨found, read, _, left, _, leftType, _, right, _, rightType, _, membership, _, core,
          rfl⟩

theorem Node.ofJson?_json_iff {n r : Node} :
    Node.ofJson? n.json = some r ↔ Flat.Shallow n.core.properties ∧
      Flat.Apart n.core.slots n.core.properties ∧
      ∃ others, Flat.others? n.core.slots n.core.properties = some others ∧
        ∃ c, Core.ofFields? (Flat.fields n.core.slots n.core.properties) others = some c ∧
          .ofCore c = r := by
  have proper := n.core.proper_slots
  unfold ofJson? json
  rw [toTree_eq, Flat.read?_print proper, Option.bind_some, ofTree?_eq_some_iff,
    ← n.core.keys_slots, Flat.fits_iff proper]
  simp only [Flat.readFlat?_eq_some_iff proper, and_assoc, exists_and_left, Prod.exists,
    exists_eq_left]

theorem Event.ofJson?_json_iff {e r : Event} :
    Event.ofJson? e.json = some r ↔ Flat.Shallow e.core.properties ∧
      Flat.Apart e.slots e.core.properties ∧
      ∃ others, Flat.others? e.slots e.core.properties = some others ∧
        let listed := Flat.fields e.slots e.core.properties
        textField? listed "__left" = some r.left.id ∧
        textField? listed "__leftSd" = some r.left.typeName ∧
        textField? listed "__right" = some r.right.id ∧
        textField? listed "__rightSd" = some r.right.typeName ∧
        boolField? listed "__isMember" = some r.membership ∧
        Core.ofFields? listed others = some r.core := by
  have proper := e.proper_slots
  unfold ofJson? json
  rw [toTree_eq, Flat.read?_print proper, Option.bind_some, ofTree?_eq_some_iff,
    ← e.keys_slots, Flat.fits_iff proper]
  simp only [Flat.readFlat?_eq_some_iff proper, and_assoc, exists_and_left, Prod.exists,
    exists_eq_left]

/-- A core whose text says everything: its times are within the reach of the reader, and so is
    the nesting of its properties, which hold no reals. -/
structure Core.Writable (c : Core) : Prop where
  timely : c.Timely
  exact : Flat.Exact c.properties
  shallow : Flat.Shallow c.properties

/-- Entities whose properties have no reserved keys can be read off their texts, with every slot,
    every directive and the properties in their order. Of a node, the text does not say the
    children. -/
theorem entities_read_back :
    (∀ n : Node, n.core.Writable → (∀ key ∈ n.core.properties.keys, key ∉ Core.keys) →
      Node.ofJson? n.json = some (.ofCore n.core)) ∧
    ∀ e : Event, e.core.Writable → (∀ key ∈ e.core.properties.keys, key ∉ Event.keys) →
      Event.ofJson? e.json = some e := by
  constructor
  · intro n writable unreserved
    have free : Flat.Unreserved n.core.slots n.core.properties := unreserved
    have proper := n.core.proper_slots
    have read := Core.ofFields?_eq_self writable.timely
      (Flat.resolved_fields proper) (Flat.finds_fields proper) free.silent
    rw [Node.ofJson?_json_iff]
    exact ⟨writable.shallow, free.apart, _, free.others?_eq writable.exact, n.core, read, rfl⟩
  · intro e writable unreserved
    have free : Flat.Unreserved e.slots e.core.properties := unreserved
    have proper := e.proper_slots
    have finds : Flat.Finds (Flat.fields e.slots e.core.properties) e.slots e.core.properties :=
      Flat.finds_fields proper
    have read := Core.ofFields?_eq_self writable.timely (Flat.resolved_fields proper)
      (fun slot inside => finds slot (List.mem_append_right _ inside))
      fun slot inside => free.silent slot (List.mem_append_right _ inside)
    have ends := (Event.endsSaidBy_iff fun slot inside => finds slot (e.endSlots_subset inside)).mpr
      fun slot inside => free.silent slot (e.endSlots_subset inside)
    have membership : boolField? (Flat.fields e.slots e.core.properties) "__isMember" =
        some e.membership := by
      have held : ("__isMember", e.membership.map .bool) ∈ e.slots := by simp [Event.slots]
      apply (boolField?_eq_own_iff (finds _ held)).mpr
      intro none
      exact free.silent _ held (Option.map_eq_none_iff.mpr none)
    rw [Event.ofJson?_json_iff]
    exact ⟨writable.shallow, free.apart, _, free.others?_eq writable.exact, ends.left,
      ends.leftType, ends.right, ends.rightType, membership, read⟩

/-- Half a second into the leap second of a leap day. -/
def leapSecond : Time.Instant := ⟨⟨2024, 2, 29, by decide⟩, 23, 59, 60, 500000000, by decide⟩

/-- What is noted, under keys that only look reserved. -/
def noted : PropertyMap := .ofList [
  ("__note", .array [.text "a", .array [], Value.ofEntries [("at", .integer 7)]]),
  ("$note", .null)]

/-- A note that fills its slots. -/
def datedNote : Node := .ofCore {
  id := some "n", fingerprint := some "F", typeName := some "Note", created := some leapSecond
  directives := {
    operation := some .matching
    authority := some { deleteDisabled := true, propertiesDisabled := ["__note"] }
    syncLock := some false }
  properties := noted }

/-- An event from the note that leads nowhere. -/
def datedMention : Event :=
  { left := .ofNode datedNote, membership := some true, core := datedNote.core }

theorem dated_note_reads_back :
    Node.ofJson? datedNote.json = some datedNote ∧
      Event.ofJson? datedMention.json = some datedMention := by
  have writable : datedNote.core.Writable := by
    constructor
    · constructor
      · intro i held
        cases held
        rfl
      · intro i held
        cases held
    · have map : (Value.ofEntries [("at", .integer 7)]).Exact := by
        apply Value.Exact.map
        exact List.forall_mem_cons.mpr ⟨.integer 7, List.forall_mem_nil _⟩
      have array : (Value.array [.text "a", .array [],
          Value.ofEntries [("at", .integer 7)]]).Exact := by
        apply Value.Exact.array
        simp only [List.forall_mem_cons]
        exact ⟨.text "a", .array (List.forall_mem_nil _), map, List.forall_mem_nil _⟩
      exact List.forall_mem_cons.mpr ⟨array, List.forall_mem_cons.mpr
        ⟨.null, List.forall_mem_nil _⟩⟩
    · unfold Flat.Shallow
      decide
  obtain ⟨ofNodes, ofEvents⟩ := entities_read_back
  exact ⟨ofNodes datedNote writable (by decide), ofEvents datedMention writable (by decide)⟩

end SchemaGraph
