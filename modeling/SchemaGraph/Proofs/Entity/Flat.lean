import SchemaGraph.Proofs.Value.Tree
import SchemaGraph.Entity.Text

/-! # Flat maps

An entity is written as one map: first the reserved keys under which something stands, then the
properties. A map can be read when no key is written twice and all other properties can, and a
reserved key then gets what was written under it, be it the slot or a property of that name.
-/

namespace SchemaGraph

open Data (Tree keyed)

theorem resolved_of_forall {fields : List (String × Tree)}
    (settled : ∀ entry ∈ fields, entry.2.resolve = entry.2) : resolved fields = fields := by
  apply (List.map_congr_left _).trans (List.map_id _)
  rintro ⟨key, t⟩ inside
  exact congrArg (Prod.mk key) (settled _ inside)

namespace Flat

/-- Reserved keys, each with what is written under it if something is. -/
abbrev Slots := List (String × Option Tree)

/-- The entries of the slots under which something is written. -/
def filled (slots : Slots) : List (String × Tree) :=
  slots.filterMap fun slot => slot.2.map fun t => (slot.1, t)

/-- The whole map that is written. -/
def tree (slots : Slots) (properties : PropertyMap) : Tree :=
  .map (keyed (filled slots ++ properties.entries.map fun entry => (entry.1, entry.2.toTree)))

/-- The entries that are read of the properties. -/
def told (properties : PropertyMap) : List (String × Tree) :=
  properties.entries.map fun entry => (entry.1, entry.2.kept)

/-- The entries that are read of the whole map. -/
def entries (slots : Slots) (properties : PropertyMap) : List (String × Tree) :=
  filled slots ++ told properties

/-- No property has the key of a slot that is filled. -/
def Apart (slots : Slots) (properties : PropertyMap) : Prop :=
  ∀ slot ∈ slots, slot.2 ≠ none → slot.1 ∉ properties.keys

/-- A property with the key of a slot that is not filled says nothing. -/
def Silent (slots : Slots) (properties : PropertyMap) : Prop :=
  ∀ slot ∈ slots, slot.2 = none → ∀ value ∈ properties.get? slot.1, value.jsonForm = .null

/-- A tree that is exact and hardly nested. -/
def Slight (t : Tree) : Prop := t.Exact ∧ t.depth ≤ 2

/-- Different keys, with slight trees. -/
structure Proper (slots : Slots) : Prop where
  distinct : (slots.map Prod.fst).Nodup
  slight : ∀ slot ∈ slots, ∀ t ∈ slot.2, Slight t

/-- All properties are exact. -/
def Exact (properties : PropertyMap) : Prop := ∀ entry ∈ properties.entries, entry.2.Exact

/-- No property is nested deeper than the reader goes. -/
def Shallow (properties : PropertyMap) : Prop :=
  ∀ entry ∈ properties.entries, entry.2.toTree.depth < Data.Format.json.depthLimit

/-! ## Fields among other entries -/

theorem fieldsAmong?_eq_some_iff {names : List String} {entries fields : List (String × Tree)} :
    Tree.fieldsAmong? Tree.asText? names (keyed entries) = some fields ↔
      fields = entries.filter (·.1 ∈ names) ∧ (fields.map Prod.fst).Nodup := by
  induction entries generalizing fields with
  | nil =>
      change some [] = some fields ↔ _
      constructor
      · rintro ⟨⟩
        exact ⟨rfl, List.nodup_nil⟩
      · rintro ⟨rfl, _⟩
        rfl
  | cons entry rest ih =>
      have step : Tree.fieldsAmong? Tree.asText? names (keyed (entry :: rest)) =
          (Tree.fieldsAmong? Tree.asText? names (keyed rest)).bind fun later =>
            if entry.1 ∈ names then
              if entry.1 ∈ later.map Prod.fst then none else some (entry :: later)
            else some later := rfl
      rw [step, Option.bind_eq_some_iff]
      by_cases reserved : entry.1 ∈ names
      · rw [List.filter_cons_of_pos (by simpa using reserved)]
        constructor
        · rintro ⟨later, read, put⟩
          obtain ⟨rfl, distinct⟩ := ih.mp read
          rw [if_pos reserved] at put
          split at put
          · cases put
          · rename_i fresh
            cases put
            exact ⟨rfl, List.nodup_cons.mpr ⟨fresh, distinct⟩⟩
        · rintro ⟨rfl, distinct⟩
          obtain ⟨fresh, distinctRest⟩ := List.nodup_cons.mp distinct
          exact ⟨_, ih.mpr ⟨rfl, distinctRest⟩, by rw [if_pos reserved, if_neg fresh]⟩
      · rw [List.filter_cons_of_neg (by simpa using reserved)]
        simp only [if_neg reserved, Option.some.injEq, exists_eq_right, ih]

/-! ## What is found -/

variable {slots : Slots} {properties : PropertyMap} {key : String}

theorem mem_filled {t : Tree} : (key, t) ∈ filled slots ↔ (key, some t) ∈ slots := by
  simp only [filled, List.mem_filterMap, Option.map_eq_some_iff, Prod.mk.injEq]
  constructor
  · rintro ⟨⟨_, _⟩, inside, _, rfl, rfl, rfl⟩
    exact inside
  · intro inside
    exact ⟨(key, some t), inside, t, rfl, rfl, rfl⟩

theorem keys_filled_sublist (slots : Slots) :
    ((filled slots).map Prod.fst).Sublist (slots.map Prod.fst) := by
  induction slots with
  | nil => exact .slnil
  | cons slot rest ih =>
      obtain ⟨key, t⟩ := slot
      cases t with
      | none => exact ih.cons key
      | some t => exact ih.cons_cons key

/-- A key is found in its slot. -/
theorem find_filled (distinct : (slots.map Prod.fst).Nodup) {t : Option Tree}
    (inside : (key, t) ∈ slots) : Entries.find key (filled slots) = t := by
  apply Option.ext
  intro held
  rw [Entries.find_eq_some_iff (distinct.sublist (keys_filled_sublist slots)), mem_filled]
  constructor
  · intro insideToo
    exact Entries.value_unique distinct inside insideToo
  · rintro rfl
    exact inside

theorem find_append {entries more : List (String × Tree)} :
    Entries.find key (entries ++ more) = (Entries.find key entries).or (Entries.find key more) := by
  induction entries with
  | nil => rfl
  | cons entry rest ih =>
      rw [List.cons_append, Entries.find, Entries.find]
      split
      · rfl
      · exact ih

theorem find_told (properties : PropertyMap) (key : String) :
    Entries.find key (told properties) = (properties.get? key).map Value.kept := by
  have looked := OrderedMap.get?_mapValues Value.kept properties key
  exact looked

theorem find_filter {entries : List (String × Tree)} {names : List String}
    (reserved : key ∈ names) :
    Entries.find key (entries.filter (·.1 ∈ names)) = Entries.find key entries := by
  induction entries with
  | nil => rfl
  | cons entry rest ih =>
      by_cases inside : entry.1 ∈ names
      · rw [List.filter_cons_of_pos (by simpa using inside), Entries.find, Entries.find, ih]
      · have different : entry.1 ≠ key := fun same => inside (same ▸ reserved)
        rw [List.filter_cons_of_neg (by simpa using inside), ih, Entries.find, if_neg different]

/-! ## Reading a whole map -/

/-- The fields that are read of a whole map. -/
def fields (slots : Slots) (properties : PropertyMap) : List (String × Tree) :=
  (entries slots properties).filter (·.1 ∈ slots.map Prod.fst)

/-- The properties without reserved keys. -/
def unreserved (slots : Slots) (properties : PropertyMap) : List (String × Value) :=
  properties.entries.filter (·.1 ∉ slots.map Prod.fst)

/-- The properties that are read of a whole map, if all can be. -/
def others? (slots : Slots) (properties : PropertyMap) : Option PropertyMap :=
  (Tree.readEntries? Value.ofTree?
    (keyed ((unreserved slots properties).map fun entry => (entry.1, entry.2.kept)))).map
      OrderedMap.ofList

/-- The field of a reserved key is what stands in the slot, or else the property of that name. -/
theorem find_fields (distinct : (slots.map Prod.fst).Nodup) {t : Option Tree}
    (inside : (key, t) ∈ slots) : Entries.find key (fields slots properties) =
      t.or ((properties.get? key).map Value.kept) := by
  have reserved : key ∈ slots.map Prod.fst := List.mem_map_of_mem inside
  rw [fields, find_filter reserved, entries, find_append, find_filled distinct inside, find_told]

theorem keys_told (properties : PropertyMap) :
    (told properties).map Prod.fst = properties.keys := by
  rw [told, List.map_map]
  rfl

theorem distinct_fields_iff (distinct : (slots.map Prod.fst).Nodup) :
    ((fields slots properties).map Prod.fst).Nodup ↔ Apart slots properties := by
  have kept : (filled slots).filter (·.1 ∈ slots.map Prod.fst) = filled slots := by
    apply List.filter_eq_self.mpr
    intro entry inside
    simpa using (keys_filled_sublist slots).subset (List.mem_map_of_mem inside)
  have distinctToo : (((told properties).filter
      (·.1 ∈ slots.map Prod.fst)).map Prod.fst).Nodup := by
    apply List.Nodup.sublist (List.filter_sublist.map Prod.fst)
    rw [keys_told]
    exact properties.distinct
  rw [fields, entries, List.filter_append, kept, List.map_append, List.nodup_append]
  constructor
  · rintro ⟨_, _, apart⟩ ⟨key, t⟩ inside held isProperty
    obtain ⟨t, rfl⟩ := Option.ne_none_iff_exists'.mp held
    rw [← keys_told] at isProperty
    obtain ⟨entry, isTold, rfl⟩ := List.mem_map.mp isProperty
    have reserved : entry.1 ∈ slots.map Prod.fst := List.mem_map_of_mem inside
    have isField : entry ∈ (told properties).filter (·.1 ∈ slots.map Prod.fst) :=
      List.mem_filter.mpr ⟨isTold, decide_eq_true reserved⟩
    exact apart _ (List.mem_map_of_mem (mem_filled.mpr inside)) _ (List.mem_map_of_mem isField) rfl
  · intro apart
    refine ⟨distinct.sublist (keys_filled_sublist slots), distinctToo, ?_⟩
    rintro _ isFilled _ isTold rfl
    obtain ⟨⟨key, t⟩, inside, rfl⟩ := List.mem_map.mp isFilled
    have isProperty := (List.filter_sublist.map Prod.fst).subset isTold
    rw [keys_told] at isProperty
    exact apart _ (mem_filled.mp inside) (Option.some_ne_none t) isProperty

theorem filter_keyed (names : List String) (entries : List (String × Tree)) :
    ((keyed entries).filter fun entry => !(entry.1.asText?.any fun name => name ∈ names)) =
      keyed (entries.filter (·.1 ∉ names)) := by
  rw [keyed, List.filter_map, keyed]
  congr 2
  funext entry
  simp [Function.comp_apply, Tree.asText?]

theorem filter_entries (slots : Slots) (properties : PropertyMap) :
    (entries slots properties).filter (·.1 ∉ slots.map Prod.fst) =
      (unreserved slots properties).map fun entry => (entry.1, entry.2.kept) := by
  have dropped : (filled slots).filter (·.1 ∉ slots.map Prod.fst) = [] := by
    apply List.filter_eq_nil_iff.mpr
    intro entry inside
    simpa using (keys_filled_sublist slots).subset (List.mem_map_of_mem inside)
  rw [entries, List.filter_append, dropped, List.nil_append, told, List.filter_map]
  rfl

theorem exists_readEntries?_iff {α : Type} {read : Tree → Option α}
    {listed : List (String × Tree)} :
    (∃ found, Tree.readEntries? read (keyed listed) = some found) ↔
      ∀ entry ∈ listed, (read entry.2).isSome = true := by
  induction listed with
  | nil => exact iff_of_true ⟨[], rfl⟩ (List.forall_mem_nil _)
  | cons entry rest ih =>
      have step : Tree.readEntries? read (keyed (entry :: rest)) = (read entry.2).bind fun value =>
          (Tree.readEntries? read (keyed rest)).map fun later => (entry.1, value) :: later := by
        unfold Tree.readEntries? keyed
        rw [List.map_cons, List.mapM_cons]
        simp only [Tree.asText?, Option.bind_eq_bind, Option.bind_some, Option.pure_def,
          Option.bind_assoc, Option.map_eq_bind, Function.comp_def]
      rw [List.forall_mem_cons, ← ih, step, Option.isSome_iff_exists]
      constructor
      · rintro ⟨found, read⟩
        obtain ⟨value, readValue, readRest⟩ := Option.bind_eq_some_iff.mp read
        obtain ⟨later, readLater, _⟩ := Option.map_eq_some_iff.mp readRest
        exact ⟨⟨value, readValue⟩, later, readLater⟩
      · rintro ⟨⟨value, readValue⟩, later, readLater⟩
        exact ⟨_, by rw [readValue, readLater, Option.bind_some, Option.map_some]⟩

theorem readEntries?_of_exact {listed : List (String × Value)}
    (exact : ∀ entry ∈ listed, entry.2.Exact) :
    Tree.readEntries? Value.ofTree? (keyed (listed.map fun entry => (entry.1, entry.2.kept))) =
      some listed := by
  induction listed with
  | nil => rfl
  | cons entry rest ih =>
      obtain ⟨exactEntry, exactRest⟩ := List.forall_mem_cons.mp exact
      have read := ih exactRest
      unfold Tree.readEntries? keyed at read ⊢
      rw [List.map_cons, List.map_cons, List.mapM_cons, read]
      simp only [Tree.asText?, Value.kept_of_exact exactEntry, Value.ofTree?_toTree exactEntry,
        Option.bind_eq_bind, Option.bind_some, Option.pure_def]

theorem entriesDepth_keyed_le_iff {listed : List (String × Tree)} {limit : Nat} :
    Tree.entriesDepth (keyed listed) ≤ limit ↔ ∀ entry ∈ listed, entry.2.depth ≤ limit := by
  rw [Tree.entriesDepth_keyed]
  induction listed with
  | nil => exact iff_of_true (Nat.zero_le _) (List.forall_mem_nil _)
  | cons entry rest ih =>
      rw [List.forall_mem_cons, ← ih, List.map_cons, Tree.listDepth]
      exact Nat.max_le

/-- A map may stand at the top when all its values may stand below one map. -/
theorem fitsBelow_iff {listed : List (String × Tree)} :
    (Data.Tree.map (keyed listed)).fitsBelow .json 0 = true ↔
      ∀ entry ∈ listed, entry.2.depth < Data.Format.json.depthLimit := by
  have atTop : (Data.Tree.map (keyed listed)).fitsBelow .json 0 = true ↔
      0 + (Tree.entriesDepth (keyed listed) + 1) ≤ 127 := decide_eq_true_iff
  have below : Tree.entriesDepth (keyed listed) ≤ 126 ↔ _ := entriesDepth_keyed_le_iff
  rw [atTop, Data.Format.depthLimit]
  simp only [Nat.lt_succ_iff, ← below]
  omega

theorem exact_filled (proper : Proper slots) : ∀ entry ∈ filled slots, entry.2.Exact := by
  rintro ⟨key, t⟩ inside
  exact (proper.slight _ (mem_filled.mp inside) t rfl).1

/-- The text of a whole map says what the texts of its properties say. -/
theorem read?_print (proper : Proper slots) : Data.Json.read? (Data.Json.print
    (tree slots properties)) = some (.map (keyed (entries slots properties))) := by
  have inSlots : (filled slots).map (fun entry => (entry.1, Data.Json.kept entry.2)) =
      filled slots := by
    apply (List.map_congr_left _).trans (List.map_id _)
    rintro ⟨key, t⟩ inside
    exact congrArg (Prod.mk key) (Data.Json.kept_of_exact (exact_filled proper _ inside))
  rw [Data.Json.read?_print, tree, Data.Json.kept, Data.Json.keptEntries_keyed, List.map_append,
    inSlots, List.map_map, entries, told]
  rfl

theorem fits_iff (proper : Proper slots) :
    (Data.Tree.map (keyed (entries slots properties))).fitsBelow .json 0 = true ↔
      Shallow properties := by
  rw [fitsBelow_iff]
  constructor
  · intro fits entry isProperty
    rw [← entry.2.depth_kept]
    exact fits _ (List.mem_append_right _ (List.mem_map_of_mem isProperty))
  · rintro shallow ⟨key, t⟩ inside
    cases List.mem_append.mp inside with
    | inl isFilled =>
        have slight := (proper.slight _ (mem_filled.mp isFilled) t rfl).2
        exact Nat.lt_of_le_of_lt slight (by decide)
    | inr isTold =>
        obtain ⟨entry, isProperty, same⟩ := List.mem_map.mp isTold
        cases same
        exact entry.2.depth_kept ▸ shallow entry isProperty

/-- A whole map is read unless a property stands in the way of a slot or cannot be read. -/
theorem readFlat?_eq_some_iff (proper : Proper slots)
    {found : List (String × Tree) × PropertyMap} :
    readFlat? (slots.map Prod.fst) (.map (keyed (entries slots properties))) = some found ↔
      Apart slots properties ∧ found.1 = fields slots properties ∧
        others? slots properties = some found.2 := by
  have steps : readFlat? (slots.map Prod.fst) (.map (keyed (entries slots properties))) =
      (Tree.fieldsAmong? Tree.asText? (slots.map Prod.fst) (keyed (entries slots properties))).bind
        fun fields => (others? slots properties).map fun others => (fields, others) := by
    unfold readFlat? others?
    simp only [Tree.asMap?, Option.bind_eq_bind, Option.bind_some, filter_keyed, filter_entries,
      Option.pure_def, Option.map_eq_bind, Option.bind_assoc, Function.comp_def]
  rw [steps, Option.bind_eq_some_iff]
  constructor
  · rintro ⟨read, isRead, whole⟩
    obtain ⟨others, isOthers, rfl⟩ := Option.map_eq_some_iff.mp whole
    obtain ⟨rfl, distinctFields⟩ := fieldsAmong?_eq_some_iff.mp isRead
    exact ⟨(distinct_fields_iff proper.distinct).mp distinctFields, rfl, isOthers⟩
  · rintro ⟨apart, isRead, isOthers⟩
    have distinctFields := (distinct_fields_iff proper.distinct).mpr apart
    refine ⟨_, fieldsAmong?_eq_some_iff.mpr ⟨rfl, distinctFields⟩, ?_⟩
    rw [isOthers, Option.map_some]
    exact congrArg (fun fields => some (fields, found.2)) isRead.symm

/-- The properties can be read when each without reserved key can. -/
theorem exists_others?_iff : (∃ others, others? slots properties = some others) ↔
    ∀ entry ∈ properties.entries, entry.1 ∉ slots.map Prod.fst →
      (Value.ofTree? entry.2.kept).isSome = true := by
  have read : (∃ listed, Tree.readEntries? Value.ofTree? (keyed ((unreserved slots properties).map
      fun entry => (entry.1, entry.2.kept))) = some listed) ↔ _ := exists_readEntries?_iff
  rw [List.forall_mem_map] at read
  simp only [unreserved, List.mem_filter, decide_eq_true_eq, and_imp] at read
  rw [← read]
  unfold others?
  simp only [Option.map_eq_some_iff]
  constructor
  · rintro ⟨_, listed, isRead, _⟩
    exact ⟨listed, isRead⟩
  · rintro ⟨listed, isRead⟩
    exact ⟨_, listed, isRead, rfl⟩

/-! ## Properties without reserved keys -/

/-- No property has a reserved key. -/
def Unreserved (slots : Slots) (properties : PropertyMap) : Prop :=
  ∀ key ∈ properties.keys, key ∉ slots.map Prod.fst

theorem Unreserved.apart (h : Unreserved slots properties) : Apart slots properties := by
  intro slot inside _ isProperty
  exact h _ isProperty (List.mem_map_of_mem inside)

theorem Unreserved.get?_eq_none (h : Unreserved slots properties) {slot : String × Option Tree}
    (inside : slot ∈ slots) : properties.get? slot.1 = none := by
  rw [properties.get?_eq_none_iff, properties.contains_eq_false_iff]
  intro isProperty
  exact h _ isProperty (List.mem_map_of_mem inside)

theorem Unreserved.silent (h : Unreserved slots properties) : Silent slots properties := by
  intro slot inside _ value held
  rw [h.get?_eq_none inside] at held
  cases held

theorem Unreserved.others?_eq (h : Unreserved slots properties) (exact : Exact properties) :
    others? slots properties = some properties := by
  have all : unreserved slots properties = properties.entries := by
    apply List.filter_eq_self.mpr
    intro entry inside
    exact decide_eq_true (h _ (List.mem_map_of_mem inside))
  rw [others?, all, readEntries?_of_exact exact, Option.map_some, OrderedMap.ofList_entries]

/-! ## Reading one field -/

/-- Each field is what stands in its slot, or else the property of that name. -/
def Finds (listed : List (String × Tree)) (slots : Slots) (properties : PropertyMap) : Prop :=
  ∀ slot ∈ slots,
    Entries.find slot.1 listed = slot.2.or ((properties.get? slot.1).map Value.kept)

theorem finds_fields (proper : Proper slots) : Finds (fields slots properties) slots properties :=
  fun _ inside => find_fields proper.distinct inside

theorem resolved_fields (proper : Proper slots) :
    resolved (fields slots properties) = fields slots properties := by
  apply resolved_of_forall
  intro entry inside
  cases List.mem_append.mp (List.mem_filter.mp inside).1 with
  | inl isFilled => exact Tree.resolve_of_exact (exact_filled proper entry isFilled)
  | inr isTold =>
      obtain ⟨property, _, rfl⟩ := List.mem_map.mp isTold
      exact Data.Json.resolve_kept property.2.toTree

variable {α : Type} {read : Tree → Option α} {write : α → Tree} {own : Option α}
  {listed : List (String × Tree)} {given : Option Value}

/-- Only null says that there is nothing. -/
theorem asOptional?_kept_eq_none_iff {value : Value} :
    Tree.asOptional? read value.kept = some none ↔ value.jsonForm = .null := by
  rw [← Value.kept_eq_null_iff]
  cases held : value.kept with
  | plain text => exact absurd held (value.kept_ne_plain text)
  | _ => simp [Tree.asOptional?]

/-- A slot is read as what was written into it. In place of a slot that is not filled, a property
    of that name may say null. -/
theorem field?_eq_own_iff (reads : ∀ x ∈ own, Tree.asOptional? read (write x) = some (some x))
    (found : Entries.find key listed = (own.map write).or (given.map Value.kept)) :
    Tree.field? listed key none (Tree.asOptional? read) = some own ↔
      (own = none → ∀ value ∈ given, value.jsonForm = .null) := by
  unfold Tree.field?
  rw [found]
  cases own with
  | some x =>
      simp only [Option.map_some, Option.some_or, reads x rfl, reduceCtorEq, false_implies]
  | none =>
      cases given with
      | none => simp
      | some value => simpa using asOptional?_kept_eq_none_iff

end Flat

end SchemaGraph
