import SchemaGraph.Proofs.Collections.Listing
import SchemaGraph.Proofs.Data.Printing
import SchemaGraph.Value.Tree

/-! # Values and their trees

A value without reals, whose maps are in the order of their keys, can be read off its tree. Of any
other value, its text says as much as can be read.
-/

namespace SchemaGraph

open Data (Tree keyed)

/-- A value that holds no reals, and each of whose maps is sorted. -/
inductive Value.Exact : Value → Prop
  | null : Exact .null
  | boolean (value : Bool) : Exact (.boolean value)
  | integer (value : Int64) : Exact (.integer value)
  | text (value : String) : Exact (.text value)
  | array {items : List Value} (exact : ∀ item ∈ items, item.Exact) : Exact (.array items)
  | map {m : SortedMap String Value} (exact : ∀ entry ∈ m.entries, entry.2.Exact) :
      Exact (.map m.entries)

namespace Value

theorem itemTrees_eq (items : List Value) : itemTrees items = items.map toTree := by
  induction items with
  | nil => rfl
  | cons item rest ih => rw [itemTrees, ih, List.map_cons]

theorem entryTrees_eq (entries : List (String × Value)) :
    entryTrees entries = keyed (entries.map fun entry => (entry.1, entry.2.toTree)) := by
  induction entries with
  | nil => rfl
  | cons entry rest ih => rw [entryTrees, ih, keyed, keyed, List.map_cons, List.map_cons]

variable {v : Value}

theorem Exact.toTree (exact : v.Exact) : v.toTree.Exact := by
  induction exact with
  | null => exact .null
  | boolean value => exact .bool value
  | integer value => exact .integer value
  | text value => exact .text value
  | array _ ih =>
      rw [Value.toTree, itemTrees_eq]
      apply Tree.Exact.list
      exact List.forall_mem_map.mpr ih
  | map _ ih =>
      rw [Value.toTree, entryTrees_eq]
      apply Tree.Exact.map
      exact List.forall_mem_map.mpr ih

theorem itemsOfTyped?_itemTrees {items : List Value}
    (told : ∀ item ∈ items, ofTyped? item.toTree = some item) :
    itemsOfTyped? (itemTrees items) = some items := by
  induction items with
  | nil => rfl
  | cons item rest ih =>
      obtain ⟨toldItem, toldRest⟩ := List.forall_mem_cons.mp told
      rw [itemTrees, itemsOfTyped?, toldItem, ih toldRest]

theorem entriesOfTyped?_entryTrees {entries : List (String × Value)}
    (told : ∀ entry ∈ entries, ofTyped? entry.2.toTree = some entry.2) :
    entriesOfTyped? (entryTrees entries) = some entries := by
  induction entries with
  | nil => rfl
  | cons entry rest ih =>
      obtain ⟨toldEntry, toldRest⟩ := List.forall_mem_cons.mp told
      rw [entryTrees, entriesOfTyped?, toldEntry, ih toldRest]

theorem ofTyped?_toTree (exact : v.Exact) : ofTyped? v.toTree = some v := by
  induction exact with
  | null => rfl
  | boolean value => rfl
  | integer value => rfl
  | text value => rfl
  | array _ ih => rw [Value.toTree, ofTyped?, itemsOfTyped?_itemTrees ih, Option.map_some]
  | map _ ih =>
      rw [Value.toTree, ofTyped?, entriesOfTyped?_entryTrees ih, Option.map_some, ofEntries,
        SortedMap.ofList_entries]

end Value

namespace Data.Tree

theorem listReadable_of_forall {items : List Tree}
    (readable : ∀ item ∈ items, item.isReadable = true) : listReadable items = true := by
  induction items with
  | nil => rfl
  | cons item rest ih =>
      obtain ⟨readableItem, readableRest⟩ := List.forall_mem_cons.mp readable
      rw [listReadable, readableItem, ih readableRest, Bool.and_self]

theorem entriesReadable_keyed {entries : List (String × Tree)}
    (readable : ∀ entry ∈ entries, entry.2.isReadable = true) :
    entriesReadable (keyed entries) = true := by
  induction entries with
  | nil => rfl
  | cons entry rest ih =>
      obtain ⟨readableEntry, readableRest⟩ := List.forall_mem_cons.mp readable
      change (true && entry.2.isReadable && entriesReadable (keyed rest)) = true
      rw [readableEntry, ih readableRest, Bool.and_self, Bool.and_self]

theorem isReadable_of_exact {t : Tree} (exact : t.Exact) : t.isReadable = true := by
  induction exact with
  | null => rfl
  | bool value => rfl
  | integer value => rfl
  | text value => rfl
  | list _ ih => exact listReadable_of_forall ih
  | map _ ih => exact entriesReadable_keyed ih

theorem listDepth_congr {α : Type} {items : List α} {f g : α → Tree}
    (same : ∀ item ∈ items, (f item).depth = (g item).depth) :
    listDepth (items.map f) = listDepth (items.map g) := by
  induction items with
  | nil => rfl
  | cons item rest ih =>
      obtain ⟨sameItem, sameRest⟩ := List.forall_mem_cons.mp same
      rw [List.map_cons, List.map_cons, listDepth, listDepth, sameItem, ih sameRest]

theorem entriesDepth_keyed (entries : List (String × Tree)) :
    entriesDepth (keyed entries) = listDepth (entries.map Prod.snd) := by
  induction entries with
  | nil => rfl
  | cons entry rest ih =>
      have deepest : entriesDepth (keyed (entry :: rest)) =
          max (max 0 entry.2.depth) (entriesDepth (keyed rest)) := rfl
      rw [deepest, ih, Nat.zero_max, List.map_cons, listDepth]

end Data.Tree

theorem Value.ofTree?_toTree {v : Value} (exact : v.Exact) : ofTree? v.toTree = some v := by
  rw [ofTree?, Data.Tree.resolve_of_exact exact.toTree, ofTyped?_toTree exact]

/-! ## What the text says of a value -/

namespace Value

/-- What the text of a value is read as. -/
def kept (v : Value) : Tree := Data.Json.kept v.toTree

variable {v : Value}

theorem kept_of_exact (exact : v.Exact) : v.kept = v.toTree :=
  Data.Json.kept_of_exact exact.toTree

theorem kept_array (items : List Value) : (Value.array items).kept = .list (items.map kept) := by
  rw [kept, toTree, Data.Json.kept, Data.Json.keptItems_eq, itemTrees_eq, List.map_map]
  rfl

theorem kept_map (entries : List (String × Value)) :
    (Value.map entries).kept = .map (keyed (entries.map fun entry => (entry.1, entry.2.kept))) := by
  rw [kept, toTree, Data.Json.kept, entryTrees_eq, Data.Json.keptEntries_keyed, List.map_map]
  rfl

theorem depth_kept (v : Value) : v.kept.depth = v.toTree.depth := by
  induction v using rec_strong with
  | null => rfl
  | boolean value => rfl
  | integer value => rfl
  | real x => exact (Data.Json.scalar_realTree x).depth_eq
  | text value => rfl
  | array items ih =>
      rw [kept_array, toTree, itemTrees_eq, Tree.depth, Tree.depth, Tree.listDepth_congr ih]
  | map entries ih =>
      rw [kept_map, toTree, entryTrees_eq, Tree.depth, Tree.depth,
        Tree.entriesDepth_keyed, Tree.entriesDepth_keyed, List.map_map, List.map_map]
      congr 1
      exact Tree.listDepth_congr ih

theorem kept_real_ne (x : Float) {t : Tree} (other : ¬ Data.Json.Scalar t) :
    (Value.real x).kept ≠ t := fun same => other (same ▸ Data.Json.scalar_realTree x)

/-- No scalar that is read waits for its type. -/
theorem kept_ne_plain (v : Value) (text : String) : v.kept ≠ .plain text := by
  cases v with
  | real x => exact kept_real_ne x (by rintro (_ | ⟨⟨⟩⟩))
  | _ => rintro ⟨⟩

theorem kept_eq_text_iff {text : String} : v.kept = .text text ↔ v = .text text := by
  cases v with
  | real x => exact iff_of_false (kept_real_ne x (by rintro (_ | ⟨⟨⟩⟩))) (by rintro ⟨⟩)
  | text value => exact ⟨fun same => congrArg Value.text (Tree.text.inj same), congrArg kept⟩
  | _ => exact iff_of_false (by rintro ⟨⟩) (by rintro ⟨⟩)

theorem kept_eq_bool_iff {truth : Bool} : v.kept = .bool truth ↔ v = .boolean truth := by
  cases v with
  | real x => exact iff_of_false (kept_real_ne x (by rintro (_ | ⟨⟨⟩⟩))) (by rintro ⟨⟩)
  | boolean value => exact ⟨fun same => congrArg Value.boolean (Tree.bool.inj same), congrArg kept⟩
  | _ => exact iff_of_false (by rintro ⟨⟩) (by rintro ⟨⟩)

/-- Null is what is said of null, and of reals that are no finite number. -/
theorem kept_eq_null_iff : v.kept = .null ↔ v.jsonForm = .null := by
  cases v with
  | null => exact iff_of_true rfl rfl
  | real x =>
      rw [jsonForm]
      apply Data.Json.realTree_eq_null_iff.trans
      cases (Decimal.Double.ofFloat x).isFinite <;> simp
  | _ => exact iff_of_false (by rintro ⟨⟩) (by rintro ⟨⟩)

/-- A value is read off its text if it is nested no deeper than the reader goes. -/
theorem ofJson?_json (shallow : v.toTree.depth ≤ Data.Format.json.depthLimit) :
    ofJson? v.json = ofTree? v.kept := by
  have fits : v.kept.fitsBelow .json 0 = true := by
    unfold Tree.fitsBelow
    rw [v.depth_kept, Nat.zero_add]
    exact decide_eq_true shallow
  have read : Data.Json.read? v.json = some v.kept := Data.Json.read?_print v.toTree
  rw [ofJson?, read, Option.bind_eq_bind, Option.bind_some, if_pos fits]

theorem ofJson?_of_exact (exact : v.Exact)
    (shallow : v.toTree.depth ≤ Data.Format.json.depthLimit) : ofJson? v.json = some v := by
  rw [ofJson?_json shallow, kept_of_exact exact, ofTree?_toTree exact]

end Value

end SchemaGraph
