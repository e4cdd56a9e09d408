import SchemaGraph.Proofs.Data.Quotation
import SchemaGraph.Proofs.Decimal.Layout
import SchemaGraph.Value.Text

/-! # JSON texts tell values apart

A value can be read off its JSON text, except that `null` also stands for reals that are no
finite number. In an array or a map, its text does not depend on what stands behind it.
-/

namespace SchemaGraph.Value

open Decimal (Double Layout Numeral OfNumber)

variable {α β : Type}

/-- Induction over a value and all that lies within it. -/
@[elab_as_elim]
theorem rec_strong {motive : Value → Prop} (null : motive .null)
    (boolean : ∀ value, motive (.boolean value)) (integer : ∀ value, motive (.integer value))
    (real : ∀ value, motive (.real value)) (text : ∀ value, motive (.text value))
    (array : ∀ items, (∀ item ∈ items, motive item) → motive (.array items))
    (map : ∀ entries, (∀ entry ∈ entries, motive entry.2) → motive (.map entries)) :
    ∀ value, motive value
  | .null => null
  | .boolean value => boolean value
  | .integer value => integer value
  | .real value => real value
  | .text value => text value
  | .array items => array items fun item _ =>
      rec_strong null boolean integer real text array map item
  | .map entries => map entries fun entry _ =>
      rec_strong null boolean integer real text array map entry.2
decreasing_by
  · rename_i inside
    have smaller := List.sizeOf_lt_of_mem inside
    rw [Value.array.sizeOf_spec]
    omega
  · rename_i inside
    have smaller := List.sizeOf_lt_of_mem inside
    have part : sizeOf entry.2 < sizeOf entry := by
      rcases entry with ⟨key, value⟩
      simp
    rw [Value.map.sizeOf_spec]
    omega

/-! ## What the text keeps -/

mutual
/-- The value with null in the place of reals that are no finite number. -/
def jsonForm : Value → Value
  | .real value => if (Double.ofFloat value).isFinite then .real value else .null
  | .array items => .array (itemForms items)
  | .map entries => .map (entryForms entries)
  | value => value

def itemForms : List Value → List Value
  | [] => []
  | item :: rest => item.jsonForm :: itemForms rest

def entryForms : List (String × Value) → List (String × Value)
  | [] => []
  | (key, value) :: rest => (key, value.jsonForm) :: entryForms rest
end

theorem itemForms_eq (items : List Value) : itemForms items = items.map jsonForm := by
  induction items with
  | nil => rfl
  | cons item rest ih => rw [itemForms, ih, List.map_cons]

theorem entryForms_eq (entries : List (String × Value)) :
    entryForms entries = entries.map fun entry => (entry.1, entry.2.jsonForm) := by
  induction entries with
  | nil => rfl
  | cons entry rest ih => rw [entryForms, ih, List.map_cons]

@[simp] theorem jsonForm_array (items : List Value) :
    (Value.array items).jsonForm = .array (items.map jsonForm) := by
  rw [jsonForm, itemForms_eq]

@[simp] theorem jsonForm_map (entries : List (String × Value)) :
    (Value.map entries).jsonForm =
      .map (entries.map fun entry => (entry.1, entry.2.jsonForm)) := by
  rw [jsonForm, entryForms_eq]

/-! ## The texts of arrays and maps -/

theorem json_array (items : List Value) :
    (Value.array items).json = "[" ++ String.intercalate "," (items.map json) ++ "]" := by
  have texts : Data.Json.printItems (itemTrees items) = items.map json := by
    induction items with
    | nil => rfl
    | cons item rest ih => rw [itemTrees, Data.Json.printItems, ih, List.map_cons, json]
  rw [json, toTree, Data.Json.print, texts]

/-- The text of an entry of a map. -/
def entryJson (entry : String × Value) : String :=
  Data.Json.quotation entry.1 ++ ":" ++ entry.2.json

theorem json_map (entries : List (String × Value)) :
    (Value.map entries).json =
      "\x7b" ++ String.intercalate "," (entries.map entryJson) ++ "\x7d" := by
  have texts : Data.Json.printEntries (entryTrees entries) = entries.map entryJson := by
    induction entries with
    | nil => rfl
    | cons entry rest ih =>
        rw [entryTrees, Data.Json.printEntries, ih, List.map_cons, entryJson, json,
          Data.Json.keyText]
  rw [json, toTree, Data.Json.print, texts]

/-- A real that is no number is written as null is. -/
theorem json_jsonForm (v : Value) : v.jsonForm.json = v.json := by
  induction v using rec_strong with
  | null => rfl
  | boolean => rfl
  | integer => rfl
  | text => rfl
  | real x =>
      have written : (Value.real x).json = Data.Json.realLayout.write x := rfl
      rw [jsonForm, written, Layout.write_eq]
      cases number : Double.ofFloat x with
      | nan => rfl
      | infinite negative => cases negative <;> rfl
      | finite negative significand exponent =>
          rw [Double.isFinite, if_pos rfl, written, Layout.write_eq, number]
  | array items ih =>
      rw [jsonForm_array, json_array, json_array, List.map_map]
      have texts : items.map (json ∘ jsonForm) = items.map json := List.map_congr_left ih
      rw [texts]
  | map entries ih =>
      rw [jsonForm_map, json_map, json_map, List.map_map]
      have texts : entries.map (entryJson ∘ fun entry => (entry.1, entry.2.jsonForm)) =
          entries.map entryJson := List.map_congr_left fun entry inside => by
        rw [Function.comp_apply, entryJson, ih entry inside, entryJson]
      rw [texts]

/-! ## Words and numbers -/

/-- A value that is written as a word. -/
inductive Word : Value → Prop where
  | null : Word .null
  | boolean (value : Bool) : Word (.boolean value)

/-- A value that is written as a number. -/
inductive Number : Value → Prop where
  | integer (value : Int64) : Number (.integer value)
  | real {value : Float} (finite : (Double.ofFloat value).isFinite = true) : Number (.real value)

variable {v w : Value}

theorem Word.not_numeral (h : Word v) : ¬ Numeral v.json := by
  cases h with
  | null => decide
  | boolean value => cases value <;> decide

theorem Word.json_ne_empty (h : Word v) : v.json.toList ≠ [] := by
  cases h with
  | null => decide
  | boolean value => cases value <;> decide

theorem Word.json_injective (h : Word v) (h' : Word w) (same : v.json = w.json) : v = w := by
  rcases h with _ | ⟨_ | _⟩ <;> rcases h' with _ | ⟨_ | _⟩ <;>
    first | rfl | exact absurd same (by decide)

theorem Number.numeral (h : Number v) : Numeral v.json := by
  cases h with
  | integer value => exact Decimal.numeral_integer value.toInt
  | real finite => exact Layout.numeral_write Data.Json.realLayout finite

theorem Number.json_injective (h : Number v) (h' : Number w) (same : v.json = w.json) :
    v = w := by
  cases h with
  | integer m =>
      cases h' with
      | integer n =>
          have sameNumber := Decimal.toString_integer_injective (m := m.toInt) (n := n.toInt) same
          rw [Int64.toInt_inj.mp sameNumber]
      | real finite => exact absurd same (Layout.toString_integer_ne_write rfl finite m.toInt)
  | real finite =>
      cases h' with
      | integer n => exact absurd same.symm (Layout.toString_integer_ne_write rfl finite n.toInt)
      | real finiteToo => rw [Layout.write_injective finite finiteToo same]

theorem Word.json_ne_number (h : Word v) (h' : Number w) : v.json ≠ w.json := by
  intro same
  exact h.not_numeral (same ▸ h'.numeral)

/-- A value that is written without marks. -/
def Bare (v : Value) : Prop := Word v ∨ Number v

theorem Bare.json_injective (h : Bare v) (h' : Bare w) (same : v.json = w.json) : v = w := by
  rcases h with word | number <;> rcases h' with wordToo | numberToo
  · exact word.json_injective wordToo same
  · exact absurd same (word.json_ne_number numberToo)
  · exact absurd same.symm (wordToo.json_ne_number number)
  · exact number.json_injective numberToo same

theorem Bare.json_ne_nil (h : Bare v) : v.json.toList ≠ [] := by
  rcases h with word | number
  · exact word.json_ne_empty
  · exact number.numeral.some

/-! ## Where a text ends -/

/-- The marks around and between values. -/
def marks : List Char := ['"', '[', '\x7b', ',', ']', '\x7d']

/-- A text in which no mark stands. -/
def Unmarked (text : List Char) : Prop := ∀ c ∈ text, c ∉ marks

instance : DecidablePred Unmarked := fun text => List.decidableBAll _ text

/-- There is nothing, or what may follow a value within an array or a map. -/
def Ended (rest : List Char) : Prop := ∀ c ∈ rest.head?, c ∈ [',', ']', '\x7d']

/-- Whatever follows it, the text of `a` tells what `form` keeps of `a`, and where it ends. -/
def Told (text : α → List Char) (form : α → β) (a : α) : Prop :=
  ∀ b rest rest', Ended rest → Ended rest' → text a ++ rest = text b ++ rest' →
    form a = form b ∧ rest = rest'

theorem not_ofNumber_of_mark {c : Char} (isMark : c ∈ marks) : ¬ OfNumber c := by
  simp only [marks, List.mem_cons, List.not_mem_nil, or_false] at isMark
  rcases isMark with rfl | rfl | rfl | rfl | rfl | rfl <;> decide

theorem unmarked_of_numeral {text : String} (numeral : Numeral text) : Unmarked text.toList :=
  fun c inside isMark => not_ofNumber_of_mark isMark (numeral.only c inside)

theorem Bare.unmarked (h : Bare v) : Unmarked v.json.toList := by
  rcases h with word | number
  · cases word with
    | null => decide
    | boolean value => cases value <;> decide
  · exact unmarked_of_numeral number.numeral

/-- What ends a value ends it at the same place in both texts. -/
theorem append_inj_of_unmarked {front front' rest rest' : List Char}
    (unmarked : Unmarked front) (unmarkedToo : Unmarked front')
    (ended : Ended rest) (endedToo : Ended rest') (same : front ++ rest = front' ++ rest') :
    front = front' ∧ rest = rest' := by
  have marked {c : Char} (ends : c ∈ [',', ']', '\x7d']) : c ∈ marks :=
    List.mem_of_mem_drop (i := 3) ends
  induction front generalizing front' with
  | nil =>
      cases front' with
      | nil => exact ⟨rfl, same⟩
      | cons c more =>
          subst same
          exact absurd (marked (ended c rfl)) (unmarkedToo c List.mem_cons_self)
  | cons c more ih =>
      cases front' with
      | nil =>
          subst same
          exact absurd (marked (endedToo c rfl)) (unmarked c List.mem_cons_self)
      | cons c' more' =>
          obtain ⟨rfl, sameLater⟩ := List.cons.inj same
          obtain ⟨rfl, rfl⟩ := ih (fun c inside => unmarked c (List.mem_cons_of_mem _ inside))
            (fun c inside => unmarkedToo c (List.mem_cons_of_mem _ inside)) sameLater
          exact ⟨rfl, rfl⟩

/-! ## Arrays and maps -/

/-- Texts with commas between them. -/
def listed (text : α → List Char) : List α → List Char
  | [] => []
  | item :: later => text item ++ later.flatMap fun item => ',' :: text item

theorem toList_intercalate (text : α → String) (items : List α) :
    (String.intercalate "," (items.map text)).toList =
      listed (fun item => (text item).toList) items := by
  cases items with
  | nil => rfl
  | cons item later =>
      rw [listed]
      induction later generalizing item with
      | nil => simp
      | cons next later ih =>
          have comma : ",".toList = [','] := rfl
          rw [List.map_cons, List.map_cons, String.intercalate_cons_cons, ← List.map_cons,
            String.toList_append, String.toList_append, ih, comma]
          simp

theorem toList_json_array (items : List Value) : (Value.array items).json.toList =
    '[' :: (listed (fun item => item.json.toList) items ++ [']']) := by
  rw [json_array, String.toList_append, String.toList_append, toList_intercalate]
  rfl

theorem toList_json_map (entries : List (String × Value)) : (Value.map entries).json.toList =
    '\x7b' :: (listed (fun entry => (entryJson entry).toList) entries ++ ['\x7d']) := by
  rw [json_map, String.toList_append, String.toList_append, toList_intercalate]
  rfl

variable {text : α → List Char} {form : α → β} {items : List α} {close : Char}

/-- Behind the first item, a comma or the closing mark ends each text that an item has. -/
theorem told_later (told : ∀ item ∈ items, Told text form item)
    (closes : close ∈ [']', '\x7d']) {items' : List α} {rest rest' : List Char}
    (same : items.flatMap (fun item => ',' :: text item) ++ close :: rest =
      items'.flatMap (fun item => ',' :: text item) ++ close :: rest') :
    items.map form = items'.map form ∧ rest = rest' := by
  have noComma : close ≠ ',' := by
    rintro rfl
    exact absurd closes (by decide)
  have ended (later : List α) (rest : List Char) :
      Ended (later.flatMap (fun item => ',' :: text item) ++ close :: rest) := by
    cases later with
    | nil =>
        intro c isFirst
        cases isFirst
        exact List.mem_cons_of_mem _ closes
    | cons next later =>
        intro c isFirst
        cases isFirst
        exact List.mem_cons_self
  induction items generalizing items' with
  | nil =>
      cases items' with
      | nil => simpa using same
      | cons item' later' => exact absurd (List.cons.inj same).1 noComma
  | cons item later ih =>
      cases items' with
      | nil => exact absurd (List.cons.inj same).1.symm noComma
      | cons item' later' =>
          simp only [List.flatMap_cons, List.cons_append, List.append_assoc, List.cons.injEq,
            true_and] at same
          obtain ⟨sameForm, sameLater⟩ := told item List.mem_cons_self item' _ _
            (ended later rest) (ended later' rest') same
          obtain ⟨sameForms, rfl⟩ :=
            ih (fun item inside => told item (List.mem_cons_of_mem _ inside)) sameLater
          exact ⟨by rw [List.map_cons, List.map_cons, sameForm, sameForms], rfl⟩

theorem told_listed (told : ∀ item ∈ items, Told text form item)
    (closes : close ∈ [']', '\x7d']) (opens : ∀ item, ∃ c ∈ (text item).head?, c ≠ close)
    {items' : List α} {rest rest' : List Char}
    (same : listed text items ++ close :: rest = listed text items' ++ close :: rest') :
    items.map form = items'.map form ∧ rest = rest' := by
  have opensLater (item : α) (later : List α) (rest rest' : List Char) :
      close :: rest' ≠ listed text (item :: later) ++ close :: rest := by
    intro same
    obtain ⟨c, isFirst, different⟩ := opens item
    obtain ⟨more, begins⟩ := List.head?_eq_some_iff.mp isFirst
    rw [listed, begins] at same
    exact different (List.cons.inj same).1.symm
  cases items with
  | nil =>
      cases items' with
      | nil => simpa [listed] using same
      | cons item' later' => exact absurd same (opensLater item' later' rest' rest)
  | cons item later =>
      cases items' with
      | nil => exact absurd same.symm (opensLater item later rest rest')
      | cons item' later' => exact told_later told closes (congrArg (',' :: ·) same)

/-- The mark that the text of a value begins with. -/
def mark? : Value → Option Char
  | .text _ => some '"'
  | .array _ => some '['
  | .map _ => some '\x7b'
  | _ => none

theorem bare_jsonForm (unmarked : v.mark? = none) : Bare v.jsonForm := by
  cases v with
  | null => exact Or.inl .null
  | boolean value => exact Or.inl (.boolean value)
  | integer value => exact Or.inr (.integer value)
  | real x =>
      rw [jsonForm]
      split
      · rename_i finite
        exact Or.inr (.real finite)
      · exact Or.inl .null
  | text => cases unmarked
  | array => cases unmarked
  | map => cases unmarked

/-- The first character is the mark, if it is a mark at all. -/
theorem opening (v : Value) : ∃ c ∈ v.json.toList.head?, v.mark? =
    if c ∈ marks then some c else none := by
  cases isMark : v.mark? with
  | none =>
      have bare := bare_jsonForm isMark
      obtain ⟨c, more, begins⟩ := List.exists_cons_of_ne_nil bare.json_ne_nil
      have unmarked := bare.unmarked c (begins ▸ List.mem_cons_self)
      rw [json_jsonForm] at begins
      exact ⟨c, by simp [begins], (if_neg unmarked).symm⟩
  | some mark =>
      cases v with
      | text value =>
          cases isMark
          refine ⟨'"', ?_, rfl⟩
          rw [show (Value.text value).json.toList = _ from Data.Json.toList_quotation value]
          rfl
      | array items =>
          cases isMark
          exact ⟨'[', by simp [toList_json_array], rfl⟩
      | map entries =>
          cases isMark
          exact ⟨'\x7b', by simp [toList_json_map], rfl⟩
      | null => cases isMark
      | boolean => cases isMark
      | integer => cases isMark
      | real => cases isMark

/-- Values that begin one text begin with the same mark. -/
theorem mark?_eq_of_append {rest rest' : List Char}
    (same : v.json.toList ++ rest = w.json.toList ++ rest') : v.mark? = w.mark? := by
  obtain ⟨c, isFirst, marked⟩ := v.opening
  obtain ⟨c', isFirst', marked'⟩ := w.opening
  obtain ⟨more, begins⟩ := List.head?_eq_some_iff.mp isFirst
  obtain ⟨more', begins'⟩ := List.head?_eq_some_iff.mp isFirst'
  rw [begins, begins'] at same
  rw [marked, marked', (List.cons.inj same).1]

/-! ## Reading a value off its text -/

theorem told_of_unmarked (unmarked : v.mark? = none) :
    Told (fun v => v.json.toList) jsonForm v := by
  intro w rest rest' ended endedToo same
  have bare := bare_jsonForm unmarked
  have bareToo := bare_jsonForm ((mark?_eq_of_append same).symm.trans unmarked)
  simp only [← json_jsonForm v, ← json_jsonForm w] at same
  obtain ⟨sameText, rfl⟩ :=
    append_inj_of_unmarked bare.unmarked bareToo.unmarked ended endedToo same
  exact ⟨bare.json_injective bareToo (String.toList_inj.mp sameText), rfl⟩

theorem told_entry {entry : String × Value}
    (told : Told (fun v => v.json.toList) jsonForm entry.2) :
    Told (fun entry => (entryJson entry).toList) (fun entry => (entry.1, entry.2.jsonForm))
      entry := by
  intro other rest rest' ended endedToo same
  simp only [entryJson, String.toList_append, List.append_assoc] at same
  obtain ⟨sameKey, sameValue⟩ := Data.Json.quotation_append_inj same
  obtain ⟨sameForm, rfl⟩ := told other.2 rest rest' ended endedToo
    (List.append_cancel_left sameValue)
  exact ⟨Prod.ext sameKey sameForm, rfl⟩

/-- The text of a value within another one tells the value. -/
theorem told_json (v : Value) : Told (fun v => v.json.toList) jsonForm v := by
  -- a text that begins with another mark is that of another kind of value
  induction v using rec_strong with
  | null => exact told_of_unmarked rfl
  | boolean => exact told_of_unmarked rfl
  | integer => exact told_of_unmarked rfl
  | real => exact told_of_unmarked rfl
  | text value =>
      intro w rest rest' _ _ same
      cases w with
      | text value' =>
          obtain ⟨rfl, rfl⟩ := Data.Json.quotation_append_inj same
          exact ⟨rfl, rfl⟩
      | _ => cases mark?_eq_of_append same
  | array items ih =>
      intro w rest rest' _ _ same
      cases w with
      | array items' =>
          have opens (item : Value) : ∃ c ∈ item.json.toList.head?, c ≠ ']' := by
            obtain ⟨c, isFirst, isMark⟩ := item.opening
            refine ⟨c, isFirst, ?_⟩
            rintro rfl
            cases item <;> cases isMark
          simp only [toList_json_array, List.cons_append, List.cons.injEq, true_and,
            List.append_assoc] at same
          obtain ⟨sameForms, rfl⟩ := told_listed ih (by decide) opens same
          exact ⟨by rw [jsonForm_array, jsonForm_array, sameForms], rfl⟩
      | _ => cases mark?_eq_of_append same
  | map entries ih =>
      intro w rest rest' _ _ same
      cases w with
      | map entries' =>
          have opens (entry : String × Value) :
              ∃ c ∈ (entryJson entry).toList.head?, c ≠ '\x7d' := by
            refine ⟨'"', ?_, by decide⟩
            rw [entryJson, String.append_assoc, String.toList_append,
              Data.Json.toList_quotation]
            rfl
          simp only [toList_json_map, List.cons_append, List.cons.injEq, true_and,
            List.append_assoc] at same
          obtain ⟨sameForms, rfl⟩ :=
            told_listed (fun entry inside => told_entry (ih entry inside)) (by decide) opens same
          exact ⟨by rw [jsonForm_map, jsonForm_map, sameForms], rfl⟩
      | _ => cases mark?_eq_of_append same

/-- Values have one JSON text exactly when they are the same but for reals that are no finite
    number, of which the text says only `null`. -/
theorem json_eq_json_iff : v.json = w.json ↔ v.jsonForm = w.jsonForm := by
  constructor
  · intro same
    have ended : Ended [] := by simp [Ended]
    exact (told_json v w [] [] ended ended (congrArg (fun text => text.toList ++ []) same)).1
  · intro sameForm
    rw [← json_jsonForm v, sameForm, json_jsonForm]

end SchemaGraph.Value
