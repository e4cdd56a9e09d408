import SchemaGraph.Data.Plain
import SchemaGraph.Proofs.Data.Numeral

/-! # Printed trees are read back

What a tree is read as can be told from the tree: a real is read as what its text says, and all
else as itself, except that a scalar without quotes gets some.
-/

namespace SchemaGraph.Data

/-- Induction over a tree and all that lies within it but the keys. -/
@[elab_as_elim]
theorem Tree.rec_strong {motive : Tree → Prop} (null : motive .null)
    (bool : ∀ value, motive (.bool value)) (integer : ∀ value, motive (.integer value))
    (real : ∀ value, motive (.real value)) (text : ∀ value, motive (.text value))
    (plain : ∀ value, motive (.plain value)) (unreadable : motive .unreadable)
    (list : ∀ items, (∀ item ∈ items, motive item) → motive (.list items))
    (map : ∀ entries, (∀ entry ∈ entries, motive entry.2) → motive (.map entries)) :
    ∀ t, motive t
  | .null => null
  | .bool value => bool value
  | .integer value => integer value
  | .real value => real value
  | .text value => text value
  | .plain value => plain value
  | .unreadable => unreadable
  | .list items => list items fun item _ =>
      rec_strong null bool integer real text plain unreadable list map item
  | .map entries => map entries fun entry _ =>
      rec_strong null bool integer real text plain unreadable list map entry.2
decreasing_by
  · rename_i inside
    have smaller := List.sizeOf_lt_of_mem inside
    rw [Tree.list.sizeOf_spec]
    omega
  · rename_i inside
    have smaller := List.sizeOf_lt_of_mem inside
    have part : sizeOf entry.2 < sizeOf entry := by
      rcases entry with ⟨key, value⟩
      simp
    rw [Tree.map.sizeOf_spec]
    omega

namespace Json

mutual
/-- What the text of a tree is read as. -/
def kept : Tree → Tree
  | .real value => realTree value
  | .plain value => .text value
  | .unreadable => .null
  | .list items => .list (keptItems items)
  | .map entries => .map (keptEntries entries)
  | t => t

def keptItems : List Tree → List Tree
  | [] => []
  | item :: rest => kept item :: keptItems rest

def keptEntries : List (Tree × Tree) → List (Tree × Tree)
  | [] => []
  | (key, value) :: rest => (.text (keyText key), kept value) :: keptEntries rest
end

theorem keptItems_eq (items : List Tree) : keptItems items = items.map kept := by
  induction items with
  | nil => rfl
  | cons item rest ih => rw [keptItems, ih, List.map_cons]

theorem keptEntries_eq (entries : List (Tree × Tree)) :
    keptEntries entries = entries.map fun entry => (.text (keyText entry.1), kept entry.2) := by
  induction entries with
  | nil => rfl
  | cons entry rest ih => rw [keptEntries, ih, List.map_cons]

variable {text rest : List Char}

/-! ## Values -/

theorem skipSpace_cons {c : Char} (visible : isSpace c = false) :
    skipSpace (c :: rest) = c :: rest :=
  List.dropWhile_cons_of_neg (by simp [visible])

theorem visible_of_ofNumber {c : Char} (ofNumber : Decimal.OfNumber c) : isSpace c = false := by
  unfold isSpace
  simp only [Bool.or_eq_false_iff, decide_eq_false_iff_not]
  refine ⟨⟨⟨?_, ?_⟩, ?_⟩, ?_⟩ <;> rintro rfl <;> exact absurd ofNumber (by decide)

/-- What numbers are written with begins nothing else. -/
theorem value?_number {fuel : Nat} {c : Char} (ofNumber : Decimal.OfNumber c) :
    value? (fuel + 1) (c :: rest) = number? (c :: rest) := by
  unfold value?
  rw [skipSpace_cons (visible_of_ofNumber ofNumber)]
  split
  case h_7 => rfl
  all_goals
    rename_i same
    cases same
    exact absurd ofNumber (by decide)

/-- A text that is read as a tree, whatever follows it that ends it. The length of the text bounds
    the depth of the reading. -/
def ReadAs (text : String) (t : Tree) : Prop := ∀ fuel rest, Value.Ended rest →
  text.toList.length ≤ fuel → value? fuel (text.toList ++ rest) = some (t, rest)

theorem readAs_number {text : String} {t : Tree} (numeral : Decimal.Numeral text)
    (read : ∀ rest, Value.Ended rest → number? (text.toList ++ rest) = some (t, rest)) :
    ReadAs text t := by
  intro fuel rest ended enough
  have readRest := read rest ended
  obtain ⟨c, more, front⟩ := List.exists_cons_of_ne_nil numeral.some
  have ofNumber : Decimal.OfNumber c := numeral.only c (front ▸ List.mem_cons_self)
  rw [front, List.cons_append] at readRest ⊢
  rw [front, List.length_cons] at enough
  obtain ⟨fuel, rfl⟩ := Nat.exists_eq_add_of_lt enough
  rw [← readRest]
  exact value?_number ofNumber

theorem readAs_quotation (text : String) : ReadAs (quotation text) (.text text) := by
  intro fuel rest _ enough
  rw [toList_quotation] at enough ⊢
  cases fuel with
  | zero => cases enough
  | succ fuel => exact string?_behindQuote text rest

theorem readAs_null : ReadAs "null" .null := by
  intro fuel rest _ enough
  cases fuel with
  | zero => cases enough
  | succ fuel => rfl

theorem readAs_bool (value : Bool) : ReadAs (if value then "true" else "false") (.bool value) := by
  intro fuel rest _ enough
  cases fuel with
  | zero => cases value <;> cases enough
  | succ fuel => cases value <;> rfl

theorem readAs_real (x : Float) : ReadAs (realLayout.write x) (realTree x) := by
  cases finite : (Decimal.Double.ofFloat x).isFinite with
  | true => exact readAs_number (realLayout.numeral_write finite) (number?_write finite).2
  | false =>
      rw [write_of_not_finite finite, realTree_of_not_finite finite]
      exact readAs_null

/-! ## Lists and maps -/

theorem ended_cons {mark : Char} (isMark : mark ∈ [',', ']', '\x7d']) :
    Value.Ended (mark :: rest) := by
  intro c first
  cases first
  exact isMark

theorem listed_cons_cons {α : Type} (text : α → List Char) (first second : α) (later : List α) :
    Value.listed text (first :: second :: later) =
      text first ++ ',' :: Value.listed text (second :: later) := rfl

theorem listed_singleton {α : Type} (text : α → List Char) (item : α) :
    Value.listed text [item] = text item := List.append_nil _

theorem items?_listed {items : List Tree} (read : ∀ item ∈ items, ReadAs (print item) (kept item))
    (some : items ≠ []) {fuel : Nat}
    (enough : (Value.listed (fun item => (print item).toList) items).length < fuel) :
    items? fuel (Value.listed (fun item => (print item).toList) items ++ ']' :: rest) =
      Option.some (items.map kept, rest) := by
  induction items generalizing fuel with
  | nil => exact absurd rfl some
  | cons item later ih =>
      obtain ⟨readItem, readLater⟩ := List.forall_mem_cons.mp read
      cases fuel with
      | zero => cases enough
      | succ fuel =>
          unfold items?
          cases later with
          | nil =>
              rw [listed_singleton] at enough ⊢
              rw [readItem fuel _ (ended_cons (by decide)) (Nat.le_of_lt_succ enough)]
              rfl
          | cons next later =>
              rw [listed_cons_cons, List.length_append, List.length_cons] at enough
              rw [listed_cons_cons, List.append_assoc, List.cons_append,
                readItem fuel _ (ended_cons (by decide)) (by omega)]
              change (items? fuel _ >>= _) = _
              rw [ih readLater (List.cons_ne_nil _ _) (by omega)]
              rfl

/-- The text of an entry of a map. -/
def entryText (entry : Tree × Tree) : List Char :=
  '"' :: (behindQuote (keyText entry.1).toList ++ ':' :: (print entry.2).toList)

theorem entries?_listed {entries : List (Tree × Tree)}
    (read : ∀ entry ∈ entries, ReadAs (print entry.2) (kept entry.2))
    (some : entries ≠ []) {fuel : Nat}
    (enough : (Value.listed entryText entries).length < fuel) :
    entries? fuel (Value.listed entryText entries ++ '\x7d' :: rest) = Option.some
      (entries.map fun entry => (.text (keyText entry.1), kept entry.2), rest) := by
  induction entries generalizing fuel with
  | nil => exact absurd rfl some
  | cons entry later ih =>
      obtain ⟨readEntry, readLater⟩ := List.forall_mem_cons.mp read
      have split (text : List Char) : entryText entry ++ text = '"' ::
          (behindQuote (keyText entry.1).toList ++ ':' :: ((print entry.2).toList ++ text)) := by
        simp only [entryText, List.cons_append, List.append_assoc]
      have size : (print entry.2).toList.length < (entryText entry).length := by
        simp only [entryText, List.length_cons, List.length_append]
        omega
      cases fuel with
      | zero => cases enough
      | succ fuel =>
          unfold entries?
          cases later with
          | nil =>
              rw [listed_singleton] at enough ⊢
              rw [split]
              change (string? _ >>= _) = _
              rw [string?_behindQuote]
              change (value? fuel _ >>= _) = _
              rw [readEntry fuel _ (ended_cons (by decide)) (by omega)]
              rfl
          | cons next later =>
              rw [listed_cons_cons, List.length_append, List.length_cons] at enough
              rw [listed_cons_cons, List.append_assoc, List.cons_append, split]
              change (string? _ >>= _) = _
              rw [string?_behindQuote]
              change (value? fuel _ >>= _) = _
              rw [readEntry fuel _ (ended_cons (by decide)) (by omega)]
              change (entries? fuel _ >>= _) = _
              rw [ih readLater (List.cons_ne_nil _ _) (by omega)]
              rfl

/-- The text begins with a character that no blank is and that closes no list. -/
def Opens (text : List Char) : Prop :=
  ∃ c more, text = c :: more ∧ isSpace c = false ∧ c ≠ ']'

theorem Opens.append (opens : Opens text) (rest : List Char) : Opens (text ++ rest) := by
  obtain ⟨c, more, rfl, visible, another⟩ := opens
  exact ⟨c, more ++ rest, rfl, visible, another⟩

theorem value?_bracket {fuel : Nat} (opens : Opens text) :
    value? (fuel + 1) ('[' :: text) =
      (items? fuel text).map fun found => (.list found.1, found.2) := by
  obtain ⟨c, more, rfl, visible, another⟩ := opens
  unfold value?
  rw [skipSpace_cons rfl]
  split
  case h_5 =>
    rename_i same
    cases same
    rw [skipSpace_cons visible]
    split
    · rename_i same
      cases same
      exact absurd rfl another
    · cases items? fuel (c :: more) <;> rfl
  case h_7 =>
    rename_i noBracket _
    exact absurd rfl (noBracket (c :: more))
  all_goals
    rename_i same
    cases same

theorem value?_brace (fuel : Nat) (text : List Char) :
    value? (fuel + 1) ('\x7b' :: '"' :: text) =
      (entries? fuel ('"' :: text)).map fun found => (.map found.1, found.2) := by
  change (entries? fuel ('"' :: text) >>= _) = _
  cases entries? fuel ('"' :: text) <;> rfl

theorem toList_print_list (items : List Tree) : (print (.list items)).toList =
    '[' :: (Value.listed (fun item => (print item).toList) items ++ [']']) := by
  have texts : printItems items = items.map print := by
    induction items with
    | nil => rfl
    | cons item later ih => rw [printItems, ih, List.map_cons]
  rw [print, texts, String.toList_append, String.toList_append, Value.toList_intercalate]
  rfl

theorem toList_print_map (entries : List (Tree × Tree)) : (print (.map entries)).toList =
    '\x7b' :: (Value.listed entryText entries ++ ['\x7d']) := by
  have texts : printEntries entries =
      entries.map fun entry => quotation (keyText entry.1) ++ ":" ++ print entry.2 := by
    induction entries with
    | nil => rfl
    | cons entry later ih => rw [printEntries, ih, List.map_cons]
  have written (entry : Tree × Tree) :
      (quotation (keyText entry.1) ++ ":" ++ print entry.2).toList = entryText entry := by
    have colon : ":".toList = [':'] := rfl
    simp only [String.toList_append, toList_quotation, colon, entryText, List.cons_append,
      List.append_assoc, List.nil_append]
  rw [print, texts, String.toList_append, String.toList_append, Value.toList_intercalate]
  simp only [written]
  rfl

theorem opens_of_numeral {text : String} (numeral : Decimal.Numeral text) : Opens text.toList := by
  obtain ⟨c, more, front⟩ := List.exists_cons_of_ne_nil numeral.some
  have ofNumber : Decimal.OfNumber c := numeral.only c (front ▸ List.mem_cons_self)
  refine ⟨c, more, front, visible_of_ofNumber ofNumber, ?_⟩
  rintro rfl
  exact absurd ofNumber (by decide)

theorem opens_print (t : Tree) : Opens (print t).toList := by
  cases t with
  | null => exact ⟨_, _, rfl, by decide, by decide⟩
  | bool value => cases value <;> exact ⟨_, _, rfl, by decide, by decide⟩
  | integer n => exact opens_of_numeral (Decimal.numeral_integer n.toInt)
  | real x =>
      change Opens (realLayout.write x).toList
      cases finite : (Decimal.Double.ofFloat x).isFinite with
      | true => exact opens_of_numeral (realLayout.numeral_write finite)
      | false =>
          rw [write_of_not_finite finite]
          exact ⟨_, _, rfl, by decide, by decide⟩
  | text value => exact ⟨_, _, toList_quotation value, by decide, by decide⟩
  | plain value => exact ⟨_, _, toList_quotation value, by decide, by decide⟩
  | unreadable => exact ⟨_, _, rfl, by decide, by decide⟩
  | list => exact ⟨_, _, toList_print_list _, by decide, by decide⟩
  | map => exact ⟨_, _, toList_print_map _, by decide, by decide⟩

theorem readAs_list {items : List Tree} (read : ∀ item ∈ items, ReadAs (print item) (kept item)) :
    ReadAs (print (.list items)) (.list (items.map kept)) := by
  intro fuel rest _ enough
  rw [toList_print_list, List.length_cons, List.length_append, List.length_singleton] at enough
  rw [toList_print_list, List.cons_append, List.append_assoc, List.singleton_append]
  cases fuel with
  | zero => cases enough
  | succ fuel =>
      cases items with
      | nil => rfl
      | cons item later =>
          have opens : Opens
              (Value.listed (fun item => (print item).toList) (item :: later) ++ ']' :: rest) := by
            rw [Value.listed, List.append_assoc]
            exact (opens_print item).append _
          rw [value?_bracket opens, items?_listed read (List.cons_ne_nil _ _) (by omega)]
          rfl

theorem readAs_map {entries : List (Tree × Tree)}
    (read : ∀ entry ∈ entries, ReadAs (print entry.2) (kept entry.2)) :
    ReadAs (print (.map entries))
      (.map (entries.map fun entry => (.text (keyText entry.1), kept entry.2))) := by
  intro fuel rest _ enough
  rw [toList_print_map, List.length_cons, List.length_append, List.length_singleton] at enough
  rw [toList_print_map, List.cons_append, List.append_assoc, List.singleton_append]
  cases fuel with
  | zero => cases enough
  | succ fuel =>
      cases entries with
      | nil => rfl
      | cons entry later =>
          have opens : ∃ more,
              Value.listed entryText (entry :: later) ++ '\x7d' :: rest = '"' :: more := ⟨_, rfl⟩
          obtain ⟨more, front⟩ := opens
          rw [front, value?_brace, ← front,
            entries?_listed read (List.cons_ne_nil _ _) (by omega)]
          rfl

theorem readAs_print (t : Tree) : ReadAs (print t) (kept t) := by
  induction t using Tree.rec_strong with
  | null => exact readAs_null
  | bool value => exact readAs_bool value
  | integer n => exact readAs_number (Decimal.numeral_integer n.toInt) fun _ => number?_integer n
  | real x => exact readAs_real x
  | text value => exact readAs_quotation value
  | plain value => exact readAs_quotation value
  | unreadable => exact readAs_null
  | list items ih =>
      rw [kept, keptItems_eq]
      exact readAs_list ih
  | map entries ih =>
      rw [kept, keptEntries_eq]
      exact readAs_map ih

/-- Every tree has a text that can be read. -/
theorem read?_print (t : Tree) : read? (print t) = some (kept t) := by
  have ended : Value.Ended [] := by
    intro c first
    cases first
  have read := readAs_print t (2 * (print t).toList.length + 2) [] ended (by omega)
  rw [List.append_nil] at read
  unfold read?
  dsimp only
  rw [read]
  rfl

end Json

/-! ## What the text says -/

namespace Tree

theorem resolveList_eq (items : List Tree) : resolveList items = items.map resolve := by
  induction items with
  | nil => rfl
  | cons item rest ih => rw [resolveList, ih, List.map_cons]

theorem resolveEntries_eq (entries : List (Tree × Tree)) : resolveEntries entries =
    entries.map fun entry => (entry.1.resolve, entry.2.resolve) := by
  induction entries with
  | nil => rfl
  | cons entry rest ih => rw [resolveEntries, ih, List.map_cons]

end Tree

theorem Json.Scalar.resolve_eq {t : Tree} (h : Scalar t) : t.resolve = t := by
  cases h with
  | null => rfl
  | number isNumber => cases isNumber <;> rfl

theorem Json.Scalar.depth_eq {t : Tree} (h : Scalar t) : t.depth = 0 := by
  cases h with
  | null => rfl
  | number isNumber => cases isNumber <;> rfl

/-- What is read of a text has no scalars that wait for a type. -/
theorem Json.resolve_kept (t : Tree) : (kept t).resolve = kept t := by
  induction t using Tree.rec_strong with
  | null => rfl
  | bool value => rfl
  | integer value => rfl
  | real x =>
      rw [kept]
      exact (scalar_realTree x).resolve_eq
  | text value => rfl
  | plain value => rfl
  | unreadable => rfl
  | list items ih =>
      rw [kept, keptItems_eq, Tree.resolve, Tree.resolveList_eq, List.map_map]
      congr 1
      exact List.map_congr_left ih
  | map entries ih =>
      rw [kept, keptEntries_eq, Tree.resolve, Tree.resolveEntries_eq, List.map_map]
      congr 1
      apply List.map_congr_left
      intro entry inside
      exact congrArg (Prod.mk _) (ih entry inside)

/-- Entries whose keys are texts. -/
def keyed (entries : List (String × Tree)) : List (Tree × Tree) :=
  entries.map fun entry => (.text entry.1, entry.2)

theorem Json.keptEntries_keyed (entries : List (String × Tree)) : keptEntries (keyed entries) =
    keyed (entries.map fun entry => (entry.1, kept entry.2)) := by
  rw [keptEntries_eq, keyed, keyed, List.map_map, List.map_map]
  rfl

/-- A tree of which the text says everything. -/
inductive Tree.Exact : Tree → Prop
  | null : Exact .null
  | bool (value : Bool) : Exact (.bool value)
  | integer (value : Int64) : Exact (.integer value)
  | text (value : String) : Exact (.text value)
  | list {items : List Tree} (exact : ∀ item ∈ items, item.Exact) : Exact (.list items)
  | map {entries : List (String × Tree)} (exact : ∀ entry ∈ entries, entry.2.Exact) :
      Exact (.map (keyed entries))

theorem Json.kept_of_exact {t : Tree} (exact : t.Exact) : kept t = t := by
  induction exact with
  | null => rfl
  | bool value => rfl
  | integer value => rfl
  | text value => rfl
  | list _ ih => rw [kept, keptItems_eq, List.map_congr_left ih, List.map_id']
  | @map entries _ ih =>
      have same : (entries.map fun entry => (entry.1, kept entry.2)) = entries := by
        apply (List.map_congr_left _).trans (List.map_id _)
        intro entry inside
        rw [ih entry inside, id]
      rw [kept, keptEntries_keyed, same]

/-- No scalar of an exact tree waits for its type. -/
theorem Tree.resolve_of_exact {t : Tree} (exact : t.Exact) : t.resolve = t := by
  rw [← Json.kept_of_exact exact, Json.resolve_kept]

end SchemaGraph.Data
