import Mathlib.Data.List.TakeWhile
import SchemaGraph.Proofs.Chain.Scanning

/-! # The grammar of chains

Which texts are terms with one mark between each two, told without a reader, and in which
way. The reader of chains accepts these texts, and a text is put together in one way only.
-/

namespace SchemaGraph.Chain

/-- The characters that have a meaning of their own. -/
def reserved : List Char := [':', '-', '>', '<', '*']

/-- A text that can be a name or a label. -/
def IsName (text : String) : Prop := text ≠ "" ∧ ∀ c ∈ text.toList, c ∉ reserved

instance (text : String) : Decidable (IsName text) :=
  decidable_of_iff (text ≠ "" ∧ text.toList.all (fun c => c ∉ reserved) = true) (by simp [IsName])

/-- A term as a text writes it: a name or the wildcard, behind a label and a colon or alone. -/
@[ext]
structure Spelling where
  label : Option String
  name : String
  labelled : ∀ text ∈ label, IsName text
  named : name = wildcard ∨ IsName name

namespace Spelling

def chars (w : Spelling) : List Char :=
  match w.label with
  | some label => label.toList ++ ':' :: w.name.toList
  | none => w.name.toList

/-- The term that is meant. -/
def term (w : Spelling) : Term := .written w.label w.name

end Spelling

/-- A text in its parts: a term, and further terms each behind a mark. -/
@[ext]
structure Sentence where
  first : Spelling
  rest : List (Marker × Spelling)

namespace Sentence

/-- The characters of marks and the terms behind them. -/
def restChars (rest : List (Marker × Spelling)) : List Char :=
  rest.flatMap fun part => part.1.char :: part.2.chars

def chars (s : Sentence) : List Char := s.first.chars ++ restChars s.rest

def tokens (s : Sentence) : Tokens :=
  ⟨s.first.term :: s.rest.map fun part => part.2.term, s.rest.map Prod.fst⟩

end Sentence

/-! ## One way to put a text together -/

theorem isMarker_char (marker : Marker) : isMarker marker.char = true := by
  cases marker <;> rfl

theorem Marker.ofChar?_char (marker : Marker) : ofChar? marker.char = some marker := by
  cases marker <;> rfl

theorem Marker.eq_of_ofChar? {c : Char} {marker : Marker} (found : ofChar? c = some marker) :
    marker.char = c := by
  revert found
  fun_cases ofChar? c with
  | case1 => rintro ⟨⟩; rfl
  | case2 => rintro ⟨⟩; rfl
  | case3 => rintro ⟨⟩; rfl
  | case4 => rintro ⟨⟩

/-- A character without a meaning of its own is no mark. -/
theorem ofChar?_of_plain {c : Char} (plain : c ∉ reserved) : Marker.ofChar? c = none := by
  cases found : Marker.ofChar? c with
  | none => rfl
  | some marker =>
      rw [← Marker.eq_of_ofChar? found] at plain
      cases marker <;> exact absurd plain (by decide)

/-- The characters of names are those that are read as nothing else. -/
theorem plain_iff {c : Char} :
    c ∉ reserved ↔ Marker.ofChar? c = none ∧ c ≠ ':' ∧ c ≠ '*' := by
  constructor
  · intro plain
    refine ⟨ofChar?_of_plain plain, ?_, ?_⟩ <;> rintro rfl <;> exact plain (by decide)
  · rintro ⟨noMark, noColon, noStar⟩ isReserved
    simp only [reserved, List.mem_cons, List.not_mem_nil, or_false] at isReserved
    rcases isReserved with isColon | rfl | rfl | rfl | isStar
    · exact noColon isColon
    · cases noMark
    · cases noMark
    · cases noMark
    · exact noStar isStar

theorem isMarker_of_plain {c : Char} (plain : c ∉ reserved) : isMarker c = false := by
  rw [isMarker, ofChar?_of_plain plain]
  rfl

/-- A text is cut in one way in front of the first character that fails a test. -/
theorem append_inj_of_test (test : Char → Bool) {front front' rest rest' : List Char}
    (passes : ∀ c ∈ front, test c = true) (passesToo : ∀ c ∈ front', test c = true)
    (stops : ∀ c ∈ rest.head?, test c = false) (stopsToo : ∀ c ∈ rest'.head?, test c = false)
    (same : front ++ rest = front' ++ rest') : front = front' ∧ rest = rest' := by
  have cut {front rest : List Char} (passes : ∀ c ∈ front, test c = true)
      (stops : ∀ c ∈ rest.head?, test c = false) : (front ++ rest).takeWhile test = front := by
    rw [List.takeWhile_append_of_pos passes]
    cases rest with
    | nil => exact List.append_nil front
    | cons c more => rw [List.takeWhile_cons, stops c rfl]; exact List.append_nil front
  have fronts : front = front' := by rw [← cut passes stops, same, cut passesToo stopsToo]
  subst fronts
  exact ⟨rfl, List.append_cancel_left same⟩

theorem IsName.toList_ne_nil {text : String} (h : IsName text) : text.toList ≠ [] := by
  simpa using h.1

theorem toList_wildcard : wildcard.toList = ['*'] := by decide

/-- A name or the wildcard has no character with another meaning of its own. -/
theorem star_or_plain {name : String} (named : name = wildcard ∨ IsName name) :
    ∀ c ∈ name.toList, c = '*' ∨ c ∉ reserved := by
  rcases named with rfl | isName
  · rw [toList_wildcard]
    exact List.forall_mem_singleton.mpr (Or.inl rfl)
  · exact fun c inside => Or.inr (isName.2 c inside)

theorem colon_not_mem_name {name : String} (named : name = wildcard ∨ IsName name) :
    ∀ c ∈ name.toList, c ≠ ':' := by
  rintro c inside rfl
  rcases star_or_plain named ':' inside with isStar | plain
  · exact absurd isStar (by decide)
  · exact plain (by decide)

namespace Spelling

variable {w v : Spelling}

theorem noMark_name (w : Spelling) : ∀ c ∈ w.name.toList, isMarker c = false := by
  intro c inside
  rcases star_or_plain w.named c inside with rfl | plain
  · rfl
  · exact isMarker_of_plain plain

/-- There is no mark inside of a term. -/
theorem noMark (w : Spelling) : ∀ c ∈ w.chars, isMarker c = false := by
  intro c inside
  rw [chars] at inside
  split at inside
  · rename_i label own
    rcases List.mem_append.mp inside with inLabel | behind
    · exact isMarker_of_plain ((w.labelled label own).2 c inLabel)
    · rcases List.mem_cons.mp behind with rfl | inName
      · rfl
      · exact w.noMark_name c inName
  · exact w.noMark_name c inside

/-- What stands in front of the first colon, and what the colon and the name behind it are. -/
def parts (w : Spelling) : List Char × List Char :=
  match w.label with
  | some label => (label.toList, ':' :: w.name.toList)
  | none => (w.name.toList, [])

theorem chars_eq (w : Spelling) : w.chars = w.parts.1 ++ w.parts.2 := by
  rw [chars, parts]
  split
  · rfl
  · exact (List.append_nil _).symm

theorem noColon_front (w : Spelling) : ∀ c ∈ w.parts.1, (c != ':') = true := by
  intro c inside
  rw [bne_iff_ne]
  rw [parts] at inside
  split at inside
  · rename_i label own
    exact colon_not_mem_name (Or.inr (w.labelled label own)) c inside
  · exact colon_not_mem_name w.named c inside

theorem colon_behind (w : Spelling) : ∀ c ∈ w.parts.2.head?, (c != ':') = false := by
  rw [parts]
  split <;> simp

theorem parts_injective (same : w.parts = v.parts) : w = v := by
  rw [parts, parts] at same
  cases own : w.label with
  | some label =>
      cases ownToo : v.label with
      | some label' =>
          simp only [own, ownToo, Prod.mk.injEq, List.cons.injEq, true_and, String.toList_inj]
            at same
          exact Spelling.ext (by rw [own, ownToo, same.1]) same.2
      | none => simp [own, ownToo] at same
  | none =>
      cases ownToo : v.label with
      | some label' => simp [own, ownToo] at same
      | none =>
          simp only [own, ownToo, Prod.mk.injEq, and_true, String.toList_inj] at same
          exact Spelling.ext (by rw [own, ownToo]) same

theorem chars_injective (same : w.chars = v.chars) : w = v := by
  rw [chars_eq, chars_eq] at same
  obtain ⟨fronts, backs⟩ := append_inj_of_test (· != ':') w.noColon_front v.noColon_front
    w.colon_behind v.colon_behind same
  exact parts_injective (Prod.ext fronts backs)

end Spelling

namespace Sentence

theorem marked_restChars (rest : List (Marker × Spelling)) :
    ∀ c ∈ (restChars rest).head?, isMarker c = true := by
  cases rest with
  | nil => simp [restChars]
  | cons part rest => simp [restChars, isMarker_char]

theorem spelling_append_inj {w v : Spelling} {rest rest' : List (Marker × Spelling)}
    (same : w.chars ++ restChars rest = v.chars ++ restChars rest') :
    w = v ∧ restChars rest = restChars rest' := by
  obtain ⟨terms, rests⟩ := append_inj_of_test (fun c => !isMarker c)
    (by simpa using w.noMark) (by simpa using v.noMark)
    (by simpa using marked_restChars rest) (by simpa using marked_restChars rest') same
  exact ⟨Spelling.chars_injective terms, rests⟩

theorem restChars_injective {rest rest' : List (Marker × Spelling)}
    (same : restChars rest = restChars rest') : rest = rest' := by
  induction rest generalizing rest' with
  | nil =>
      cases rest' with
      | nil => rfl
      | cons part rest' => simp [restChars] at same
  | cons part rest ih =>
      cases rest' with
      | nil => simp [restChars] at same
      | cons part' rest' =>
          obtain ⟨marks, later⟩ := List.cons.inj same
          have marker : part.1 = part'.1 := by
            rw [← Option.some_inj, ← Marker.ofChar?_char, marks, Marker.ofChar?_char]
          obtain ⟨terms, rests⟩ := spelling_append_inj later
          rw [ih rests, Prod.ext marker terms]

/-- A text is a sentence in one way at most. -/
theorem chars_injective {s t : Sentence} (same : s.chars = t.chars) : s = t := by
  obtain ⟨first, rest⟩ := spelling_append_inj same
  exact Sentence.ext first (restChars_injective rest)

end Sentence

end SchemaGraph.Chain
