import SchemaGraph.Data.Json.Reader

/-! # Written strings read back

A JSON string reads back as the text it was written for. So its end is told by the string alone,
whatever stands behind it.
-/

namespace SchemaGraph.Data.Json

/-- A text that stands for one character inside of a string: the character itself, an escape of
    one letter, or an escaped unit. -/
inductive Spells : List Char → Char → Prop where
  | plain {c : Char} (notQuote : c ≠ '"') (notEscape : c ≠ '\\') (shown : ¬ c.toNat < 0x20) :
      Spells [c] c
  | letter {e c : Char} (notUnit : e ≠ 'u') (escapes : escaped? e = some c) : Spells ['\\', e] c
  | unit {x y z w c : Char} (digits : Decimal.natural? 16 [x, y, z, w] = some c.toNat)
      (control : c.toNat < 0x20) : Spells ['\\', 'u', x, y, z, w] c

/-- A text that is an escape of a character, told by its second character or by the last four. -/
def IsEscape (c : Char) (text : List Char) : Prop :=
  let placed (place : Nat) := text.getD place '0'
  (text = ['\\', placed 1] ∧ placed 1 ≠ 'u' ∧ escaped? (placed 1) = some c) ∨
    text = ['\\', 'u', placed 2, placed 3, placed 4, placed 5] ∧
      Decimal.natural? 16 [placed 2, placed 3, placed 4, placed 5] = some c.toNat

instance (c : Char) (text : List Char) : Decidable (IsEscape c text) :=
  inferInstanceAs (Decidable (_ ∨ _))

theorem IsEscape.spells {c : Char} {text : List Char} (h : IsEscape c text)
    (control : c.toNat < 0x20) : Spells text c := by
  rcases h with ⟨whole, notUnit, letter⟩ | ⟨whole, digits⟩
  · rw [whole]
    exact .letter notUnit letter
  · rw [whole]
    exact .unit digits control

theorem isEscape_writtenChar {c : Char} (control : c.toNat < 0x20) :
    IsEscape c (writtenChar c).toList := by
  have all : ∀ n < 0x20, IsEscape (Char.ofNat n) (writtenChar (Char.ofNat n)).toList := by
    decide +kernel
  have ofCode := all c.toNat control
  rwa [Char.ofNat_toNat] at ofCode

theorem writtenChar_of_shown {c : Char} (notQuote : c ≠ '"') (notEscape : c ≠ '\\')
    (shown : ¬ c.toNat < 0x20) : (writtenChar c).toList = [c] := by
  have noControl {control : Char} (isControl : control.toNat < 0x20) : c ≠ control := by
    rintro rfl
    exact shown isControl
  rw [writtenChar]
  · rw [if_neg (by omega), if_neg shown, Char.toString, String.toList_singleton]
  · exact notQuote
  · exact notEscape
  all_goals exact noControl (by decide)

theorem spells_writtenChar (c : Char) : Spells (writtenChar c).toList c := by
  by_cases control : c.toNat < 0x20
  · exact (isEscape_writtenChar control).spells control
  · by_cases quote : c = '"'
    · subst quote
      exact Spells.letter (e := '"') (by decide) rfl
    · by_cases escape : c = '\\'
      · subst escape
        exact Spells.letter (e := '\\') (by decide) rfl
      · rw [writtenChar_of_shown quote escape control]
        exact .plain quote escape control

/-! ## Reading -/

theorem pieces?_plain {c : Char} (notQuote : c ≠ '"') (notEscape : c ≠ '\\')
    (shown : ¬ c.toNat < 0x20) (rest : List Char) :
    pieces? (c :: rest) = (pieces? rest).map fun read => (.char c :: read.1, read.2) := by
  rw [pieces?]
  · rw [if_neg shown]
    cases pieces? rest <;> rfl
  all_goals simp [notQuote, notEscape]

theorem pieces?_letter {e c : Char} (notUnit : e ≠ 'u') (escapes : escaped? e = some c)
    (rest : List Char) :
    pieces? ('\\' :: e :: rest) = (pieces? rest).map fun read => (.char c :: read.1, read.2) := by
  rw [pieces?]
  · rw [escapes]
    cases pieces? rest <;> rfl
  · simp [notUnit]

theorem pieces?_unit {x y z w : Char} {n : Nat}
    (digits : Decimal.natural? 16 [x, y, z, w] = some n) (rest : List Char) :
    pieces? ('\\' :: 'u' :: x :: y :: z :: w :: rest) =
      (pieces? rest).map fun read => (.unit n :: read.1, read.2) := by
  rw [pieces?, digits]
  cases pieces? rest <;> rfl

theorem denoted?_unit {n : Nat} (control : n < 0x20) (pieces : List Piece) :
    denoted? (.unit n :: pieces) = (denoted? pieces).map (Char.ofNat n :: ·) := by
  have notHigh : isHighSurrogate n = false := by
    simp only [isHighSurrogate, Bool.and_eq_false_iff, decide_eq_false_iff_not]
    omega
  have notLow : isLowSurrogate n = false := by
    simp only [isLowSurrogate, Bool.and_eq_false_iff, decide_eq_false_iff_not]
    omega
  rcases pieces with _ | ⟨_ | low, pieces⟩
  all_goals simp [denoted?, notHigh, notLow]

/-- What spells a character is read as one piece, which denotes the character. -/
theorem Spells.read {text : List Char} {c : Char} (h : Spells text c) :
    ∃ piece : Piece, (∀ rest, pieces? (text ++ rest) =
        (pieces? rest).map fun read => (piece :: read.1, read.2)) ∧
      ∀ pieces, denoted? (piece :: pieces) = (denoted? pieces).map (c :: ·) := by
  cases h with
  | plain notQuote notEscape shown =>
      exact ⟨.char c, pieces?_plain notQuote notEscape shown, fun _ => rfl⟩
  | letter notUnit escapes =>
      exact ⟨.char c, pieces?_letter notUnit escapes, fun _ => rfl⟩
  | unit digits control =>
      refine ⟨.unit c.toNat, pieces?_unit digits, fun pieces => ?_⟩
      rw [denoted?_unit control, Char.ofNat_toNat]

/-- What stands behind the opening quote of a written string. -/
def behindQuote (text : List Char) : List Char :=
  text.flatMap (fun c => (writtenChar c).toList) ++ ['"']

theorem toList_quotation (text : String) :
    (quotation text).toList = '"' :: behindQuote text.toList := by
  have quote : "\"".toList = ['"'] := rfl
  rw [quotation, String.toList_append, String.toList_append, String.toList_join, quote,
    List.flatMap_map]
  rfl

theorem pieces?_behindQuote (text rest : List Char) : ∃ pieces,
    pieces? (behindQuote text ++ rest) = some (pieces, rest) ∧ denoted? pieces = some text := by
  induction text with
  | nil => exact ⟨[], rfl, rfl⟩
  | cons c text ih =>
      obtain ⟨pieces, read, denotes⟩ := ih
      obtain ⟨piece, reads, denotesFirst⟩ := (spells_writtenChar c).read
      refine ⟨piece :: pieces, ?_, ?_⟩
      · have split : behindQuote (c :: text) ++ rest =
            (writtenChar c).toList ++ (behindQuote text ++ rest) := by simp [behindQuote]
        rw [split, reads, read, Option.map_some]
      · rw [denotesFirst, denotes, Option.map_some]

/-- A written string reads back as its text. -/
theorem string?_behindQuote (text : String) (rest : List Char) :
    string? (behindQuote text.toList ++ rest) = some (.text text, rest) := by
  obtain ⟨pieces, read, denotes⟩ := pieces?_behindQuote text.toList rest
  simp [string?, read, denotes]

/-- Written strings that begin one text are the same. -/
theorem quotation_append_inj {text text' : String} {rest rest' : List Char}
    (same : (quotation text).toList ++ rest = (quotation text').toList ++ rest') :
    text = text' ∧ rest = rest' := by
  rw [toList_quotation, toList_quotation, List.cons_append, List.cons_append] at same
  have read := string?_behindQuote text rest
  rw [List.tail_eq_of_cons_eq same, string?_behindQuote] at read
  simp only [Option.some_inj, Prod.mk.injEq, Tree.text.injEq] at read
  exact ⟨read.1.symm, read.2.symm⟩

end SchemaGraph.Data.Json
