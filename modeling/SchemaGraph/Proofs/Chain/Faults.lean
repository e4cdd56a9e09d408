import Mathlib.Data.List.Induction
import Mathlib.Order.Bounds.Basic
import SchemaGraph.Proofs.Chain.Attempts
import SchemaGraph.Proofs.Chain.Writing

/-! # Where a text is at fault

A text that the grammar does not accept still begins like some that are accepted. Its fault is
reported where the longest such beginning ends, and that is the furthest place at which a rule
is attempted in vain.
-/

namespace SchemaGraph

namespace Text.Position

theorem ofOffset_eq (text : List Char) (offset : Nat) : ofOffset text offset =
    ⟨(text.take offset).count '\n' + 1,
      ((text.take offset).reverse.takeWhile (· ≠ '\n')).length + 1⟩ := by
  rw [ofOffset]
  generalize text.take offset = front
  induction front using List.reverseRecOn with
  | nil => rfl
  | append_singleton front c ih =>
      rw [List.foldl_append, ih, List.foldl_cons, List.foldl_nil, after, List.count_append,
        List.reverse_append]
      by_cases ends : c = '\n'
      · simp [ends]
      · simp [ends]

end Text.Position

namespace Chain

/-- The grammar matches the text. -/
def Accepts (text : List Char) : Prop := (Pattern.chain.attempt text).rest?.isSome = true

/-- Some text that the grammar matches begins with these characters. -/
def Begins (front : List Char) : Prop := ∃ back, Accepts (front ++ back)

/-- The longest beginning of an accepted text that there is in a text ends at a place. -/
structure EndsBeginning (text : List Char) (place : Nat) : Prop where
  within : place ≤ text.length
  begins_iff {count : Nat} : count ≤ text.length → (Begins (text.take count) ↔ count ≤ place)

/-- The places of a text at which a rule is attempted in vain, counted in characters. -/
def failedPlaces (text : List Char) : Set Nat :=
  {place | ∃ rest ∈ (Pattern.chain.attempt text).failed, place + rest.length = text.length}

/-! ## Accepted texts -/

namespace Scan

variable {s last : Scan} {front back : List Char}

theorem run_append (passed : s.behind? front = some last) (count : Nat) :
    s.run count (front ++ back) = last.run (count + front.length) back := by
  induction front generalizing s count with
  | nil =>
      cases passed
      rfl
  | cons c rest ih =>
      obtain ⟨next, stepped, later⟩ := Option.bind_eq_some_iff.mp ((behind?_cons s c rest) ▸ passed)
      rw [List.cons_append, run, stepped]
      simp only
      rw [ih later, List.length_cons, Nat.add_right_comm, Nat.add_assoc]

theorem Stuck.run_eq {text : List Char} (h : s.Stuck text) (count : Nat) :
    s.run count text = .error count := by
  cases text with
  | nil =>
      rw [Stuck] at h
      rw [run, h]
  | cons c rest =>
      rw [Stuck] at h
      rw [run, h]

theorem scan_of_stuck (passed : behind? {} front = some last) (isStuck : last.Stuck back) :
    scan (front ++ back) = .error front.length := by
  rw [scan, run_append passed, isStuck.run_eq, Nat.zero_add]

end Scan

theorem accepts_iff_scan {text : List Char} : Accepts text ↔ ∃ tokens, scan text = .ok tokens := by
  rw [Accepts]
  cases Scan.chain_follows text with
  | ends passed finished found =>
      rw [found]
      exact iff_of_true rfl ⟨_, Scan.run_eq_ok_iff.mpr ⟨_, passed, finished⟩⟩
  | stuck front rest cut passed isStuck nothing furthest =>
      rw [nothing, cut, Scan.scan_of_stuck passed isStuck]
      simp

theorem accepts_iff {text : List Char} : Accepts text ↔ ∃ s : Sentence, s.chars = text := by
  rw [accepts_iff_scan]
  constructor
  · rintro ⟨tokens, scanned⟩
    obtain ⟨s, written, _⟩ := scan_eq_ok_iff.mp scanned
    exact ⟨s, written⟩
  · rintro ⟨s, written⟩
    exact ⟨s.tokens, scan_eq_ok_iff.mpr ⟨s, written, rfl⟩⟩

theorem accepts_of_term {text : List Char} {last : Scan} {term : Term}
    (passed : Scan.behind? {} text = some last) (ends : last.stage.term? = some term) :
    Accepts text := by
  have finished : last.finish? = some ⟨(term :: last.terms).reverse, last.markers.reverse⟩ := by
    rw [Scan.finish?, ends, Option.map_some]
  exact accepts_iff_scan.mpr ⟨_, Scan.run_eq_ok_iff.mpr ⟨last, passed, finished⟩⟩

/-! ## Beginnings of accepted texts -/

theorem Begins.of_append {front back : List Char} (h : Begins (front ++ back)) : Begins front := by
  obtain ⟨more, accepted⟩ := h
  exact ⟨back ++ more, by rwa [← List.append_assoc]⟩

theorem Stage.exists_letter {stage : Stage} (unfinished : stage.term? = none) :
    ∃ next term, stage.letter? 'a' = some next ∧ next.term? = some term := by
  cases stage with
  | opening => exact ⟨_, _, rfl, rfl⟩
  | labelled label => exact ⟨_, _, rfl, rfl⟩
  | name chars => cases unfinished
  | labelledName label chars => cases unfinished
  | closed term => cases unfinished

/-- The reader goes through the beginnings of accepted texts and no others. -/
theorem begins_iff {front : List Char} :
    Begins front ↔ ∃ last, Scan.behind? {} front = some last := by
  constructor
  · rintro ⟨back, accepted⟩
    obtain ⟨tokens, scanned⟩ := accepts_iff_scan.mp accepted
    obtain ⟨last, passed, _⟩ := Scan.run_eq_ok_iff.mp scanned
    rw [Scan.behind?_append] at passed
    obtain ⟨middle, passed, _⟩ := Option.bind_eq_some_iff.mp passed
    exact ⟨middle, passed⟩
  · rintro ⟨last, passed⟩
    cases ended : last.stage.term? with
    | some term =>
        refine ⟨[], accepts_of_term ?_ ended⟩
        rw [List.append_nil, passed]
    | none =>
        -- one more letter and the term can end
        obtain ⟨next, term, stepped, ends⟩ := Stage.exists_letter ended
        have read : Scan.behind? {} (front ++ ['a']) = some { last with stage := next } := by
          rw [Scan.behind?_append, passed, Option.bind_some, Scan.behind?_cons,
            Scan.step?_letter (by decide) stepped]
          rfl
        exact ⟨['a'], accepts_of_term read ends⟩

theorem begins_take_iff {front back : List Char} {last : Scan}
    (passed : Scan.behind? {} front = some last) (isStuck : last.Stuck back) {count : Nat}
    (within : count ≤ (front ++ back).length) :
    Begins ((front ++ back).take count) ↔ count ≤ front.length := by
  constructor
  · intro begun
    by_contra beyond
    rw [not_le] at beyond
    cases back with
    | nil =>
        rw [List.append_nil] at within
        exact absurd within (not_le.mpr beyond)
    | cons c rest =>
        -- a longer beginning would take the reader past the character at which it is stuck
        obtain ⟨more, hasMore⟩ : ∃ more, count = front.length + (more + 1) :=
          ⟨count - front.length - 1, by omega⟩
        rw [hasMore, List.take_length_add_append, List.take_succ_cons, List.append_cons] at begun
        obtain ⟨far, passedFar⟩ := begins_iff.mp begun.of_append
        rw [Scan.Stuck] at isStuck
        rw [Scan.behind?_append, passed, Option.bind_some, Scan.behind?_cons, isStuck] at passedFar
        cases passedFar
  · intro early
    have whole : Begins (front.take count ++ front.drop count) := by
      rw [List.take_append_drop]
      exact begins_iff.mpr ⟨last, passed⟩
    rw [List.take_append_of_le_length early]
    exact whole.of_append

/-! ## The reported place -/

/-- The reader gets stuck where the longest beginning ends and the furthest rule is attempted in
    vain. -/
theorem exists_fault {text : List Char} (rejected : ¬ Accepts text) :
    ∃ place, scan text = .error place ∧ EndsBeginning text place ∧
      IsGreatest (failedPlaces text) place := by
  cases Scan.chain_follows text with
  | ends passed finished found =>
      refine absurd ?_ rejected
      rw [Accepts, found]
      rfl
  | stuck front back cut passed isStuck nothing furthest =>
      refine ⟨front.length, ?_, ⟨?_, fun within => ?_⟩, ⟨back, furthest.made, ?_⟩, ?_⟩
      · rw [cut, Scan.scan_of_stuck passed isStuck]
      · rw [cut, List.length_append]
        exact Nat.le_add_right _ _
      · rw [cut] at within ⊢
        exact begins_take_iff passed isStuck within
      · rw [cut, List.length_append]
      · rintro place ⟨rest, failed, counted⟩
        have later := furthest.within rest failed
        have whole : text.length = front.length + back.length := by
          rw [cut, List.length_append]
        omega

theorem plain_of_isBlank {c : Char} (blank : Text.isBlank c = true) : c ∉ reserved := by
  have noMark : (Marker.ofChar? c).isSome = false := isMarker_of_isBlank blank
  refine plain_iff.mpr ⟨Option.not_isSome_iff_eq_none.mp (Bool.eq_false_iff.mp noMark), ?_, ?_⟩
  · rintro rfl
    exact absurd blank (by decide)
  · rintro rfl
    exact absurd blank (by decide)

theorem accepts_of_blank {text : String} (blank : Text.isBlankText text = true)
    (nonempty : text ≠ "") : Accepts text.toList := by
  have isName : IsName text :=
    ⟨nonempty, fun c inside => plain_of_isBlank (List.all_eq_true.mp blank c inside)⟩
  refine accepts_iff.mpr ⟨⟨⟨none, text, by simp, Or.inr isName⟩, []⟩, ?_⟩
  simp [Sentence.chars, Sentence.restChars, Spelling.chars]

/-- A text that the grammar does not accept is at fault where its longest beginning of an accepted
    text ends. No rule is attempted in vain further on, and this place is reported by its line and
    column. The empty text alone has no chain without being at fault. -/
theorem malformed_at_furthest {text : String} (rejected : ¬ Accepts text.toList) :
    ∃ place, EndsBeginning text.toList place ∧ IsGreatest (failedPlaces text.toList) place ∧
      scan text.toList = .error place ∧
      let front := text.toList.take place
      let fault := ChainError.malformed
        ⟨front.count '\n' + 1, (front.reverse.takeWhile (· ≠ '\n')).length + 1⟩
      Route.ofText text = .error fault ∧
        (text ≠ "" → ∀ c, Chain.ofText? c text = .error fault) := by
  obtain ⟨place, scanned, ends, greatest⟩ := exists_fault rejected
  refine ⟨place, ends, greatest, scanned, ?_⟩
  intro front fault
  have reported : Route.ofText text = .error fault := by
    rw [Route.ofText, scanned]
    simp only [Text.Position.ofOffset_eq]
    rfl
  refine ⟨reported, fun nonempty c => ?_⟩
  have notBlank : Text.isBlankText text = false :=
    Bool.eq_false_iff.mpr fun blank => rejected (accepts_of_blank blank nonempty)
  rw [ofText?_eq notBlank, reported]
  rfl

/-- A star behind a name on the second line: its place ends a beginning, and the star does not
    go on from there. -/
theorem star_on_second_line :
    Route.ofText "Car-\nowner*" = .error (.malformed ⟨2, 6⟩) ∧
      Begins "Car-\nowner".toList ∧ ¬ Begins "Car-\nowner*".toList := by
  have scanned : scan "Car-\nowner*".toList = .error 10 := by decide
  have rejected : ¬ Accepts "Car-\nowner*".toList := by
    rw [accepts_iff_scan, scanned]
    simp
  obtain ⟨place, ends, _, isPlace, reported, _⟩ := malformed_at_furthest rejected
  obtain rfl : 10 = place := Except.error.inj (scanned.symm.trans isPlace)
  refine ⟨reported, ?_, ?_⟩
  · have upToStar : 10 ≤ "Car-\nowner*".toList.length := by decide
    exact (ends.begins_iff upToStar).mpr le_rfl
  · have whole : 11 ≤ "Car-\nowner*".toList.length := by decide
    exact fun begun => absurd ((ends.begins_iff whole).mp begun) (by decide)

end Chain

end SchemaGraph
