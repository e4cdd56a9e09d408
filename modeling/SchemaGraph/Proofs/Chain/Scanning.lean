import SchemaGraph.Chain.Basic
import SchemaGraph.Proofs.Outcome

/-! # What is scanned

There is one term more in a chain than there are marks, so a text without marks is no chain.
-/

namespace SchemaGraph.Chain

def isMarker (c : Char) : Bool := (Marker.ofChar? c).isSome

theorem length_run {text : List Char} {s : Scan} {passed : Nat} {tokens : Tokens}
    (scanned : s.run passed text = .ok tokens) :
    tokens.terms.length = s.terms.length + text.countP isMarker + 1 ∧
      tokens.markers.length = s.markers.length + text.countP isMarker := by
  induction text generalizing s passed with
  | nil =>
      rw [Scan.run] at scanned
      split at scanned
      · rename_i finished
        cases scanned
        obtain ⟨term, _, rfl⟩ := Option.map_eq_some_iff.mp finished
        simp
      · cases scanned
  | cons c rest ih =>
      rw [Scan.run] at scanned
      split at scanned
      · rename_i next stepped
        obtain ⟨terms, markers⟩ := ih scanned
        rw [terms, markers, List.countP_cons]
        rw [Scan.step?] at stepped
        split at stepped
        · rename_i marker isMark
          obtain ⟨term, _, rfl⟩ := Option.map_eq_some_iff.mp stepped
          simp only [isMarker, isMark, Option.isSome_some, if_true, List.length_cons]
          omega
        · rename_i noMark
          obtain ⟨stage, _, rfl⟩ := Option.map_eq_some_iff.mp stepped
          simp [isMarker, noMark]
      · cases scanned

theorem length_scan {text : List Char} {tokens : Tokens} (scanned : scan text = .ok tokens) :
    tokens.terms.length = text.countP isMarker + 1 ∧
      tokens.markers.length = text.countP isMarker := by
  simpa using length_run scanned

theorem isMarker_of_isBlank {c : Char} (blank : Text.isBlank c = true) : isMarker c = false := by
  rw [isMarker]
  fun_cases Marker.ofChar? c with
  | case1 => exact absurd blank (by decide)
  | case2 => exact absurd blank (by decide)
  | case3 => exact absurd blank (by decide)
  | case4 => rfl

theorem tokens_of_route {text : String} {route : Route} (h : Route.ofText text = .ok route) :
    ∃ tokens, scan text.toList = .ok tokens ∧ Route.ofTokens text tokens = .ok route := by
  rw [Route.ofText] at h
  split at h
  · cases h
  · rename_i tokens scanned
    exact ⟨tokens, scanned, h⟩

theorem three_terms {chain : String} {tokens : Tokens} {route : Route}
    (h : Route.ofTokens chain tokens = .ok route) : 3 ≤ tokens.terms.length := by
  rw [Route.ofTokens] at h
  split at h
  · cases h
  · rename_i enough
    simp only [Bool.or_eq_true, decide_eq_true_eq] at enough
    omega

/-- A route has a start and whole hops, so its text is not blank. -/
theorem not_blank_of_route {text : String} {route : Route} (h : Route.ofText text = .ok route) :
    Text.isBlankText text = false := by
  obtain ⟨tokens, scanned, ofTokens⟩ := tokens_of_route h
  rw [Bool.eq_false_iff]
  intro blank
  have noMarks : text.toList.countP isMarker = 0 := by
    rw [List.countP_eq_zero]
    intro c inside
    rw [isMarker_of_isBlank (List.all_eq_true.mp blank c inside)]
    exact Bool.false_ne_true
  have count := (length_scan scanned).1
  have enough := three_terms ofTokens
  omega

theorem hopsOf_ne_nil {chain : String} {markers : List Marker} {terms : List Term}
    {hops : List Hop} (h : hopsOf chain markers terms = .ok hops) (someMarkers : 2 ≤ markers.length)
    (someTerms : 2 ≤ terms.length) : hops ≠ [] := by
  match markers, terms, someMarkers, someTerms with
  | before :: behind :: markers, event :: far :: terms, _, _ =>
      rw [hopsOf] at h
      obtain ⟨direction, _, later⟩ := Outcome.bind_eq_ok_iff.mp h
      obtain ⟨others, _, whole⟩ := Outcome.bind_eq_ok_iff.mp later
      cases whole
      exact List.cons_ne_nil _ _

theorem hops_ne_nil {text : String} {route : Route} (h : Route.ofText text = .ok route) :
    route.hops ≠ [] := by
  obtain ⟨⟨terms, markers⟩, scanned, ofTokens⟩ := tokens_of_route h
  obtain ⟨countTerms, countMarkers⟩ := length_scan scanned
  have enough := three_terms ofTokens
  cases terms with
  | nil => simp at enough
  | cons start terms =>
      simp only [List.length_cons] at countTerms countMarkers enough
      rw [Route.ofTokens] at ofTokens
      split at ofTokens
      · cases ofTokens
      · simp only at ofTokens
        split at ofTokens
        · cases ofTokens
        · obtain ⟨hops, written, whole⟩ := Outcome.bind_eq_ok_iff.mp ofTokens
          cases whole
          exact hopsOf_ne_nil written (by omega) (by omega)

end SchemaGraph.Chain
