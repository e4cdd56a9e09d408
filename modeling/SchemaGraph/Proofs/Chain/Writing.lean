import SchemaGraph.Proofs.Chain.Reading

/-! # Chains as written

What a text comes to, by the parts that the grammar finds in it: which fault is reported
when there are several, and the route that is looked up when there is none. A route whose
terms can be spelled is read back from its written form.
-/

namespace SchemaGraph.Chain

/-! ## Hops of a sentence -/

/-- A hop as a text writes it: an event between two marks, and the far term. -/
structure WrittenHop where
  before : Marker
  event : Spelling
  behind : Marker
  far : Spelling

namespace WrittenHop

/-- The marks show a direction or leave it open. -/
def IsDirected (h : WrittenHop) : Prop :=
  (h.before, h.behind) ∈ [(Marker.line, Marker.line), (.line, .rightHead), (.leftHead, .line)]

instance : DecidablePred IsDirected := fun _ => inferInstanceAs (Decidable (_ ∈ _))

/-- The direction that the marks show. -/
def direction (h : WrittenHop) : Option Direction :=
  match h.before, h.behind with
  | .line, .rightHead => some .fromLeft
  | .leftHead, .line => some .fromRight
  | _, _ => none

/-- What is wrong with marks that neither show a direction nor leave it open. -/
def fault (h : WrittenHop) : PathFault :=
  match h.before, h.behind with
  | .rightHead, _ => .opensRight
  | _, .leftHead => .closesLeft
  | _, _ => .pointsBothWays

def hop (h : WrittenHop) : Hop := ⟨h.event.term, h.far.term, h.direction⟩

theorem directionOf_eq (h : WrittenHop) : directionOf h.before h.behind =
    if h.IsDirected then .ok h.direction else .error h.fault := by
  obtain ⟨before, event, behind, far⟩ := h
  cases before <;> cases behind <;> rfl

end WrittenHop

namespace Sentence

/-- Two marks and terms make up one hop. -/
def pairUp : List (Marker × Spelling) → List WrittenHop
  | (before, event) :: (behind, far) :: rest => ⟨before, event, behind, far⟩ :: pairUp rest
  | _ => []

def hops (s : Sentence) : List WrittenHop := pairUp s.rest

/-- How many terms there are. -/
def size (s : Sentence) : Nat := s.rest.length + 1

/-- The route that is meant when the terms make up whole hops. -/
def route (s : Sentence) : Route := ⟨s.first.term, s.hops.map WrittenHop.hop⟩

/-- The first hop whose marks fit no direction. -/
def misdirected? (s : Sentence) : Option WrittenHop := s.hops.find? fun h => ¬ h.IsDirected

end Sentence

theorem hopsOf_eq (chain : String) (rest : List (Marker × Spelling)) :
    hopsOf chain (rest.map Prod.fst) (rest.map fun part => part.2.term) =
      match (Sentence.pairUp rest).find? fun h => ¬ h.IsDirected with
      | some h => .error (.path chain h.event.term.text h.fault)
      | none => .ok ((Sentence.pairUp rest).map WrittenHop.hop) := by
  fun_induction Sentence.pairUp rest with
  | case1 before event behind far rest ih =>
      have shown := WrittenHop.directionOf_eq ⟨before, event, behind, far⟩
      simp only [List.map_cons, hopsOf, shown, ih]
      by_cases directed : (⟨before, event, behind, far⟩ : WrittenHop).IsDirected
      · simp only [directed, if_true, List.find?_cons, not_true_eq_false, decide_false]
        cases (Sentence.pairUp rest).find? fun h => ¬ h.IsDirected with
        | none => rfl
        | some h => rfl
      · simp only [directed, if_false, List.find?_cons, not_false_eq_true, decide_true]
        rfl
  | case2 rest short =>
      rcases rest with _ | ⟨part, _ | ⟨next, rest⟩⟩
      · rfl
      · rfl
      · exact (short part.1 part.2 next.1 next.2 rest rfl).elim

theorem Spelling.name_term (w : Spelling) : w.term.name = w.name := by
  rw [term]
  cases w.label <;> rfl

/-- Faults of the count of terms go before that of the start, and this before those of marks. -/
theorem Route.ofText_eq {text : String} {s : Sentence} (written : s.chars = text.toList) :
    ofText text =
      if s.size < 3 ∨ s.size % 2 = 0 then .error (.incomplete text)
      else if s.first.name = wildcard then .error (.wildcardStart text)
      else match s.misdirected? with
        | some h => .error (.path text h.event.term.text h.fault)
        | none => .ok s.route := by
  have scanned : scan text.toList = .ok s.tokens := scan_eq_ok_iff.mpr ⟨s, written, rfl⟩
  have count : s.tokens.terms.length = s.size := by simp [Sentence.tokens, Sentence.size]
  simp only [ofText, scanned, ofTokens, count, Bool.or_eq_true, decide_eq_true_eq]
  refine if_congr Iff.rfl rfl ?_
  simp only [Sentence.tokens, Term.isWildcard, Spelling.name_term, decide_eq_true_eq]
  refine if_congr Iff.rfl rfl ?_
  rw [hopsOf_eq, Sentence.misdirected?, Sentence.hops]
  cases (Sentence.pairUp s.rest).find? fun h => ¬ h.IsDirected with
  | none => rfl
  | some h => rfl

/-- A text that writes a route is a sentence for it that starts at a named type. -/
theorem route_of_sentence {text : String} {route : Route} {s : Sentence}
    (written : s.chars = text.toList) (scanned : Route.ofText text = .ok route) :
    s.first.name ≠ wildcard ∧ s.route = route := by
  rw [Route.ofText_eq written] at scanned
  split at scanned
  · cases scanned
  · split at scanned
    · cases scanned
    · rename_i named
      split at scanned
      · cases scanned
      · exact ⟨named, Except.ok.inj scanned⟩

theorem exists_sentence {text : String} {route : Route} (scanned : Route.ofText text = .ok route) :
    ∃ s : Sentence, s.chars = text.toList := by
  obtain ⟨tokens, isScan, _⟩ := tokens_of_route scanned
  obtain ⟨s, written, _⟩ := scan_eq_ok_iff.mp isScan
  exact ⟨s, written⟩

/-! ## Faults of lookups -/

/-- A fault that is found in the catalog, not in the text. -/
def ChainError.IsLookedUp (e : ChainError) : Prop :=
  (∃ name, e = .undefinedNode name) ∨
    ∃ label existing incoming, e = .duplicateLabel label existing incoming

theorem successors_fault {c : Catalog} {near : Term} {hop : Hop} {e : ChainError}
    (failed : successors c near hop = .error e) : e.IsLookedUp := by
  rw [successors] at failed
  split at failed
  · cases failed
  · split at failed
    · cases failed
      exact Or.inl ⟨_, rfl⟩
    · cases failed

theorem spreadHop_fault {c : Catalog} {start : Term} {hop : Hop} {branches : List Alternative}
    {e : ChainError} (failed : spreadHop c start hop branches = .error e) : e.IsLookedUp := by
  induction branches generalizing e with
  | nil => cases failed
  | cons branch rest ih =>
      rw [spreadHop] at failed
      rcases Outcome.bind_eq_error_iff.mp failed with here | ⟨links, _, failed⟩
      · exact successors_fault here
      · rcases Outcome.bind_eq_error_iff.mp failed with later | ⟨others, _, failed⟩
        · exact ih later
        · split at failed <;> cases failed

theorem spread_fault {c : Catalog} {start : Term} {hops : List Hop} {branches : List Alternative}
    {e : ChainError} (failed : spread c start hops branches = .error e) : e.IsLookedUp := by
  induction hops generalizing branches e with
  | nil => cases failed
  | cons hop hops ih =>
      rw [spread] at failed
      rcases Outcome.bind_eq_error_iff.mp failed with here | ⟨spread, _, failed⟩
      · exact spreadHop_fault here
      · rcases Outcome.bind_eq_error_iff.mp failed with later | ⟨_, _, failed⟩
        · exact ih later
        · cases failed

theorem bindTerm_fault {labels : SortedMap String String} {t : Term} {e : ChainError}
    (failed : bindTerm labels t = .error e) : e.IsLookedUp := by
  rw [bindTerm] at failed
  split at failed
  · cases failed
  · split at failed
    · split at failed
      · cases failed
      · cases failed
        exact Or.inr ⟨_, _, _, rfl⟩
    · cases failed

theorem ofRoute_fault {c : Catalog} {route : Route} {e : ChainError}
    (failed : ofRoute c route = .error e) : e.IsLookedUp := by
  rcases Outcome.bind_eq_error_iff.mp failed with expansion | ⟨alternatives, _, failed⟩
  · rcases Outcome.bind_eq_error_iff.mp expansion with walked | ⟨_, _, failed⟩
    · exact spread_fault walked
    · cases failed
  · rcases Outcome.bind_eq_error_iff.mp failed with binding | ⟨_, _, failed⟩
    · exact Outcome.foldlM_fails (fun failed => bindTerm_fault failed) binding
    · cases failed

/-! ## Routes are read back -/

/-- A term that some text means. -/
def Term.IsSpelled (t : Term) : Prop := ∃ w : Spelling, w.term = t

/-- The marks of a direction; a direction that is left open has lines. -/
def Hop.markers (h : Hop) : Marker × Marker :=
  match h.direction with
  | some direction => direction.markers
  | none => (.line, .line)

/-- The written form of a hop, without the term where it starts. -/
def Hop.text (h : Hop) : String :=
  String.singleton h.markers.1.char ++ h.event.text ++ String.singleton h.markers.2.char ++
    h.far.text

def Route.text (r : Route) : String := r.start.text ++ String.join (r.hops.map Hop.text)

/-- A route that starts at a named type, goes on, and has terms that can be spelled. -/
structure Route.IsSpelled (r : Route) : Prop where
  start : r.start.IsSpelled
  concrete : r.start.name ≠ wildcard
  moves : r.hops ≠ []
  hops : ∀ hop ∈ r.hops, hop.event.IsSpelled ∧ hop.far.IsSpelled

theorem not_isName_wildcard : ¬ IsName wildcard := by decide

/-- The written form of a term spells it, though it leaves out a label that is the name. -/
theorem Term.IsSpelled.text {t : Term} (h : t.IsSpelled) :
    ∃ w : Spelling, w.chars = t.text.toList ∧ w.term = t := by
  obtain ⟨w, rfl⟩ := h
  cases own : w.label with
  | none =>
      refine ⟨w, ?_, rfl⟩
      rw [Spelling.chars, Spelling.term, Term.text, own, Term.written]
      by_cases isWildcard : w.name = wildcard
      · simp [isWildcard]
      · simp [isWildcard]
  | some label =>
      rw [Spelling.term, own, Term.written, Term.text]
      by_cases same : label = w.name
      · have isName : IsName w.name := same ▸ w.labelled label own
        have concrete : w.name ≠ wildcard := fun isWildcard =>
          not_isName_wildcard (isWildcard ▸ isName)
        refine ⟨⟨none, w.name, by simp, w.named⟩, ?_, ?_⟩
        · simp [Spelling.chars, same]
        · rw [Spelling.term, Term.written, if_neg concrete, same]
      · refine ⟨w, ?_, ?_⟩
        · simp [Spelling.chars, own, same]
        · rw [Spelling.term, own, Term.written]

theorem written_hop (hop : Hop) {w v : Spelling} (event : w.term = hop.event)
    (far : v.term = hop.far) :
    (⟨hop.markers.1, w, hop.markers.2, v⟩ : WrittenHop).IsDirected ∧
      (⟨hop.markers.1, w, hop.markers.2, v⟩ : WrittenHop).hop = hop := by
  obtain ⟨_, _, direction⟩ := hop
  subst event far
  cases direction with
  | none => exact ⟨List.mem_cons_self, rfl⟩
  | some direction =>
      cases direction with
      | fromLeft => exact ⟨List.mem_cons_of_mem _ List.mem_cons_self, rfl⟩
      | fromRight =>
          exact ⟨List.mem_cons_of_mem _ (List.mem_cons_of_mem _ List.mem_cons_self), rfl⟩

theorem exists_rest {hops : List Hop}
    (spelled : ∀ hop ∈ hops, hop.event.IsSpelled ∧ hop.far.IsSpelled) :
    ∃ rest, Sentence.restChars rest = (String.join (hops.map Hop.text)).toList ∧
      rest.length = 2 * hops.length ∧ (Sentence.pairUp rest).map WrittenHop.hop = hops ∧
        ∀ h ∈ Sentence.pairUp rest, h.IsDirected := by
  induction hops with
  | nil => exact ⟨[], rfl, rfl, rfl, by simp [Sentence.pairUp]⟩
  | cons hop hops ih =>
      obtain ⟨rest, chars, count, same, directed⟩ :=
        ih fun other inside => spelled other (List.mem_cons_of_mem hop inside)
      obtain ⟨event, far⟩ := spelled hop List.mem_cons_self
      obtain ⟨w, eventChars, eventTerm⟩ := event.text
      obtain ⟨v, farChars, farTerm⟩ := far.text
      obtain ⟨directedHere, sameHere⟩ := written_hop hop eventTerm farTerm
      refine ⟨(hop.markers.1, w) :: (hop.markers.2, v) :: rest, ?_, ?_, ?_, ?_⟩
      · rw [Sentence.restChars, List.flatMap_cons, List.flatMap_cons, ← Sentence.restChars, chars]
        simp [Hop.text, eventChars, farChars]
      · simp only [List.length_cons, count]
        omega
      · rw [Sentence.pairUp, List.map_cons, sameHere, same]
      · rw [Sentence.pairUp, List.forall_mem_cons]
        exact ⟨directedHere, directed⟩

theorem Route.ofText_text {r : Route} (spelled : r.IsSpelled) : ofText r.text = .ok r := by
  obtain ⟨w, startChars, startTerm⟩ := spelled.start.text
  obtain ⟨rest, chars, count, same, directed⟩ := exists_rest spelled.hops
  have written : (⟨w, rest⟩ : Sentence).chars = r.text.toList := by
    rw [Sentence.chars, chars, startChars, text, String.toList_append]
  have some_hops : r.hops.length ≠ 0 := by simpa using spelled.moves
  have enough : ¬ ((⟨w, rest⟩ : Sentence).size < 3 ∨ (⟨w, rest⟩ : Sentence).size % 2 = 0) := by
    simp only [Sentence.size, count]
    omega
  have concrete : w.name ≠ wildcard := by
    rw [← w.name_term, startTerm]
    exact spelled.concrete
  have fits : (⟨w, rest⟩ : Sentence).misdirected? = none := by
    rw [Sentence.misdirected?, List.find?_eq_none]
    simpa [Sentence.hops] using directed
  rw [ofText_eq written, if_neg enough, if_neg concrete, fits]
  simp only [Sentence.route, Sentence.hops, same, startTerm]

/-! ## The outcome of a text -/

theorem ofText?_eq {text : String} (notBlank : Text.isBlankText text = false) (c : Catalog) :
    ofText? c text = Route.ofText text >>= fun route => (ofRoute c route).map some := by
  rw [ofText?, if_neg (by simp [notBlank])]
  cases Route.ofText text with
  | error e => rfl
  | ok route =>
      change (ofRoute c route >>= fun chain => pure (some chain)) = (ofRoute c route).map some
      cases ofRoute c route with
      | error e => rfl
      | ok chain => rfl

theorem hasMarker_of_route {text : String} {route : Route} (h : Route.ofText text = .ok route) :
    hasMarker text = true := by
  obtain ⟨tokens, scanned, ofTokens⟩ := tokens_of_route h
  have count := (length_scan scanned).1
  have enough := three_terms ofTokens
  have someMarks : 0 < text.toList.countP isMarker := by omega
  simpa [hasMarker, isMarker] using List.countP_pos_iff.mp someMarks

theorem malformed_iff {text : String} (notBlank : Text.isBlankText text = false) (c : Catalog) :
    (∃ position, ofText? c text = .error (.malformed position)) ↔
      ¬ ∃ s : Sentence, s.chars = text.toList := by
  rw [ofText?_eq notBlank]
  constructor
  · rintro ⟨position, malformed⟩ ⟨s, written⟩
    rw [Route.ofText_eq written] at malformed
    rcases Outcome.bind_eq_error_iff.mp malformed with faulty | ⟨route, _, failed⟩
    · split at faulty
      · cases faulty
      · split at faulty
        · cases faulty
        · split at faulty <;> cases faulty
    · have lookedUp := ofRoute_fault (Outcome.map_eq_error_iff.mp failed)
      rcases lookedUp with ⟨_, h⟩ | ⟨_, _, _, h⟩ <;> cases h
  · intro noSentence
    cases scanned : scan text.toList with
    | error passed =>
        refine ⟨.ofOffset text.toList passed, ?_⟩
        rw [Route.ofText, scanned]
        rfl
    | ok tokens =>
        obtain ⟨s, written, _⟩ := scan_eq_ok_iff.mp scanned
        exact absurd ⟨s, written⟩ noSentence

/-- A text that is not blank is malformed exactly when it is no sentence. A sentence is one in
    one way only; its first fault is reported, and a catalog is asked only when there is none.
    What is written of a route is read back, and no text without marks stands for a chain. -/
theorem ofText?_grammar {text : String} (notBlank : Text.isBlankText text = false) :
    (∀ c, (∃ position, ofText? c text = .error (.malformed position)) ↔
      ¬ ∃ s : Sentence, s.chars = text.toList) ∧
    (∀ s t : Sentence, s.chars = text.toList → t.chars = text.toList → s = t) ∧
    (∀ s : Sentence, s.chars = text.toList → ∀ c, ofText? c text =
      if s.size < 3 ∨ s.size % 2 = 0 then .error (.incomplete text)
      else if s.first.name = wildcard then .error (.wildcardStart text)
      else match s.misdirected? with
        | some h => .error (.path text h.event.term.text h.fault)
        | none => (ofRoute c s.route).map some) ∧
    (∀ route : Route, route.IsSpelled → Route.ofText route.text = .ok route) ∧
    ∀ c result, ofText? c text = .ok result → hasMarker text = true := by
  refine ⟨malformed_iff notBlank, fun s t first second => ?_, fun s written c => ?_,
    fun route spelled => Route.ofText_text spelled, fun c result read => ?_⟩
  · exact Sentence.chars_injective (first.trans second.symm)
  · rw [ofText?_eq notBlank, Route.ofText_eq written]
    split
    · rfl
    · split
      · rfl
      · split <;> rfl
  · rw [ofText?_eq notBlank] at read
    obtain ⟨route, scanned, _⟩ := Outcome.bind_eq_ok_iff.mp read
    exact hasMarker_of_route scanned

/-- Any acquaintances of a person, then a hop that opens with a head: `p:P-*>q:P>E-r:*`. -/
def openedRight : Sentence :=
  ⟨⟨some "p", "P", by decide +kernel, by decide +kernel⟩,
    [(.line, ⟨none, "*", by simp, Or.inl rfl⟩),
     (.rightHead, ⟨some "q", "P", by decide +kernel, by decide +kernel⟩),
     (.rightHead, ⟨none, "E", by simp, by decide +kernel⟩),
     (.line, ⟨some "r", "*", by decide +kernel, Or.inl rfl⟩)]⟩

/-- The owners of a car under their own label, `c:Car<OWNS-p:*`. -/
def owners : Route :=
  ⟨⟨some "c", "Car"⟩, [⟨⟨some "OWNS", "OWNS"⟩, ⟨some "p", "*"⟩, some .fromRight⟩]⟩

theorem isSpelled_owners : owners.IsSpelled where
  start := ⟨⟨some "c", "Car", by decide +kernel, by decide +kernel⟩, rfl⟩
  concrete := by decide
  moves := List.cons_ne_nil _ _
  hops := by
    simp only [owners, List.mem_singleton, forall_eq]
    exact ⟨⟨⟨none, "OWNS", by simp, by decide +kernel⟩, rfl⟩,
      ⟨some "p", "*", by decide +kernel, Or.inl rfl⟩, rfl⟩

/-- The second hop of a text is at fault, and a route whose event is its own label is read back. -/
theorem grammar_opened_right : Text.isBlankText "p:P-*>q:P>E-r:*" = false ∧
    (∀ c, ofText? c "p:P-*>q:P>E-r:*" = .error (.path "p:P-*>q:P>E-r:*" "E" .opensRight)) ∧
    Route.ofText owners.text = .ok owners := by
  have notBlank : Text.isBlankText "p:P-*>q:P>E-r:*" = false := by decide +kernel
  obtain ⟨_, _, outcome, readBack, _⟩ := ofText?_grammar notBlank
  refine ⟨notBlank, fun c => ?_, readBack owners isSpelled_owners⟩
  exact outcome openedRight (by decide +kernel) c

end SchemaGraph.Chain
