import SchemaGraph.Proofs.Chain.Expansion
import SchemaGraph.Proofs.Chain.Writing

/-! # Bound labels

A chain that can be expanded has a type name for each label of its alternatives, or it is
refused for the first label that has two. The labels are those that the text writes at its start
and at the hops that some alternative goes over.
-/

namespace SchemaGraph.Chain

variable {c : Catalog} {start near : Term} {hop : Hop} {hops passed : List Hop}
  {branches : List Alternative}

/-! ## What every expansion keeps -/

theorem mem_spreadHop {s : Spread} (done : spreadHop c start hop branches = .ok s) :
    (∀ walk ∈ s.going, ∃ branch ∈ branches, ∃ links,
      successors c (branch.endOf start) hop = .ok links ∧ ∃ link ∈ links, walk = branch ++ [link]) ∧
    ∀ walk ∈ s.ended, walk ∈ branches := by
  induction branches generalizing s with
  | nil =>
      cases done
      simp
  | cons branch rest ih =>
      rw [spreadHop] at done
      obtain ⟨links, here, done⟩ := Outcome.bind_eq_ok_iff.mp done
      obtain ⟨others, later, done⟩ := Outcome.bind_eq_ok_iff.mp done
      obtain ⟨going, ended⟩ := ih later
      have goingOn : ∀ walk ∈ others.going, ∃ branch' ∈ branch :: rest, ∃ links,
          successors c (branch'.endOf start) hop = .ok links ∧
            ∃ link ∈ links, walk = branch' ++ [link] := by
        intro walk inside
        obtain ⟨branch', listed, whole⟩ := going walk inside
        exact ⟨branch', List.mem_cons_of_mem _ listed, whole⟩
      split at done
      · cases done
        refine ⟨goingOn, fun walk inside => ?_⟩
        rcases List.mem_cons.mp inside with rfl | inside
        · exact List.mem_cons_self
        · exact List.mem_cons_of_mem _ (ended walk inside)
      · cases done
        constructor
        · intro walk inside
          rcases List.mem_append.mp inside with first | later
          · obtain ⟨link, listed, rfl⟩ := List.mem_map.mp first
            exact ⟨branch, List.mem_cons_self, links, here, link, listed, rfl⟩
          · exact goingOn walk later
        · intro walk inside
          exact List.mem_cons_of_mem _ (ended walk inside)

/-- What a link more does not take away holds of each alternative and the hops it goes over. -/
theorem spread_keeps {keeps : List Hop → Alternative → Prop}
    (step : ∀ {passed hop branch links link}, keeps passed branch →
      successors c (Alternative.endOf start branch) hop = .ok links → link ∈ links →
        keeps (passed ++ [hop]) (branch ++ [link]))
    {s : Spread} (before : ∀ branch ∈ branches, keeps passed branch)
    (done : spread c start hops branches = .ok s) :
    ∀ walk ∈ s.going ++ s.ended, ∃ front, front <+: passed ++ hops ∧ keeps front walk := by
  induction hops generalizing passed branches s with
  | nil =>
      cases done
      intro walk inside
      have kept := before walk (by simpa using inside)
      exact ⟨passed, List.prefix_append _ _, kept⟩
  | cons hop hops ih =>
      rw [spread] at done
      obtain ⟨here, first, done⟩ := Outcome.bind_eq_ok_iff.mp done
      obtain ⟨later, rest, done⟩ := Outcome.bind_eq_ok_iff.mp done
      cases done
      obtain ⟨going, ended⟩ := mem_spreadHop first
      have next : ∀ walk ∈ here.going, keeps (passed ++ [hop]) walk := by
        intro walk inside
        obtain ⟨branch, listed, links, found, link, isLink, rfl⟩ := going walk inside
        exact step (before branch listed) found isLink
      have others := ih next rest
      rw [List.append_assoc, List.singleton_append] at others
      intro walk inside
      simp only [List.mem_append] at inside others
      rcases inside with goingOn | stopped | stopsLater
      · exact others walk (Or.inl goingOn)
      · exact ⟨passed, List.prefix_append _ _, before walk (ended walk stopped)⟩
      · exact others walk (Or.inr stopsLater)

/-! ## Labels of alternatives -/

theorem labels_of_linksToward {definitions : List EventDefinition} {direction : Direction}
    {link : Link} (inside : link ∈ linksToward definitions near hop direction) :
    link.near = near ∧ link.event.label = hop.event.label ∧ link.far.label = hop.far.label := by
  rw [linksToward] at inside
  split at inside
  · obtain ⟨d, _, isLink⟩ := List.mem_filterMap.mp inside
    simp only [linkOver?, Option.ite_none_right_eq_some, Option.some_inj] at isLink
    obtain ⟨_, rfl⟩ := isLink
    exact ⟨rfl, rfl, rfl⟩
  · cases inside

theorem labels_of_successors {links : List Link} (found : successors c near hop = .ok links)
    {link : Link} (inside : link ∈ links) :
    link.near = near ∧ link.event.label = hop.event.label ∧ link.far.label = hop.far.label := by
  rw [successors] at found
  split at found
  · cases found
    rw [List.mem_singleton.mp inside]
    exact ⟨rfl, rfl, rfl⟩
  · split at found
    · cases found
    · cases found
      rcases List.mem_append.mp inside with fromLeft | fromRight
      · exact labels_of_linksToward fromLeft
      · exact labels_of_linksToward fromRight

/-- The labels of links over hops, when the first one starts at a term with the given label. -/
def labelsAlong (near : Option String) : List Hop → List (Option String)
  | [] => []
  | hop :: hops => near :: hop.event.label :: hop.far.label :: labelsAlong hop.far.label hops

/-- The label of the term to which the hops lead. -/
def labelAtEnd (near : Option String) (hops : List Hop) : Option String :=
  hops.foldl (fun _ hop => hop.far.label) near

theorem labelsAlong_append_singleton (near : Option String) (hops : List Hop) (hop : Hop) :
    labelsAlong near (hops ++ [hop]) =
      labelsAlong near hops ++ [labelAtEnd near hops, hop.event.label, hop.far.label] := by
  induction hops generalizing near with
  | nil => rfl
  | cons first hops ih => simp [labelsAlong, labelAtEnd, ih]

/-- The links have the labels of the hops, one link for each. -/
structure LabelledBy (start : Term) (hops : List Hop) (links : Alternative) : Prop where
  size : links.length = hops.length
  labels : (links.flatMap Link.terms).map Term.label = labelsAlong start.label hops
  last : (links.endOf start).label = labelAtEnd start.label hops

theorem LabelledBy.none (start : Term) : LabelledBy start [] [] := ⟨rfl, rfl, rfl⟩

theorem endOf_append_singleton (links : Alternative) (link : Link) :
    Alternative.endOf start (links ++ [link]) = link.far := by
  rw [Alternative.endOf, List.getLast?_concat]

theorem LabelledBy.go {links : List Link} {branch : Alternative} {link : Link}
    (h : LabelledBy start hops branch)
    (found : successors c (branch.endOf start) hop = .ok links) (inside : link ∈ links) :
    LabelledBy start (hops ++ [hop]) (branch ++ [link]) := by
  obtain ⟨fromEnd, event, far⟩ := labels_of_successors found inside
  refine ⟨by simp [h.size], ?_, ?_⟩
  · rw [labelsAlong_append_singleton, ← h.labels, ← h.last, ← event, ← far, ← fromEnd]
    simp [Link.terms]
  · rw [endOf_append_singleton, far]
    simp [labelAtEnd]

theorem labelledBy_of_alternativesOf {route : Route} {alternatives : List Alternative}
    (expanded : alternativesOf c route = .ok alternatives) {links : Alternative}
    (inside : links ∈ alternatives) :
    LabelledBy route.start (route.hops.take links.length) links := by
  obtain ⟨s, done, whole⟩ := Outcome.bind_eq_ok_iff.mp expanded
  rw [← Outcome.pure_eq_ok_iff.mp whole] at inside
  have first : ∀ branch ∈ ([[]] : List Alternative), LabelledBy route.start [] branch := by
    simp [LabelledBy.none]
  obtain ⟨front, isFront, labelled⟩ :=
    spread_keeps LabelledBy.go first done links (List.mem_filter.mp inside).1
  rw [List.nil_append] at isFront
  rw [labelled.size, ← List.prefix_iff_eq_take.mp isFront]
  exact labelled

/-! ## Labels of texts -/

/-- The label that a term goes by: the one written in front of it, else its name, which the
    wildcard is not. -/
def Spelling.ownLabel (w : Spelling) : Option String :=
  w.label.or (if w.name = wildcard then none else some w.name)

theorem Spelling.label_term (w : Spelling) : w.term.label = w.ownLabel := by
  rw [term, ownLabel]
  cases w.label <;> rfl

/-- The terms of hops as a text has them; where one hop ends and another starts, a term counts
    for both. -/
def spellingsAlong (near : Spelling) : List WrittenHop → List Spelling
  | [] => []
  | h :: hops => near :: h.event :: h.far :: spellingsAlong h.far hops

theorem labelsAlong_map_hop (near : Spelling) (hops : List WrittenHop) :
    labelsAlong near.term.label (hops.map WrittenHop.hop) =
      (spellingsAlong near hops).map Spelling.ownLabel := by
  induction hops generalizing near with
  | nil => rfl
  | cons h hops ih =>
      have onward : labelsAlong h.far.term.label (hops.map WrittenHop.hop) = _ := ih h.far
      simp only [List.map_cons, labelsAlong, spellingsAlong, ← Spelling.label_term, ← onward,
        WrittenHop.hop]

/-- An alternative has the labels of the text, up to the hop at which it ends. -/
theorem labels_of_alternativesOf {text : String} {route : Route} {alternatives : List Alternative}
    (scanned : Route.ofText text = .ok route)
    (expanded : alternativesOf c route = .ok alternatives) {s : Sentence}
    (written : s.chars = text.toList) {links : Alternative} (inside : links ∈ alternatives) :
    (links.flatMap Link.terms).map Term.label =
      (spellingsAlong s.first (s.hops.take links.length)).map Spelling.ownLabel := by
  rw [(labelledBy_of_alternativesOf expanded inside).labels,
    ← (route_of_sentence written scanned).2, ← labelsAlong_map_hop, List.map_take]
  rfl

theorem ofText?_eq_bindLabels {text : String} {route : Route} {alternatives : List Alternative}
    (scanned : Route.ofText text = .ok route)
    (expanded : alternativesOf c route = .ok alternatives) :
    ofText? c text = (bindLabels alternatives).map fun labels => some ⟨alternatives, labels⟩ := by
  rw [ofText?_eq (not_blank_of_route scanned), scanned]
  change (ofRoute c route).map some = _
  rw [ofRoute, expanded]
  change (bindLabels alternatives >>= fun labels => pure (mk alternatives labels)).map some = _
  cases bindLabels alternatives <;> rfl

/-- A chain that can be expanded is refused for a label exactly when two terms of its alternatives
    have this label and different names, and the first such term in their order is reported. Else
    each label stands for the name of the terms that carry it. The labels of an alternative are
    those that the text writes up to the hop at which it ends. -/
theorem ofText?_labels {text : String} {route : Route} {alternatives : List Alternative}
    (scanned : Route.ofText text = .ok route)
    (expanded : alternativesOf c route = .ok alternatives) :
    ((∃ label existing incoming,
        ofText? c text = .error (.duplicateLabel label existing incoming)) ↔
      ∃ t ∈ termsOf alternatives, ∃ u ∈ termsOf alternatives, ∃ label,
        t.label = some label ∧ u.label = some label ∧ t.name ≠ u.name) ∧
    (∀ e, ofText? c text = .error e → ∃ label existing incoming,
      e = .duplicateLabel label existing incoming ∧
        FirstClash (termsOf alternatives) label existing incoming) ∧
    (LabelsAgree (termsOf alternatives) → ∃ labels,
      ofText? c text = .ok (some ⟨alternatives, labels⟩) ∧
      ∀ label name, labels.get? label = some name ↔
        ∃ t ∈ termsOf alternatives, t.label = some label ∧ t.name = name) ∧
    ∀ s : Sentence, s.chars = text.toList → ∀ links ∈ alternatives,
      (links.flatMap Link.terms).map Term.label =
        (spellingsAlong s.first (s.hops.take links.length)).map Spelling.ownLabel := by
  have spelled : ∀ s : Sentence, s.chars = text.toList → ∀ links ∈ alternatives, _ :=
    fun s written links inside => labels_of_alternativesOf scanned expanded written inside
  rw [ofText?_eq_bindLabels scanned expanded, ← not_labelsAgree_iff]
  rcases bindLabels_cases alternatives with ⟨labels, bound, binds⟩ |
    ⟨label, existing, incoming, fails, clash⟩
  · rw [bound]
    refine ⟨⟨?_, fun disagree => absurd binds.agree disagree⟩, ?_, ?_, spelled⟩
    · rintro ⟨_, _, _, failed⟩
      cases failed
    · intro e failed
      cases failed
    · intro _
      exact ⟨labels, rfl, binds⟩
  · rw [fails]
    refine ⟨⟨fun _ => clash.not_agree, ?_⟩, ?_, ?_, spelled⟩
    · intro _
      exact ⟨label, existing, incoming, rfl⟩
    · intro e failed
      cases failed
      exact ⟨label, existing, incoming, rfl, clash⟩
    · intro agree
      exact absurd agree clash.not_agree

/-- A person and what it is led to under one label, `p:Person-*>p:*`. -/
def sharedLabel : Route :=
  ⟨⟨some "p", "Person"⟩, [⟨⟨none, "*"⟩, ⟨some "p", "*"⟩, some .fromLeft⟩]⟩

/-- What is owned by what a person owns, `Person-OWNS>c:*-OWNS>d:*`. -/
def ownedByOwned : Route :=
  ⟨⟨some "Person", "Person"⟩, [⟨⟨some "OWNS", "OWNS"⟩, ⟨some "c", "*"⟩, some .fromLeft⟩,
    ⟨⟨some "OWNS", "OWNS"⟩, ⟨some "d", "*"⟩, some .fromLeft⟩]⟩

/-- What a person owns cannot go by the label of the person. A car owns nothing, so no type goes
    by the label of what it would own. -/
theorem labels_townsfolk : ∃ c, townsfolk = .ok c ∧
    (∃ label existing incoming,
      ofText? c "p:Person-*>p:*" = .error (.duplicateLabel label existing incoming)) ∧
    ∃ chain, ofText? c "Person-OWNS>c:*-OWNS>d:*" = .ok (some chain) ∧
      chain.labels.get? "c" = some "Car" ∧ chain.labels.get? "d" = none := by
  refine ⟨townsfolk.toOption.getD .empty, by decide +kernel, ?_, ?_⟩
  · have scanned : Route.ofText "p:Person-*>p:*" = .ok sharedLabel := by decide +kernel
    have expanded : alternativesOf (townsfolk.toOption.getD .empty) sharedLabel = .ok
        [[⟨⟨some "p", "Person"⟩, ⟨none, "KNOWS"⟩, ⟨some "p", "Person"⟩, .fromLeft⟩],
         [⟨⟨some "p", "Person"⟩, ⟨none, "OWNS"⟩, ⟨some "p", "Car"⟩, .fromLeft⟩]] := by
      decide +kernel
    obtain ⟨clashes, _⟩ := ofText?_labels scanned expanded
    exact clashes.mpr (not_labelsAgree_iff.mp (by decide +kernel))
  · have scanned : Route.ofText "Person-OWNS>c:*-OWNS>d:*" = .ok ownedByOwned := by
      decide +kernel
    have expanded : alternativesOf (townsfolk.toOption.getD .empty) ownedByOwned = .ok
        [[⟨⟨some "Person", "Person"⟩, ⟨some "OWNS", "OWNS"⟩, ⟨some "c", "Car"⟩, .fromLeft⟩]] := by
      decide +kernel
    obtain ⟨_, _, bound, _⟩ := ofText?_labels scanned expanded
    obtain ⟨labels, whole, binds⟩ := bound (by decide +kernel)
    refine ⟨_, whole, (binds "c" "Car").mpr (by decide), ?_⟩
    rw [Option.eq_none_iff_forall_ne_some]
    intro name found
    obtain ⟨t, listed, own, _⟩ := (binds "d" name).mp found
    simp only [termsOf, Link.terms, List.flatten_cons, List.flatten_nil, List.append_nil,
      List.flatMap_cons, List.flatMap_nil, List.mem_cons, List.not_mem_nil, or_false] at listed
    rcases listed with rfl | rfl | rfl <;> exact absurd own (by decide)

end SchemaGraph.Chain
