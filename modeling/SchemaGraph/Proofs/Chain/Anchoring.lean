import SchemaGraph.Proofs.Chain.Expansion
import SchemaGraph.Proofs.Chain.Writing

/-! # Types that a chain looks up

The expansion of a chain fails for the first type that is looked up and not defined. Such a
type is written in the text: the event types of a catalog only join types that are defined.
-/

namespace SchemaGraph.Chain

/-- The types that one hop looks up, each where a branch ends that the hop is to lead on. -/
def lookedUp (start : Term) (hop : Hop) (branches : List Alternative) : List String :=
  if hop.isConcrete then [] else branches.map fun branch => (branch.endOf start).name

/-- The types that hops look up, hop by hop, and for each in the order of the walks over the hops
    that were passed before. -/
def lookups (c : Catalog) (start : Term) (passed : List Hop) : List Hop → List String
  | [] => []
  | hop :: hops =>
      lookedUp start hop (walks c start passed) ++ lookups c start (passed ++ [hop]) hops

variable {c : Catalog} {start near : Term} {hop : Hop} {hops passed : List Hop} {name : String}

theorem written?_eq_none_iff : written? near hop = none ↔ hop.isConcrete = false := by
  rw [written?]
  split
  · rename_i hasWildcard
    have notConcrete : hop.isConcrete = false := by
      rcases hasWildcard with event | far
      · simp [Hop.isConcrete, Term.isWildcard, event]
      · simp [Hop.isConcrete, Term.isWildcard, far]
    simp [notConcrete]
  · rename_i noWildcard
    rw [not_or] at noWildcard
    simp [Hop.isConcrete, Term.isWildcard, noWildcard]

/-! ## The first type that is not defined -/

theorem anchored_of_lookedUp {branches : List Alternative}
    (defined : ∀ name ∈ lookedUp start hop branches, (c.node? name).isSome = true) :
    ∀ branch ∈ branches, written? (branch.endOf start) hop = none →
      (c.node? (branch.endOf start).name).isSome = true := by
  intro branch inside asked
  rw [lookedUp, written?_eq_none_iff.mp asked, if_neg Bool.false_ne_true] at defined
  exact defined _ (List.mem_map_of_mem inside)

theorem spreadHop_undefined (agree : c.Consistent) {branches : List Alternative}
    (first : (lookedUp start hop branches).find? (fun name => (c.node? name).isNone) = some name) :
    spreadHop c start hop branches = .error (.undefinedNode name) := by
  cases concrete : hop.isConcrete with
  | true => simp [lookedUp, concrete] at first
  | false =>
      rw [lookedUp, concrete, if_neg Bool.false_ne_true] at first
      induction branches with
      | nil => cases first
      | cons branch rest ih =>
          rw [List.map_cons, List.find?_cons] at first
          split at first
          · rename_i undefined
            rw [spreadHop, successors, concrete, if_pos undefined, Option.some_inj.mp first]
            rfl
          · rename_i defined
            have anchored : (c.node? (branch.endOf start).name).isSome = true := by
              simpa [Option.isSome_iff_ne_none] using defined
            rw [spreadHop, successors_eq agree fun _ => anchored, ih first]
            rfl

/-- The walks over the hops passed so far are led over all that are to come, or the first type
    that is looked up on the way and not defined is reported. -/
theorem spread_cases (agree : c.Consistent) (start : Term) (hops passed : List Hop) :
    (∃ name,
      (lookups c start passed hops).find? (fun name => (c.node? name).isNone) = some name ∧
        spread c start hops (walks c start passed) = .error (.undefinedNode name)) ∨
    ((lookups c start passed hops).find? (fun name => (c.node? name).isNone) = none ∧
      ∃ s, spread c start hops (walks c start passed) = .ok s) := by
  induction hops generalizing passed with
  | nil => exact Or.inr ⟨rfl, _, rfl⟩
  | cons hop hops ih =>
      rw [lookups, List.find?_append, spread]
      cases here :
          (lookedUp start hop (walks c start passed)).find? fun name => (c.node? name).isNone with
      | some name =>
          refine Or.inl ⟨name, rfl, ?_⟩
          rw [spreadHop_undefined agree here]
          rfl
      | none =>
          have defined : ∀ name ∈ lookedUp start hop (walks c start passed),
              (c.node? name).isSome = true := by
            simpa [Option.isSome_iff_ne_none] using here
          rw [spreadHop_eq agree (anchored_of_lookedUp defined), ← walks_append_singleton,
            Option.none_or]
          rcases ih (passed ++ [hop]) with ⟨name, first, fails⟩ | ⟨noneFails, s, done⟩
          · refine Or.inl ⟨name, first, ?_⟩
            change spread c start hops (walks c start (passed ++ [hop])) >>= _ = _
            rw [fails]
            rfl
          · refine Or.inr ⟨noneFails, ?_⟩
            change ∃ s, (spread c start hops (walks c start (passed ++ [hop])) >>= _) = .ok s
            rw [done]
            exact ⟨_, rfl⟩

/-! ## Where types come from -/

theorem defined_of_mem_linksFrom (agree : c.Consistent) (asked : hop.isConcrete = false)
    {link : Link} (inside : link ∈ linksFrom c near hop) :
    (c.node? link.far.name).isSome = true := by
  obtain ⟨direction, key, held, _, rfl⟩ :=
    (mem_linksFrom (written?_eq_none_iff.mpr asked)).mp inside
  obtain ⟨d, found⟩ := Option.isSome_iff_exists.mp held
  have ends := agree.ends ((SortedMap.get?_eq_some_iff _ _ _).mp found)
  cases direction with
  | fromLeft => exact ends.2
  | fromRight => exact ends.1

theorem far_of_mem_linksFrom (concrete : hop.isConcrete = true) {link : Link}
    (inside : link ∈ linksFrom c near hop) : link.far = hop.far := by
  have notAsked : written? near hop ≠ none := by simp [written?_eq_none_iff, concrete]
  obtain ⟨only, isWritten⟩ := Option.ne_none_iff_exists'.mp notAsked
  simp only [linksFrom, isWritten, List.mem_singleton] at inside
  rw [inside]
  rw [written?] at isWritten
  split at isWritten
  · cases isWritten
  · obtain ⟨direction, _, rfl⟩ := Option.map_eq_some_iff.mp isWritten
    rfl

theorem IsWalk.end_cases (agree : c.Consistent) {walk : Alternative}
    (h : IsWalk c near hops walk) : (walk.endOf near).name = near.name ∨
      (∃ hop ∈ hops, hop.isConcrete = true ∧ hop.far.name = (walk.endOf near).name) ∨
      (c.node? (walk.endOf near).name).isSome = true := by
  induction h with
  | stop near => exact Or.inl rfl
  | @go near hop hops link walk here onward ih =>
      rw [endOf_cons]
      rcases ih with stays | ⟨later, listed, isWritten⟩ | defined
      · rw [stays]
        cases concrete : hop.isConcrete with
        | true =>
            rw [far_of_mem_linksFrom concrete here]
            exact Or.inr (Or.inl ⟨hop, List.mem_cons_self, concrete, rfl⟩)
        | false => exact Or.inr (Or.inr (defined_of_mem_linksFrom agree concrete here))
      · exact Or.inr (Or.inl ⟨later, List.mem_cons_of_mem _ listed, isWritten⟩)
      · exact Or.inr (Or.inr defined)

theorem lookups_cases (agree : c.Consistent) (looked : name ∈ lookups c start passed hops) :
    name = start.name ∨ (∃ hop ∈ passed ++ hops, hop.isConcrete = true ∧ hop.far.name = name) ∨
      (c.node? name).isSome = true := by
  induction hops generalizing passed with
  | nil => cases looked
  | cons hop hops ih =>
      rcases List.mem_append.mp looked with here | later
      · rw [lookedUp] at here
        split at here
        · cases here
        · obtain ⟨walk, isWalk, rfl⟩ := List.mem_map.mp here
          have ends := (mem_walks_iff.mp isWalk).end_cases agree
          refine ends.imp_right (Or.imp_left ?_)
          rintro ⟨other, listed, isWritten⟩
          exact ⟨other, List.mem_append_left _ listed, isWritten⟩
      · have shift : passed ++ hop :: hops = (passed ++ [hop]) ++ hops := by simp
        rw [shift]
        exact ih later

/-- A type that is looked up and not defined is a name in the text, at its start or at the far end
    of a hop that is not looked up. -/
theorem literal_of_undefined (agree : c.Consistent) {text : String} {route : Route}
    (scanned : Route.ofText text = .ok route) {s : Sentence} (written : s.chars = text.toList)
    (looked : name ∈ lookups c route.start [] route.hops) (undefined : c.node? name = none) :
    IsName name ∧
      (s.first.name = name ∨ ∃ h ∈ s.hops, h.hop.isConcrete = true ∧ h.far.name = name) := by
  obtain ⟨named, rfl⟩ := route_of_sentence written scanned
  rcases lookups_cases agree looked with atStart | ⟨hop, listed, concrete, rfl⟩ | defined
  · have same : s.first.name = name := by rw [atStart, ← s.first.name_term]; rfl
    exact ⟨same ▸ s.first.named.resolve_left named, Or.inl same⟩
  · obtain ⟨h, inside, rfl⟩ := List.mem_map.mp listed
    have same : h.far.name = h.hop.far.name := h.far.name_term.symm
    have notWildcard : h.far.name ≠ wildcard := same ▸ far_ne_wildcard concrete
    exact ⟨same ▸ h.far.named.resolve_left notWildcard, Or.inr ⟨h, inside, concrete, same⟩⟩
  · rw [undefined] at defined
    cases defined

/-- Only the expansion of a chain meets types that are not defined, not the binding of labels. -/
theorem undefined_iff_spread {text : String} {route : Route}
    (scanned : Route.ofText text = .ok route) :
    ofText? c text = .error (.undefinedNode name) ↔
      spread c route.start route.hops [[]] = .error (.undefinedNode name) := by
  rw [ofText?_eq (not_blank_of_route scanned), scanned]
  change (ofRoute c route).map some = _ ↔ _
  rw [Outcome.map_eq_error_iff, ofRoute, alternativesOf]
  constructor
  · intro failed
    rcases Outcome.bind_eq_error_iff.mp failed with expansion | ⟨alternatives, _, failed⟩
    · rcases Outcome.bind_eq_error_iff.mp expansion with walked | ⟨_, _, failed⟩
      · exact walked
      · cases failed
    · rcases Outcome.bind_eq_error_iff.mp failed with binding | ⟨_, _, failed⟩
      · rcases bindLabels_cases alternatives with ⟨labels, bound, _⟩ | ⟨_, _, _, clashes, _⟩
        · rw [bound] at binding
          cases binding
        · rw [clashes] at binding
          cases binding
      · cases failed
  · intro failed
    rw [failed]
    rfl

/-- A chain is refused for a type exactly when this is the first type that is looked up and not
    defined. The text has such a type for a name, and no hop that is looked up leads to it. -/
theorem ofText?_undefined {text : String} {route : Route} (reached : c.Reached)
    (scanned : Route.ofText text = .ok route) (name : String) :
    (ofText? c text = .error (.undefinedNode name) ↔
      (lookups c route.start [] route.hops).find? (fun name => (c.node? name).isNone) =
        some name) ∧
    (ofText? c text = .error (.undefinedNode name) →
      (∃ s : Sentence, s.chars = text.toList ∧ IsName name ∧
        (s.first.name = name ∨ ∃ h ∈ s.hops, h.hop.isConcrete = true ∧ h.far.name = name)) ∧
      ∀ near hop, hop.isConcrete = false → ∀ link ∈ linksFrom c near hop,
        link.far.name ≠ name) := by
  have agree := reached.consistent
  have first : ofText? c text = .error (.undefinedNode name) ↔
      (lookups c route.start [] route.hops).find? (fun name => (c.node? name).isNone) =
        some name := by
    rw [undefined_iff_spread scanned]
    change spread c route.start route.hops (walks c route.start []) = _ ↔ _
    rcases spread_cases agree route.start route.hops [] with ⟨other, found, fails⟩ | ⟨none, s, done⟩
    · rw [found, fails, Except.error.injEq, ChainError.undefinedNode.injEq, Option.some_inj]
    · simp only [none, done, reduceCtorEq]
  refine ⟨first, fun failed => ?_⟩
  have looked := List.mem_of_find?_eq_some (first.mp failed)
  have undefined : c.node? name = none := by simpa using List.find?_some (first.mp failed)
  obtain ⟨s, written⟩ := exists_sentence scanned
  refine ⟨⟨s, written, literal_of_undefined agree scanned written looked undefined⟩, ?_⟩
  rintro near hop asked link inside rfl
  have defined := defined_of_mem_linksFrom agree asked inside
  rw [undefined] at defined
  cases defined

/-- The type of a boat is written and not defined, so nothing can be asked about boats. -/
theorem undefined_boat : ∃ c, townsfolk = .ok c ∧
    ofText? c "Person-OWNS>Boat-*>*" = .error (.undefinedNode "Boat") := by
  have loaded : townsfolk = .ok (townsfolk.toOption.getD .empty) := by decide +kernel
  have scanned : Route.ofText "Person-OWNS>Boat-*>*" = .ok
      ⟨⟨some "Person", "Person"⟩, [⟨⟨some "OWNS", "OWNS"⟩, ⟨some "Boat", "Boat"⟩, some .fromLeft⟩,
        ⟨⟨none, "*"⟩, ⟨none, "*"⟩, some .fromLeft⟩]⟩ := by decide +kernel
  obtain ⟨first, _⟩ := ofText?_undefined (Catalog.reached_ofDocument loaded) scanned "Boat"
  exact ⟨_, loaded, first.mpr (by decide +kernel)⟩

end SchemaGraph.Chain
