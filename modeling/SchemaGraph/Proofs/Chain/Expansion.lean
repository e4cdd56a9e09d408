import SchemaGraph.Proofs.Chain.Labels
import SchemaGraph.Proofs.Chain.Scanning
import SchemaGraph.Proofs.Chain.Walk
import SchemaGraph.Proofs.Schema.Catalog

/-! # Expansion is the list of walks

A chain is expanded one level of alternatives after the other. In a catalog whose parts
agree, what comes out is each walk of the route once, then each dead end.
-/

namespace SchemaGraph.Chain

variable {c : Catalog} {near start : Term} {hop : Hop}

/-! ## One hop -/

theorem far_ne_wildcard (concrete : hop.isConcrete = true) : hop.far.name ≠ wildcard := by
  simp only [Hop.isConcrete, Term.isWildcard, Bool.and_eq_true, Bool.not_eq_true',
    decide_eq_false_iff_not] at concrete
  exact concrete.1.2

theorem linkOver?_eq (direction : Direction) (d : EventDefinition)
    (allowed : hop.direction = none ∨ hop.direction = some direction) :
    linkOver? near hop direction d =
      if Fits near hop direction d.key then some (linkAlong near hop direction d.key) else none := by
  cases direction with
  | fromLeft =>
      simp [linkOver?, Fits, allowed, nearType, farType, linkAlong, Term.admits, Term.isWildcard,
        Term.resolved, and_assoc]
  | fromRight =>
      simp [linkOver?, Fits, allowed, nearType, farType, linkAlong, Term.admits, Term.isWildcard,
        Term.resolved, and_assoc]

theorem touches_of_fits {direction : Direction} {d : EventDefinition}
    (fits : Fits near hop direction d.key) : d.touches near.name = true := by
  obtain ⟨_, fromNear, _⟩ := fits
  cases direction with
  | fromLeft => simp [EventDefinition.touches, EventKey.touches, ← fromNear, nearType]
  | fromRight => simp [EventDefinition.touches, EventKey.touches, ← fromNear, nearType]

/-- Only the event types at a node are looked at, and no other fits. -/
theorem linksToward_eq (agree : c.Consistent) (direction : Direction) :
    linksToward (c.incidentTo near.name) near hop direction = linksAlong c near hop direction := by
  by_cases allowed : hop.direction = none ∨ hop.direction = some direction
  · rw [linksToward, if_pos (by simpa using allowed), agree.incidentTo_eq, linksAlong,
      ← agree.keys_of_values, List.filter_map, List.map_map, ← List.filterMap_eq_map,
      List.filterMap_filter, List.filterMap_filter]
    refine List.filterMap_congr fun d _ => ?_
    rw [linkOver?_eq direction d allowed]
    by_cases fits : Fits near hop direction d.key
    · simp [fits, touches_of_fits fits]
    · simp [fits]
  · have none_fits : ∀ key ∈ c.events.keys, ¬ decide (Fits near hop direction key) = true :=
      fun key _ fits => allowed (of_decide_eq_true fits).1
    rw [linksToward, if_neg (by simpa using allowed), linksAlong,
      List.filter_eq_nil_iff.mpr none_fits, List.map_nil]

theorem successors_eq (agree : c.Consistent)
    (anchored : written? near hop = none → (c.node? near.name).isSome = true) :
    successors c near hop = .ok (linksFrom c near hop) := by
  rw [successors, linksFrom]
  split
  · rename_i direction concrete named
    have noWildcard : ¬ (hop.event.name = wildcard ∨ hop.far.name = wildcard) := by
      simpa [Hop.isConcrete, Term.isWildcard, named] using concrete
    simp only [written?, if_neg noWildcard, named, Option.map_some]
  · rename_i lookedUp
    have notWritten : written? near hop = none := by
      rw [written?]
      split
      · rfl
      · rename_i noWildcard
        rw [Option.map_eq_none_iff, Option.eq_none_iff_forall_not_mem]
        intro direction named
        refine lookedUp direction ?_ named
        simpa [Hop.isConcrete, Term.isWildcard, Option.mem_def.mp named] using noWildcard
    have defined : ¬ (c.node? near.name).isNone = true := by
      rw [Option.isNone_iff_eq_none]
      exact Option.isSome_iff_ne_none.mp (anchored notWritten)
    rw [if_neg defined, notWritten]
    simp only [linksToward_eq agree]

theorem spreadHop_eq (agree : c.Consistent) {branches : List Alternative}
    (anchored : ∀ branch ∈ branches, written? (branch.endOf start) hop = none →
      (c.node? (branch.endOf start).name).isSome = true) :
    spreadHop c start hop branches = .ok
      ⟨branches.flatMap fun branch =>
        (linksFrom c (branch.endOf start) hop).map fun link => branch ++ [link],
       branches.filter fun branch => linksFrom c (branch.endOf start) hop = []⟩ := by
  induction branches with
  | nil => rfl
  | cons branch rest ih =>
      have here := successors_eq agree (anchored branch List.mem_cons_self)
      have others := ih fun branch inside => anchored branch (List.mem_cons_of_mem _ inside)
      rw [spreadHop, List.flatMap_cons, List.filter_cons]
      refine Outcome.bind_eq_ok_iff.mpr ⟨_, here, Outcome.bind_eq_ok_iff.mpr ⟨_, others, ?_⟩⟩
      by_cases stops : linksFrom c (branch.endOf start) hop = []
      · simp only [stops, List.isEmpty_nil, if_true, decide_true, List.map_nil, List.nil_append]
        rfl
      · have goesOn : ¬ (linksFrom c (branch.endOf start) hop).isEmpty = true := by simpa using stops
        rw [if_neg goesOn, if_neg (by simpa using stops)]
        rfl

/-- The walks over the hops passed so far are led over all that are to come. -/
theorem spread_eq (agree : c.Consistent) {hops : List Hop} (passed : List Hop)
    (anchored : ∀ next ∈ hops.zipIdx passed.length,
      ∀ walk ∈ walks c start ((passed ++ hops).take next.2),
        written? (walk.endOf start) next.1 = none → (c.node? (walk.endOf start).name).isSome = true) :
    spread c start hops (walks c start passed) = .ok
      ⟨walks c start (passed ++ hops),
       (hops.zipIdx passed.length).flatMap fun next =>
        (walks c start ((passed ++ hops).take next.2)).filter fun walk =>
          linksFrom c (walk.endOf start) next.1 = []⟩ := by
  induction hops generalizing passed with
  | nil => simp [spread]
  | cons hop hops ih =>
      have passedTo : (passed ++ hop :: hops).take passed.length = passed := List.take_left
      have shift : passed ++ hop :: hops = (passed ++ [hop]) ++ hops := by simp
      have size : (passed ++ [hop]).length = passed.length + 1 := List.length_append
      rw [List.zipIdx_cons, List.forall_mem_cons, passedTo, shift, ← size] at anchored
      have here := spreadHop_eq agree anchored.1
      rw [← walks_append_singleton] at here
      have later := ih (passed ++ [hop]) anchored.2
      rw [spread, List.zipIdx_cons, List.flatMap_cons, passedTo, shift, ← size]
      refine Outcome.bind_eq_ok_iff.mpr ⟨_, here, ?_⟩
      exact Outcome.bind_eq_ok_iff.mpr ⟨_, later, rfl⟩

theorem walks_not_empty {hops : List Hop} (moves : hops ≠ []) :
    (walks c start hops).filter (fun walk => !walk.isEmpty) = walks c start hops := by
  refine List.filter_eq_self.mpr fun walk inside => ?_
  have size := length_of_mem_walks inside
  cases walk with
  | nil => exact absurd (List.length_eq_zero_iff.mp size.symm) moves
  | cons link rest => rfl

theorem deadEnds_eq_filter (hops : List Hop) : deadEnds c start hops =
    (hops.zipIdx.flatMap fun next => (walks c start (hops.take next.2)).filter fun walk =>
      linksFrom c (walk.endOf start) next.1 = []).filter fun walk => !walk.isEmpty := by
  rw [deadEnds, List.filter_flatMap]
  congr 1
  funext next
  rw [List.filter_filter]
  refine List.filter_congr fun walk _ => ?_
  cases walk with
  | nil => simp
  | cons link rest => simp

theorem alternativesOf_eq (agree : c.Consistent) {route : Route} (anchored : Anchored c route)
    (moves : route.hops ≠ []) : alternativesOf c route = .ok (ways c route) := by
  have expanded : spread c route.start route.hops [[]] = _ := spread_eq agree [] anchored
  refine Outcome.bind_eq_ok_iff.mpr ⟨_, expanded, Outcome.pure_eq_ok_iff.mpr ?_⟩
  rw [List.nil_append, List.filter_append, walks_not_empty moves, List.length_nil,
    ← deadEnds_eq_filter, ways]

/-- A chain that can be scanned, meets no type that is not defined and has no label for two
    names stands for each walk of its route once, then for each dead end. -/
theorem ofText?_eq_ways {text : String} {route : Route} (reached : c.Reached)
    (scanned : Route.ofText text = .ok route) (anchored : Anchored c route)
    (agree : LabelsAgree (termsOf (ways c route))) :
    ∃ labels, ofText? c text = .ok (some ⟨ways c route, labels⟩) ∧
      Binds labels (termsOf (ways c route)) ∧ (ways c route).Nodup := by
  obtain ⟨labels, bound, binds⟩ := bindLabels_of_agree agree
  have expanded := alternativesOf_eq reached.consistent anchored (hops_ne_nil scanned)
  have whole : ofRoute c route = .ok ⟨ways c route, labels⟩ := by
    refine Outcome.bind_eq_ok_iff.mpr ⟨_, expanded, ?_⟩
    exact Outcome.bind_eq_ok_iff.mpr ⟨labels, bound, rfl⟩
  refine ⟨labels, ?_, binds, nodup_ways c route⟩
  have notBlank : ¬ Text.isBlankText text = true := by simp [not_blank_of_route scanned]
  rw [ofText?, if_neg notBlank]
  refine Outcome.bind_eq_ok_iff.mpr ⟨route, scanned, ?_⟩
  exact Outcome.bind_eq_ok_iff.mpr ⟨_, whole, rfl⟩

/-- Persons may know each other and own cars. -/
def townsfolk : Except CatalogError Catalog :=
  Catalog.ofDocument {
    nodes := .ofList [("Car", {}), ("Person", {})]
    events := .ofList [("KNOWS", .ofList [("Person", .ofList [("Person", {})])]),
      ("OWNS", .ofList [("Person", .ofList [("Car", {})])])] }

/-- Acquaintance goes both ways, and a car owns nothing. -/
theorem ways_townsfolk : ∃ c chain, townsfolk = .ok c ∧
    ofText? c "Person-*-*-OWNS>c:*" = .ok (some chain) ∧
    chain.alternatives.map (List.map Link.text) =
      [["Person-KNOWS>Person", "Person-OWNS>c:Car"], ["Person<KNOWS-Person", "Person-OWNS>c:Car"],
        ["Person-OWNS>Car"]] := by
  have loaded : townsfolk = .ok (townsfolk.toOption.getD .empty) := by decide +kernel
  have scanned : Route.ofText "Person-*-*-OWNS>c:*" = .ok
      ⟨⟨some "Person", "Person"⟩, [⟨⟨none, "*"⟩, ⟨none, "*"⟩, none⟩,
        ⟨⟨some "OWNS", "OWNS"⟩, ⟨some "c", "*"⟩, some .fromLeft⟩]⟩ := by decide +kernel
  obtain ⟨labels, expanded, _⟩ := ofText?_eq_ways (Catalog.reached_ofDocument loaded) scanned
    (by decide +kernel) (by decide +kernel)
  refine ⟨_, _, loaded, expanded, ?_⟩
  change (ways _ _).map _ = _
  decide +kernel

end SchemaGraph.Chain
