import Mathlib.Data.List.Nodup
import SchemaGraph.Chain.Basic
import SchemaGraph.Proofs.Collections.Order

/-! # Walks

What a route means in a catalog, told without levels of alternatives: from each node the
links that a hop allows, from a start the walks over all hops, and the dead ends among the
walks over some of them. No walk is listed twice.
-/

namespace SchemaGraph.Chain

/-- The type at the end of an event type where a hop in the direction starts. -/
def nearType (key : EventKey) : Direction → String
  | .fromLeft => key.left
  | .fromRight => key.right

/-- The type at the end to which a hop in the direction leads. -/
def farType (key : EventKey) : Direction → String
  | .fromLeft => key.right
  | .fromRight => key.left

/-- An event type leads over the hop from the node in the direction. -/
def Fits (near : Term) (hop : Hop) (direction : Direction) (key : EventKey) : Prop :=
  (hop.direction = none ∨ hop.direction = some direction) ∧ nearType key direction = near.name ∧
    (hop.event.name = wildcard ∨ hop.event.name = key.event) ∧
    (hop.far.name = wildcard ∨ hop.far.name = farType key direction)

instance (near : Term) (hop : Hop) (direction : Direction) (key : EventKey) :
    Decidable (Fits near hop direction key) := by
  unfold Fits
  infer_instance

/-- The link over an event type, under the labels of the hop. -/
def linkAlong (near : Term) (hop : Hop) (direction : Direction) (key : EventKey) : Link :=
  ⟨near, { hop.event with name := key.event }, { hop.far with name := farType key direction },
    direction⟩

/-- The links over all event types of a catalog that fit, in their order. -/
def linksAlong (c : Catalog) (near : Term) (hop : Hop) (direction : Direction) : List Link :=
  (c.events.keys.filter fun key => Fits near hop direction key).map (linkAlong near hop direction)

/-- The only link of a hop that names its event, its far node and its direction. -/
def written? (near : Term) (hop : Hop) : Option Link :=
  if hop.event.name = wildcard ∨ hop.far.name = wildcard then none
  else hop.direction.map fun direction => ⟨near, hop.event, hop.far, direction⟩

/-- The links by which a hop leads on from a node; those that start at the left end of their
    event come first. -/
def linksFrom (c : Catalog) (near : Term) (hop : Hop) : List Link :=
  match written? near hop with
  | some link => [link]
  | none => linksAlong c near hop .fromLeft ++ linksAlong c near hop .fromRight

/-- A walk takes for each hop a link from the node where it has come to. -/
inductive IsWalk (c : Catalog) : Term → List Hop → Alternative → Prop
  | stop (near : Term) : IsWalk c near [] []
  | go {near : Term} {hop : Hop} {hops : List Hop} {link : Link} {walk : Alternative} :
      link ∈ linksFrom c near hop → IsWalk c link.far hops walk →
        IsWalk c near (hop :: hops) (link :: walk)

/-- The walks over all the hops, in the order of their first links, then of their second. -/
def walks (c : Catalog) (near : Term) : List Hop → List Alternative
  | [] => [[]]
  | hop :: hops =>
      (linksFrom c near hop).flatMap fun link => (walks c link.far hops).map (link :: ·)

/-- The walks over some of the hops that have a link, but none for the next hop; those that
    stop earlier come first. -/
def deadEnds (c : Catalog) (start : Term) (hops : List Hop) : List Alternative :=
  hops.zipIdx.flatMap fun next =>
    (walks c start (hops.take next.2)).filter fun walk =>
      walk ≠ [] ∧ linksFrom c (walk.endOf start) next.1 = []

/-- All alternatives of a route. -/
def ways (c : Catalog) (route : Route) : List Alternative :=
  walks c route.start route.hops ++ deadEnds c route.start route.hops

/-- Wherever a hop is looked up in the catalog, the type it starts from is defined. -/
def Anchored (c : Catalog) (route : Route) : Prop :=
  ∀ next ∈ route.hops.zipIdx, ∀ walk ∈ walks c route.start (route.hops.take next.2),
    written? (walk.endOf route.start) next.1 = none →
      (c.node? (walk.endOf route.start).name).isSome = true

instance (c : Catalog) (route : Route) : Decidable (Anchored c route) := by
  unfold Anchored
  infer_instance

variable {c : Catalog} {near start : Term} {hop : Hop} {hops passed : List Hop}

/-! ## Membership -/

/-- From a node, the catalog gives exactly the links over its fitting event types. -/
theorem mem_linksFrom {link : Link} (lookedUp : written? near hop = none) :
    link ∈ linksFrom c near hop ↔ ∃ direction key,
      c.events.contains key = true ∧ Fits near hop direction key ∧
        link = linkAlong near hop direction key := by
  simp only [linksFrom, lookedUp, linksAlong, List.mem_append, List.mem_map, List.mem_filter,
    decide_eq_true_eq, SortedMap.mem_keys_iff]
  constructor
  · rintro (⟨key, ⟨held, fits⟩, rfl⟩ | ⟨key, ⟨held, fits⟩, rfl⟩)
    · exact ⟨.fromLeft, key, held, fits, rfl⟩
    · exact ⟨.fromRight, key, held, fits, rfl⟩
  · rintro ⟨direction, key, held, fits, rfl⟩
    cases direction with
    | fromLeft => exact Or.inl ⟨key, ⟨held, fits⟩, rfl⟩
    | fromRight => exact Or.inr ⟨key, ⟨held, fits⟩, rfl⟩

theorem mem_walks_iff {walk : Alternative} :
    walk ∈ walks c near hops ↔ IsWalk c near hops walk := by
  induction hops generalizing near walk with
  | nil =>
      rw [walks, List.mem_singleton]
      constructor
      · rintro rfl
        exact .stop near
      · intro h
        cases h
        rfl
  | cons hop hops ih =>
      rw [walks, List.mem_flatMap]
      constructor
      · rintro ⟨link, here, onward⟩
        obtain ⟨rest, insideRest, rfl⟩ := List.mem_map.mp onward
        exact .go here (ih.mp insideRest)
      · intro h
        cases h with
        | go here later => exact ⟨_, here, List.mem_map_of_mem (ih.mpr later)⟩

theorem length_of_mem_walks {walk : Alternative} (inside : walk ∈ walks c near hops) :
    walk.length = hops.length := by
  induction hops generalizing near walk with
  | nil =>
      rw [List.mem_singleton.mp inside]
      rfl
  | cons hop hops ih =>
      obtain ⟨link, _, onward⟩ := List.mem_flatMap.mp inside
      obtain ⟨rest, insideRest, rfl⟩ := List.mem_map.mp onward
      rw [List.length_cons, List.length_cons, ih insideRest]

theorem place_of_mem_zipIdx {next : Hop × Nat} (listed : next ∈ hops.zipIdx) :
    next.2 < hops.length := by
  obtain ⟨place, _⟩ := List.getElem?_eq_some_iff.mp (List.mem_zipIdx_iff_getElem?.mp listed)
  exact place

theorem length_of_mem_walks_take {next : Hop × Nat} {walk : Alternative}
    (listed : next ∈ hops.zipIdx) (inside : walk ∈ walks c near (hops.take next.2)) :
    walk.length = next.2 := by
  have place := place_of_mem_zipIdx listed
  rw [length_of_mem_walks inside, List.length_take]
  omega

theorem length_of_mem_deadEnds {walk : Alternative} (inside : walk ∈ deadEnds c start hops) :
    walk.length < hops.length := by
  obtain ⟨next, listed, stops⟩ := List.mem_flatMap.mp inside
  rw [length_of_mem_walks_take listed (List.mem_filter.mp stops).1]
  exact place_of_mem_zipIdx listed

/-! ## Going on by one hop -/

@[simp] theorem endOf_nil : Alternative.endOf start [] = start := rfl

@[simp] theorem endOf_cons (link : Link) (walk : Alternative) :
    Alternative.endOf start (link :: walk) = walk.endOf link.far := by
  cases walk with
  | nil => rfl
  | cons next rest => rfl

theorem walks_append_singleton : walks c near (hops ++ [hop]) =
    (walks c near hops).flatMap fun walk =>
      (linksFrom c (Alternative.endOf near walk) hop).map fun link => walk ++ [link] := by
  induction hops generalizing near with
  | nil => simp [walks, List.map_eq_flatMap]
  | cons first hops ih =>
      rw [List.cons_append, walks, walks, List.flatMap_assoc]
      congr 1
      funext link
      rw [ih, List.map_flatMap, List.flatMap_map]
      simp only [List.map_map, Function.comp_def, endOf_cons, List.cons_append]

/-! ## No walk twice -/

theorem linkAlong_injective {direction : Direction} {key other : EventKey}
    (fits : Fits near hop direction key) (otherFits : Fits near hop direction other)
    (same : linkAlong near hop direction key = linkAlong near hop direction other) :
    key = other := by
  obtain ⟨_, fromNear, _⟩ := fits
  obtain ⟨_, otherFromNear, _⟩ := otherFits
  have sameNear := fromNear.trans otherFromNear.symm
  simp only [linkAlong, Link.mk.injEq, Term.mk.injEq, true_and, and_true] at same
  obtain ⟨sameEvent, sameFar⟩ := same
  cases key
  cases other
  cases direction with
  | fromLeft => exact EventKey.mk.injEq .. ▸ ⟨sameEvent, sameNear, sameFar⟩
  | fromRight => exact EventKey.mk.injEq .. ▸ ⟨sameEvent, sameFar, sameNear⟩

theorem nodup_linksAlong (direction : Direction) : (linksAlong c near hop direction).Nodup := by
  have distinct := c.events.keys_distinct.filter fun key => decide (Fits near hop direction key)
  refine distinct.map_on fun key inside other insideToo same => ?_
  have fits := of_decide_eq_true (List.mem_filter.mp inside).2
  have otherFits := of_decide_eq_true (List.mem_filter.mp insideToo).2
  exact linkAlong_injective fits otherFits same

theorem direction_of_mem_linksAlong {direction : Direction} {link : Link}
    (inside : link ∈ linksAlong c near hop direction) : link.direction = direction := by
  obtain ⟨key, _, rfl⟩ := List.mem_map.mp inside
  rfl

theorem nodup_linksFrom : (linksFrom c near hop).Nodup := by
  rw [linksFrom]
  split
  · exact List.nodup_singleton _
  · refine (nodup_linksAlong _).append (nodup_linksAlong _) fun link left right => ?_
    have both := (direction_of_mem_linksAlong left).symm.trans (direction_of_mem_linksAlong right)
    exact Direction.noConfusion both

theorem nodup_walks : (walks c near hops).Nodup := by
  induction hops generalizing near with
  | nil => exact List.nodup_singleton _
  | cons hop hops ih =>
      refine List.nodup_flatMap.mpr ⟨fun link _ => ih.map List.cons_injective, ?_⟩
      refine nodup_linksFrom.imp fun {one other} different => ?_
      intro walk fromOne fromOther
      obtain ⟨rest, _, rfl⟩ := List.mem_map.mp fromOne
      obtain ⟨_, _, same⟩ := List.mem_map.mp fromOther
      exact different (List.cons.inj same).1.symm

/-- Dead ends before different hops have different lengths. -/
theorem nodup_deadEnds : (deadEnds c start hops).Nodup := by
  refine List.nodup_flatMap.mpr ⟨fun next _ => nodup_walks.filter _, ?_⟩
  refine (pairwise_zipIdx hops 0).imp_of_mem fun {one other} listed listedToo below => ?_
  intro walk first second
  have place := length_of_mem_walks_take listed (List.mem_filter.mp first).1
  rw [length_of_mem_walks_take listedToo (List.mem_filter.mp second).1] at place
  omega

/-- All alternatives of a route are different. -/
theorem nodup_ways (c : Catalog) (route : Route) : (ways c route).Nodup := by
  refine nodup_walks.append nodup_deadEnds fun walk whole stopped => ?_
  have short := length_of_mem_deadEnds stopped
  rw [length_of_mem_walks whole] at short
  exact Nat.lt_irrefl _ short

end SchemaGraph.Chain
