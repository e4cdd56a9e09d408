import Mathlib.Data.List.Basic
import SchemaGraph.Chain.Associate
import SchemaGraph.Proofs.Chain.Binding

/-! # Properties named after types

The associated property of a unique index is named after the type that its chain first leads to.
That type is written in the chain or joined by an event type of the catalog. The property tells it
again, unless the type has no name or one over several lines.
-/

namespace SchemaGraph.Chain

/-- A type name that its property tells: it has a character, and none is a line feed. -/
def Told (type : String) : Prop := type ≠ "" ∧ '\n' ∉ type.toList

instance (type : String) : Decidable (Told type) :=
  inferInstanceAs (Decidable (_ ∧ _))

/-- The link that a unique index leads by: its only chain is one in the catalog, and the first
    alternative of that starts with the link. -/
def LeadsBy (c : Catalog) (uniqueIndex : List String) (link : Link) : Prop :=
  ∃ text chain onward others, uniqueIndex.filter hasMarker = [text] ∧
    ofText? c text = .ok (some chain) ∧ chain.alternatives = (link :: onward) :: others

/-- An event type of the catalog has the type at one of its ends. -/
def Joined (c : Catalog) (type : String) : Prop :=
  ∃ node, ∃ d ∈ c.incidentTo node, type = d.key.left ∨ type = d.key.right

variable {c : Catalog} {uniqueIndex : List String} {property type : String}

/-! ## Types that links lead to -/

theorem joined_of_linksToward {node : String} {near : Term} {hop : Hop} {direction : Direction}
    {link : Link} (inside : link ∈ linksToward (c.incidentTo node) near hop direction) :
    Joined c link.far.name := by
  rw [linksToward] at inside
  split at inside
  · obtain ⟨d, incident, isLink⟩ := List.mem_filterMap.mp inside
    simp only [linkOver?, Option.ite_none_right_eq_some, Option.some_inj] at isLink
    obtain ⟨_, rfl⟩ := isLink
    cases direction with
    | fromLeft => exact ⟨node, d, incident, Or.inr rfl⟩
    | fromRight => exact ⟨node, d, incident, Or.inl rfl⟩
  · cases inside

theorem far_of_successors {near : Term} {hop : Hop} {links : List Link}
    (found : successors c near hop = .ok links) {link : Link} (inside : link ∈ links) :
    (hop.far.name ≠ wildcard ∧ link.far.name = hop.far.name) ∨ Joined c link.far.name := by
  rw [successors] at found
  split at found
  · rename_i direction concrete named
    cases found
    rw [List.mem_singleton.mp inside]
    exact Or.inl ⟨far_ne_wildcard concrete, rfl⟩
  · split at found
    · cases found
    · cases found
      rcases List.mem_append.mp inside with fromLeft | fromRight
      · exact Or.inr (joined_of_linksToward fromLeft)
      · exact Or.inr (joined_of_linksToward fromRight)

/-- Each of the links leads to a type that one of the hops names, or to one that is looked up. -/
def LeadsAsWritten (c : Catalog) (hops : List Hop) (links : Alternative) : Prop :=
  ∀ link ∈ links, (∃ hop ∈ hops, hop.far.name ≠ wildcard ∧ link.far.name = hop.far.name) ∨
    Joined c link.far.name

theorem LeadsAsWritten.onto {hops hops' : List Hop} {links : Alternative}
    (h : LeadsAsWritten c hops links) (more : hops ⊆ hops') : LeadsAsWritten c hops' links := by
  intro link inside
  refine (h link inside).imp_left ?_
  rintro ⟨hop, known, isWritten⟩
  exact ⟨hop, more known, isWritten⟩

theorem LeadsAsWritten.go {start : Term} {hops : List Hop} {hop : Hop} {branch : Alternative}
    {links : List Link} {link : Link} (h : LeadsAsWritten c hops branch)
    (found : successors c (branch.endOf start) hop = .ok links) (inside : link ∈ links) :
    LeadsAsWritten c (hops ++ [hop]) (branch ++ [link]) := by
  intro other listed
  rcases List.mem_append.mp listed with earlier | last
  · exact h.onto (List.subset_append_left _ _) other earlier
  · rw [List.mem_singleton.mp last]
    refine (far_of_successors found inside).imp_left fun isWritten => ?_
    exact ⟨hop, List.mem_append_right _ List.mem_cons_self, isWritten⟩

theorem leadsAsWritten_of_alternativesOf {route : Route} {alternatives : List Alternative}
    (expanded : alternativesOf c route = .ok alternatives) {links : Alternative}
    (inside : links ∈ alternatives) : LeadsAsWritten c route.hops links := by
  obtain ⟨s, done, whole⟩ := Outcome.bind_eq_ok_iff.mp expanded
  rw [← Outcome.pure_eq_ok_iff.mp whole] at inside
  have first : ∀ branch ∈ ([[]] : List Alternative), LeadsAsWritten c [] branch := by
    simp [LeadsAsWritten]
  obtain ⟨front, isFront, asWritten⟩ :=
    spread_keeps LeadsAsWritten.go first done links (List.mem_filter.mp inside).1
  exact asWritten.onto isFront.subset

theorem exists_route {text : String} {chain : Chain}
    (read : ofText? c text = .ok (some chain)) : ∃ route, Route.ofText text = .ok route ∧
      alternativesOf c route = .ok chain.alternatives := by
  rw [ofText?] at read
  split at read
  · cases read
  · obtain ⟨route, scanned, read⟩ := Outcome.bind_eq_ok_iff.mp read
    obtain ⟨_, built, whole⟩ := Outcome.bind_eq_ok_iff.mp read
    cases whole
    obtain ⟨alternatives, expanded, built⟩ := Outcome.bind_eq_ok_iff.mp built
    obtain ⟨labels, _, whole⟩ := Outcome.bind_eq_ok_iff.mp built
    cases whole
    exact ⟨route, scanned, expanded⟩

theorem far_of_text {text : String} {chain : Chain} (read : ofText? c text = .ok (some chain))
    {links : Alternative} (inside : links ∈ chain.alternatives) {link : Link}
    (listed : link ∈ links) : IsName link.far.name ∨ Joined c link.far.name := by
  obtain ⟨route, scanned, expanded⟩ := exists_route read
  refine (leadsAsWritten_of_alternativesOf expanded inside link listed).imp_left ?_
  rintro ⟨hop, known, notWildcard, isWritten⟩
  obtain ⟨s, written⟩ := exists_sentence scanned
  obtain ⟨_, rfl⟩ := route_of_sentence written scanned
  obtain ⟨h, _, rfl⟩ := List.mem_map.mp known
  have same : h.far.name = h.hop.far.name := h.far.name_term.symm
  rw [isWritten, ← same]
  exact h.far.named.resolve_left (same ▸ notWildcard)

/-! ## From a type to its property -/

theorem head_link_eq_some_iff {alternatives : List Alternative} {link : Link} :
    alternatives.head?.bind List.head? = some link ↔
      ∃ onward others, alternatives = (link :: onward) :: others := by
  constructor
  · intro found
    obtain ⟨first, isFirst, starts⟩ := Option.bind_eq_some_iff.mp found
    obtain ⟨others, rfl⟩ := List.head?_eq_some_iff.mp isFirst
    obtain ⟨onward, rfl⟩ := List.head?_eq_some_iff.mp starts
    exact ⟨onward, others, rfl⟩
  · rintro ⟨onward, others, rfl⟩
    rfl

/-- A unique index has an associated property exactly when it leads by some link, and this is the
    property of the type at the far end. -/
theorem associatedProperty?_eq_some_iff :
    associatedProperty? c uniqueIndex = .ok (some property) ↔
      ∃ link, LeadsBy c uniqueIndex link ∧ property = associatedProperty link.far.name := by
  unfold associatedProperty? LeadsBy
  split
  · rename_i noChain
    simp [noChain]
  · rename_i text extra rest several
    simp [several]
  · rename_i text single
    constructor
    · intro named
      obtain ⟨found, read, named⟩ := Outcome.bind_eq_ok_iff.mp named
      cases found with
      | none => cases named
      | some chain =>
          dsimp only at named
          split at named
          · rename_i link first
            obtain ⟨onward, others, shape⟩ := head_link_eq_some_iff.mp first
            cases named
            exact ⟨link, ⟨text, chain, onward, others, single, read, shape⟩, rfl⟩
          · cases named
    · rintro ⟨link, ⟨only, chain, onward, others, isOnly, read, shape⟩, rfl⟩
      obtain rfl : text = only := List.singleton_inj.mp (single.symm.trans isOnly)
      refine Outcome.bind_eq_ok_iff.mpr ⟨_, read, ?_⟩
      dsimp only
      rw [head_link_eq_some_iff.mpr ⟨onward, others, shape⟩]
      rfl

/-! ## From a property to its type -/

theorem toList_associatedProperty (type : String) : (associatedProperty type).toList =
    "unique".toList ++ (type.toList ++ "Id".toList) := by
  simp only [associatedProperty, String.toList_append, List.append_assoc]

theorem associatedProperty_injective {other : String}
    (same : associatedProperty type = associatedProperty other) : type = other := by
  rw [← String.toList_inj, toList_associatedProperty, toList_associatedProperty] at same
  exact String.toList_inj.mp (List.append_cancel_right (List.append_cancel_left same))

theorem associatedType?_eq_some_iff :
    associatedType? property = some type ↔ property = associatedProperty type ∧ Told type := by
  constructor
  · intro told
    obtain ⟨rest, opened, told⟩ := Option.bind_eq_some_iff.mp told
    obtain ⟨middle, closed, told⟩ := Option.bind_eq_some_iff.mp told
    rw [List.isPrefixOf?_eq_some_iff_append_eq] at opened
    rw [List.isSuffixOf?_eq_some_iff_append_eq] at closed
    split at told
    · cases told
    · rename_i clean
      cases told
      refine ⟨String.toList_inj.mp ?_, ?_⟩
      · have letters : (String.ofList middle).toList = middle := String.toList_ofList
        rw [toList_associatedProperty, letters, closed, opened]
      · simpa [Told] using clean
  · rintro ⟨rfl, named, oneLine⟩
    have opened := List.isPrefixOf?_eq_some_iff_append_eq.mpr (toList_associatedProperty type).symm
    have closed : "Id".toList.isSuffixOf? (type.toList ++ "Id".toList) = some type.toList :=
      List.isSuffixOf?_eq_some_iff_append_eq.mpr rfl
    have clean : ¬ (type.toList.isEmpty || type.toList.contains '\n') = true := by
      simpa using ⟨named, oneLine⟩
    refine Option.bind_eq_some_iff.mpr ⟨_, opened, ?_⟩
    refine Option.bind_eq_some_iff.mpr ⟨_, closed, ?_⟩
    rw [if_neg clean, String.ofList_toList]

theorem associatedNode?_associatedProperty (c : Catalog) (type : String) :
    associatedNode? c (associatedProperty type) = if Told type then c.node? type else none := by
  rw [associatedNode?]
  split
  · rename_i told
    rw [associatedType?_eq_some_iff.mpr ⟨rfl, told⟩, Option.bind_some]
  · rename_i notTold
    rw [Option.bind_eq_none_iff]
    intro other isOther
    obtain ⟨same, told⟩ := associatedType?_eq_some_iff.mp isOther
    exact absurd (associatedProperty_injective same ▸ told) notTold

theorem isAssociated_associatedProperty {d : NodeDefinition} (defined : c.node? type = some d) :
    isAssociated c (associatedProperty type) = true ↔ Told type := by
  rw [isAssociated, associatedNode?_associatedProperty, defined]
  split
  · rename_i told
    exact iff_of_true rfl told
  · rename_i notTold
    exact iff_of_false Bool.false_ne_true notTold

/-- The associated property of a unique index is named after the type at the far end of the link
    that the index leads by, which is one that a text can name or that an event type joins. If
    that type is defined, the property leads back to exactly its definition, and counts as one that
    does, unless the name of the type is empty or has a line feed; then it leads to none at all. -/
theorem leads_back_iff (named : associatedProperty? c uniqueIndex = .ok (some property)) :
    ∃ link, LeadsBy c uniqueIndex link ∧ (IsName link.far.name ∨ Joined c link.far.name) ∧
      property = "unique" ++ link.far.name ++ "Id" ∧ ∀ d, c.node? link.far.name = some d →
        associatedNode? c property = (if Told link.far.name then some d else none) ∧
          (isAssociated c property = true ↔ Told link.far.name) := by
  obtain ⟨link, leads, rfl⟩ := associatedProperty?_eq_some_iff.mp named
  have origin : IsName link.far.name ∨ Joined c link.far.name := by
    obtain ⟨text, chain, onward, others, _, read, shape⟩ := leads
    exact far_of_text read (shape ▸ List.mem_cons_self) List.mem_cons_self
  refine ⟨link, leads, origin, rfl, fun d defined => ⟨?_, isAssociated_associatedProperty defined⟩⟩
  rw [associatedNode?_associatedProperty, defined]

/-- Accounts are held by persons, and by traders whose type has a name over two lines. -/
def bank : Except CatalogError Catalog :=
  Catalog.ofDocument {
    nodes := .ofList [("Account", {}), ("Person", {}), ("Sole\nTrader", {})]
    events := .ofList
      [("HELD_BY", .ofList [("Account", .ofList [("Person", {}), ("Sole\nTrader", {})])])] }

/-- Of those who hold accounts, persons come first, and the property leads back to their type. -/
theorem holder_leads_back : ∃ c d, bank = .ok c ∧
    associatedProperty? c ["number", "Account-*-*"] = .ok (some "uniquePersonId") ∧
    c.node? "Person" = some d ∧ associatedNode? c "uniquePersonId" = some d := by
  have loaded : bank = .ok (bank.toOption.getD .empty) := by decide +kernel
  have named : associatedProperty? (bank.toOption.getD .empty) ["number", "Account-*-*"] =
      .ok (some "uniquePersonId") := by decide +kernel
  have isDefined : ((bank.toOption.getD .empty).node? "Person").isSome = true := by decide +kernel
  obtain ⟨d, defined⟩ := Option.isSome_iff_exists.mp isDefined
  obtain ⟨link, _, _, isProperty, back⟩ := leads_back_iff named
  have isPerson : "Person" = link.far.name := associatedProperty_injective isProperty
  rw [← isPerson] at back
  exact ⟨_, d, loaded, named, defined, (back d defined).1.trans (if_pos (by decide +kernel))⟩

/-- A chain leads to the traders, but their property leads nowhere. -/
theorem trader_not_found : ∃ c, bank = .ok c ∧
    associatedProperty? c ["Account-HELD_BY>Sole\nTrader"] = .ok (some "uniqueSole\nTraderId") ∧
    (c.node? "Sole\nTrader").isSome = true ∧
    associatedNode? c "uniqueSole\nTraderId" = none ∧
    isAssociated c "uniqueSole\nTraderId" = false := by
  have loaded : bank = .ok (bank.toOption.getD .empty) := by decide +kernel
  exact ⟨_, loaded, by decide +kernel⟩

end SchemaGraph.Chain
