import SchemaGraph.Schema.Registry

/-! # Guarded registries

Whatever is asked of a registry, its catalog only changes to a candidate that every listener
has let pass. A listener that refuses all candidates without some property therefore keeps
this property for good.
-/

namespace SchemaGraph

def Listener.Accepts (listener : Listener) (change : Change) (candidate : Catalog) : Prop :=
  (listener change candidate).refusal = none

/-- What the listeners note on a change, in their order. -/
def notesOn (change : Change) (candidate : Catalog) (listeners : List Listener) : List String :=
  listeners.map fun listener => (listener change candidate).note

/-- Among the listeners, all those before this one accept, and this one refuses. -/
structure FirstRefusal (change : Change) (candidate : Catalog)
    (listeners before : List Listener) (listener : Listener) (reason : String) : Prop where
  listed : before ++ [listener] <+: listeners
  accepted : ∀ earlier ∈ before, earlier.Accepts change candidate
  refused : (listener change candidate).refusal = some reason

section Consulting

variable {change : Change} {candidate : Catalog} {listeners before : List Listener}
  {listener : Listener} {reason : String}

theorem consult_cons_of_accepts (accepts : listener.Accepts change candidate)
    (rest : List Listener) : consult change candidate (listener :: rest) =
      ((listener change candidate).note :: (consult change candidate rest).1,
        (consult change candidate rest).2) := by
  rw [Listener.Accepts] at accepts
  simp [consult, accepts]

theorem consult_of_accepted
    (accepted : ∀ listener ∈ listeners, listener.Accepts change candidate) :
    consult change candidate listeners = (notesOn change candidate listeners, none) := by
  induction listeners with
  | nil => rfl
  | cons listener rest ih =>
      obtain ⟨here, later⟩ := List.forall_mem_cons.mp accepted
      rw [consult_cons_of_accepts here, ih later]
      rfl

theorem consult_of_firstRefusal
    (h : FirstRefusal change candidate listeners before listener reason) :
    consult change candidate listeners =
      (notesOn change candidate (before ++ [listener]), some reason) := by
  obtain ⟨⟨behind, rfl⟩, accepted, refused⟩ := h
  induction before with
  | nil => simp [consult, notesOn, refused]
  | cons earlier rest ih =>
      obtain ⟨here, later⟩ := List.forall_mem_cons.mp accepted
      rw [List.cons_append, List.cons_append, consult_cons_of_accepts here, ih later]
      rfl

/-- Either nobody refuses or somebody is the first who does. -/
theorem accepted_or_firstRefusal (change : Change) (candidate : Catalog)
    (listeners : List Listener) :
    (∀ listener ∈ listeners, listener.Accepts change candidate) ∨
      ∃ before listener reason, FirstRefusal change candidate listeners before listener reason := by
  induction listeners with
  | nil => exact Or.inl (by simp)
  | cons head rest ih =>
      cases answer : (head change candidate).refusal with
      | some reason =>
          exact Or.inr ⟨[], head, reason, ⟨rest, rfl⟩, by simp, answer⟩
      | none =>
          rcases ih with accepted | ⟨before, listener, reason, ⟨listed, accepted, refused⟩⟩
          · exact Or.inl (List.forall_mem_cons.mpr ⟨answer, accepted⟩)
          · exact Or.inr ⟨head :: before, listener, reason,
              List.prefix_cons_inj head |>.mpr listed,
              List.forall_mem_cons.mpr ⟨answer, accepted⟩, refused⟩

end Consulting

/-- The outcome with its answer seen as something else. -/
def Outcome.map {α β : Type} (f : α → β) (o : Outcome α) : Outcome β :=
  ⟨o.answer.map f, o.registry, o.notes⟩

namespace Registry

/-! ## Calls -/

/-- What a registry answers when it makes a change. -/
inductive Answer where
  | done
  | node (removed : Option NodeDefinition)
  | event (removed : Option EventDefinition)
  | catalog (previous : Catalog)
  deriving DecidableEq

/-- What may be asked of a registry. -/
inductive Call where
  | putNode (d : NodeDefinition) (overwrite : Bool)
  | putEvent (d : EventDefinition) (overwrite : Bool)
  | removeNode (name : String)
  | removeEvent (key : EventKey)
  | reload (c : Catalog)

namespace Call

def run (r : Registry) : Call → Outcome Answer
  | putNode d overwrite => (r.putNode d overwrite).map fun _ => .done
  | putEvent d overwrite => (r.putEvent d overwrite).map fun _ => .done
  | removeNode name => (r.removeNode name).map .node
  | removeEvent key => (r.removeEvent key).map .event
  | reload c => (r.reload c).map .catalog

/-- The change that listeners are told of. -/
def change : Call → Change
  | putNode d _ => .putNode d.name
  | putEvent d _ => .putEvent d.key
  | removeNode name => .removeNode name
  | removeEvent key => .removeEvent key
  | reload _ => .reload

/-- The answer and the candidate that the operation on the current catalog gives. -/
def workedOut (current : Catalog) : Call → Except CatalogError (Answer × Catalog)
  | putNode d overwrite => (current.putNode d overwrite).map (Answer.done, ·)
  | putEvent d overwrite => (current.putEvent d overwrite).map (Answer.done, ·)
  | removeNode name => .ok ((current.removeNode name).map .node id)
  | removeEvent key => .ok ((current.removeEvent key).map .event id)
  | reload c => .ok (.catalog current, c)

end Call

variable {r : Registry} {call : Call} {calls : List Call}

theorem map_settle {α β : Type} (f : α → β) (change : Change)
    (workedOut : Except CatalogError (α × Catalog)) :
    (r.settle change workedOut).map f = r.settle change (workedOut.map (Prod.map f id)) := by
  cases workedOut with
  | error cause => rfl
  | ok result =>
      obtain ⟨answer, candidate⟩ := result
      simp only [settle, Except.map, Prod.map, id]
      cases consult change candidate r.listeners with
      | mk notes refusal => cases refusal <;> rfl

theorem Call.run_eq (r : Registry) (call : Call) :
    call.run r = r.settle call.change (call.workedOut r.current) := by
  cases call with
  | putNode d overwrite =>
      rw [run, Registry.putNode, map_settle, workedOut]
      cases r.current.putNode d overwrite <;> rfl
  | putEvent d overwrite =>
      rw [run, Registry.putEvent, map_settle, workedOut]
      cases r.current.putEvent d overwrite <;> rfl
  | removeNode name => exact map_settle _ _ _
  | removeEvent key => exact map_settle _ _ _
  | reload c => exact map_settle _ _ _

theorem Call.run_of_failed {cause : CatalogError}
    (failed : call.workedOut r.current = .error cause) :
    call.run r = ⟨.error (.invalid cause), r, []⟩ := by
  rw [run_eq, failed]
  rfl

section Candidate

variable {answer : Answer} {candidate : Catalog}
  (workedOut : call.workedOut r.current = .ok (answer, candidate))
include workedOut

theorem Call.run_of_accepted
    (accepted : ∀ listener ∈ r.listeners, listener.Accepts call.change candidate) :
    call.run r = ⟨.ok answer, { r with current := candidate },
      notesOn call.change candidate r.listeners⟩ := by
  rw [run_eq, workedOut, settle]
  simp only [consult_of_accepted accepted]

theorem Call.run_of_firstRefusal {before : List Listener} {listener : Listener} {reason : String}
    (refusal : FirstRefusal call.change candidate r.listeners before listener reason) :
    call.run r = ⟨.error (.rejected call.change reason), r,
      notesOn call.change candidate (before ++ [listener])⟩ := by
  rw [run_eq, workedOut, settle]
  simp only [consult_of_firstRefusal refusal]

/-- With a candidate, it is made current when all listeners accept it, and dropped with the
    reason of the first that does not. -/
theorem Call.run_of_candidate :
    (∀ listener ∈ r.listeners, listener.Accepts call.change candidate) ∧
        call.run r = ⟨.ok answer, { r with current := candidate },
          notesOn call.change candidate r.listeners⟩ ∨
      ∃ before listener reason,
        FirstRefusal call.change candidate r.listeners before listener reason ∧
        call.run r = ⟨.error (.rejected call.change reason), r,
          notesOn call.change candidate (before ++ [listener])⟩ := by
  rcases accepted_or_firstRefusal call.change candidate r.listeners with
    accepted | ⟨before, listener, reason, refusal⟩
  · exact Or.inl ⟨accepted, run_of_accepted workedOut accepted⟩
  · exact Or.inr ⟨before, listener, reason, refusal, run_of_firstRefusal workedOut refusal⟩

end Candidate

/-- A call leaves the registry or makes a catalog current that all listeners accept. -/
theorem Call.registry_cases (r : Registry) (call : Call) :
    (call.run r).registry = r ∨
      ∃ candidate, (∀ listener ∈ r.listeners, listener.Accepts call.change candidate) ∧
        (call.run r).registry = { r with current := candidate } := by
  cases workedOut : call.workedOut r.current with
  | error cause => exact Or.inl (by rw [run_of_failed workedOut])
  | ok result =>
      rcases run_of_candidate workedOut with ⟨accepted, outcome⟩ | ⟨_, _, _, _, outcome⟩
      · exact Or.inr ⟨result.2, accepted, by rw [outcome]⟩
      · exact Or.inl (by rw [outcome])

/-! ## Runs -/

/-- The registry behind calls that are made one after the other. -/
def after (r : Registry) (calls : List Call) : Registry :=
  calls.foldl (fun r call => (call.run r).registry) r

theorem listeners_run (r : Registry) (call : Call) :
    (call.run r).registry.listeners = r.listeners := by
  rcases call.registry_cases r with same | ⟨_, _, same⟩ <;> rw [same]

theorem listeners_after (r : Registry) (calls : List Call) :
    (r.after calls).listeners = r.listeners := by
  induction calls generalizing r with
  | nil => rfl
  | cons call rest ih => exact (ih _).trans (listeners_run r call)

/-- Some listener is there for every candidate without the property and refuses it. -/
def Guards (listeners : List Listener) (holds : Catalog → Prop) : Prop :=
  ∀ change candidate, ¬holds candidate →
    ∃ listener ∈ listeners, ¬Listener.Accepts listener change candidate

theorem Guards.run {holds : Catalog → Prop} (guarded : Guards r.listeners holds)
    (start : holds r.current) (call : Call) : holds (call.run r).registry.current := by
  rcases call.registry_cases r with same | ⟨candidate, accepted, same⟩
  · rwa [same]
  · rw [same]
    refine Classical.byContradiction fun broken => ?_
    obtain ⟨listener, listed, refuses⟩ := guarded call.change candidate broken
    exact refuses (accepted listener listed)

theorem Guards.after {holds : Catalog → Prop} (guarded : Guards r.listeners holds)
    (start : holds r.current) (calls : List Call) : holds (r.after calls).current := by
  induction calls generalizing r with
  | nil => exact start
  | cons call rest ih =>
      have kept : Guards (call.run r).registry.listeners holds := by rwa [listeners_run]
      exact ih kept (guarded.run start call)

/-- After any calls, a further one whose operation fails asks no listener and leaves the
    registry as it is. With a candidate the listeners are asked in their order, up to and
    including the first that refuses: when there is none, the candidate is current from then
    on, and otherwise the call is rejected with its reason and the registry stays. So what
    holds at the start holds for good, when some listener refuses all that break it. -/
theorem guards_snapshots (r : Registry) (calls : List Call) :
    (∀ call : Call,
      (∀ cause, call.workedOut (r.after calls).current = .error cause →
        call.run (r.after calls) = ⟨.error (.invalid cause), r.after calls, []⟩) ∧
      (∀ answer candidate, call.workedOut (r.after calls).current = .ok (answer, candidate) →
        (∀ listener ∈ r.listeners, listener.Accepts call.change candidate) ∧
            call.run (r.after calls) = ⟨.ok answer, ⟨candidate, r.listeners⟩,
              notesOn call.change candidate r.listeners⟩ ∨
          ∃ before listener reason,
            FirstRefusal call.change candidate r.listeners before listener reason ∧
            call.run (r.after calls) = ⟨.error (.rejected call.change reason), r.after calls,
              notesOn call.change candidate (before ++ [listener])⟩)) ∧
    (∀ holds : Catalog → Prop, holds r.current →
      (∃ listener ∈ r.listeners, ∀ change candidate, ¬holds candidate →
        ∃ reason, (listener change candidate).refusal = some reason) →
      holds (r.after calls).current) := by
  refine ⟨fun call => ⟨fun cause failed => Call.run_of_failed failed, ?_⟩, ?_⟩
  · intro answer candidate workedOut
    have outcome := Call.run_of_candidate workedOut
    rwa [listeners_after] at outcome
  · rintro holds start ⟨listener, listed, strict⟩
    have guarded : Guards r.listeners holds := by
      intro change candidate broken
      obtain ⟨reason, refused⟩ := strict change candidate broken
      exact ⟨listener, listed, by simp [Listener.Accepts, refused]⟩
    exact guarded.after start calls

/-- A registry that notes every change and takes in a single node type. -/
def singleType : Registry :=
  ⟨.empty, [fun change _ => ⟨change.text, none⟩,
    fun _ candidate =>
      ⟨"counted", if candidate.nodes.values.length ≤ 1 then none else some "one is enough"⟩]⟩

/-- The second node type is noted, counted and rejected. -/
theorem guards_singleType :
    (Call.run (singleType.after [.putNode { name := "House" } false])
        (.putNode { name := "Street" } false)).answer =
      .error (.rejected (.putNode "Street") "one is enough") ∧
    (singleType.after [.putNode { name := "House" } false,
      .putNode { name := "Street" } false]).current.nodes.values.length ≤ 1 := by
  refine ⟨rfl, ?_⟩
  refine (guards_snapshots singleType _).2 (fun c => c.nodes.values.length ≤ 1) (by decide) ?_
  exact ⟨_, List.mem_cons_of_mem _ (List.mem_singleton_self _), fun _ _ broken =>
    ⟨"one is enough", if_neg broken⟩⟩

end Registry

end SchemaGraph
