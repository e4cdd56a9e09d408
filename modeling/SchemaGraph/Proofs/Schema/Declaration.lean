import SchemaGraph.Proofs.Schema.Integrity

/-! # The order of unique indices is not kept

A catalog sorts the unique index of every definition that it takes in. So operations that
declare the entries of unique indices in other orders build the same catalog.
-/

namespace SchemaGraph

theorem sortedTexts_of_perm {texts texts' : List String} (order : texts.Perm texts') :
    sortedTexts texts = sortedTexts texts' := by
  have sorted : (sortedTexts texts).Perm (sortedTexts texts') :=
    (List.mergeSort_perm texts _).trans (order.trans (List.mergeSort_perm texts' _).symm)
  apply sorted.eq_of_pairwise _ (sortedTexts_rising texts) (sortedTexts_rising texts')
  intro a b _ _ below above
  exact String.le_antisymm below above

/-- The same node definition, with the entries of the unique index in another order. -/
inductive NodeDefinition.Reorders : NodeDefinition → NodeDefinition → Prop
  | index {d : NodeDefinition} {entries : List String} (order : entries.Perm d.uniqueIndex) :
      Reorders d { d with uniqueIndex := entries }

/-- The same event definition, with the entries of the unique index in another order. -/
inductive EventDefinition.Reorders : EventDefinition → EventDefinition → Prop
  | index {d : EventDefinition} {entries : List String} (order : entries.Perm d.uniqueIndex) :
      Reorders d { d with uniqueIndex := entries }

/-- Steps that do the same with related items do the same with related lists. -/
theorem foldlM_congr {m : Type → Type} [Monad m] {α β : Type} {related : α → α → Prop}
    {step : β → α → m β} (same : ∀ b x y, related x y → step b x = step b y)
    {items items' : List α} (pairs : List.Forall₂ related items items') (b : β) :
    items.foldlM step b = items'.foldlM step b := by
  induction pairs generalizing b with
  | nil => rfl
  | cons here _ ih => simp only [List.foldlM_cons, same _ _ _ here, ih]

namespace Catalog

theorem putNode_reordered (c : Catalog) (overwrite : Bool) {d d' : NodeDefinition}
    (h : d.Reorders d') : c.putNode d overwrite = c.putNode d' overwrite := by
  cases h with
  | index order => simp only [putNode, NodeDefinition.normalized, sortedTexts_of_perm order]

theorem putEvent_reordered (c : Catalog) (overwrite : Bool) {d d' : EventDefinition}
    (h : d.Reorders d') : c.putEvent d overwrite = c.putEvent d' overwrite := by
  cases h with
  | index order => simp only [putEvent, EventDefinition.normalized, sortedTexts_of_perm order]

theorem ofDocument_reordered {s s' : SchemaDocument}
    (nodes : List.Forall₂ NodeDefinition.Reorders s.nodeDefinitions s'.nodeDefinitions)
    (events : List.Forall₂ EventDefinition.Reorders s.eventDefinitions s'.eventDefinitions) :
    ofDocument s = ofDocument s' := by
  have sameNodes : s.nodeDefinitions.foldlM (fun c d => c.putNode d false) empty =
      s'.nodeDefinitions.foldlM (fun c d => c.putNode d false) empty := by
    apply foldlM_congr _ nodes
    intro c _ _ h
    exact putNode_reordered c false h
  have sameEvents (c : Catalog) : s.eventDefinitions.foldlM (fun c d => c.putEvent d false) c =
      s'.eventDefinitions.foldlM (fun c d => c.putEvent d false) c := by
    apply foldlM_congr _ events
    intro c _ _ h
    exact putEvent_reordered c false h
  simp only [ofDocument, sameNodes, sameEvents]

/-- The same operation on a catalog, with the entries of declared unique indices in another
    order. -/
inductive Action.Reorders : Action → Action → Prop
  | same (action : Action) : Reorders action action
  | putNode {d d' : NodeDefinition} (h : d.Reorders d') (overwrite : Bool) :
      Reorders (.putNode d overwrite) (.putNode d' overwrite)
  | putEvent {d d' : EventDefinition} (h : d.Reorders d') (overwrite : Bool) :
      Reorders (.putEvent d overwrite) (.putEvent d' overwrite)
  | load {s s' : SchemaDocument}
      (nodes : List.Forall₂ NodeDefinition.Reorders s.nodeDefinitions s'.nodeDefinitions)
      (events : List.Forall₂ EventDefinition.Reorders s.eventDefinitions s'.eventDefinitions) :
      Reorders (.load s) (.load s')

theorem Action.Reorders.run_eq {action action' : Action} (h : action.Reorders action')
    (c : Catalog) : action.run c = action'.run c := by
  cases h with
  | same => rfl
  | putNode h overwrite => simp only [Action.run, putNode_reordered c overwrite h]
  | putEvent h overwrite => simp only [Action.run, putEvent_reordered c overwrite h]
  | load nodes events => simp only [Action.run, ofDocument_reordered nodes events]

theorem runAll_reordered {actions actions' : List Action}
    (h : List.Forall₂ Action.Reorders actions actions') (c : Catalog) :
    runAll actions c = runAll actions' c := by
  induction h generalizing c with
  | nil => rfl
  | cons here _ ih =>
      unfold runAll at ih ⊢
      rw [List.foldl_cons, List.foldl_cons, here.run_eq, ih]

end Catalog

end SchemaGraph
