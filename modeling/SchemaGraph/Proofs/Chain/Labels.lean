import Mathlib.Logic.Basic
import SchemaGraph.Chain.Basic

/-! # Labels

Labels are bound when no two terms with one label have different names, and then to the
names of the terms that carry them.
-/

namespace SchemaGraph.Chain

/-- No label stands for two names. -/
def LabelsAgree (terms : List Term) : Prop :=
  ∀ t ∈ terms, ∀ u ∈ terms, t.label.isSome → t.label = u.label → t.name = u.name

instance (terms : List Term) : Decidable (LabelsAgree terms) := by
  unfold LabelsAgree
  infer_instance

/-- The labels are those of the terms, each with the name it stands for. -/
def Binds (labels : SortedMap String String) (terms : List Term) : Prop :=
  ∀ label name, labels.get? label = some name ↔
    ∃ t ∈ terms, t.label = some label ∧ t.name = name

theorem binds_empty : Binds .empty [] := by
  intro label name
  simp

theorem binds_append {labels : SortedMap String String} {seen : List Term} {t : Term} :
    Binds labels (seen ++ [t]) ↔ ∀ label name, labels.get? label = some name ↔
      (∃ u ∈ seen, u.label = some label ∧ u.name = name) ∨
        t.label = some label ∧ t.name = name := by
  simp only [Binds, List.mem_append, List.mem_singleton, or_and_right, exists_or, exists_eq_left]

theorem Binds.append_held {labels : SortedMap String String} {seen : List Term} {t : Term}
    {label : String} (binds : Binds labels seen) (own : t.label = some label)
    (held : labels.get? label = some t.name) : Binds labels (seen ++ [t]) := by
  rw [binds_append]
  intro other name
  rw [← binds]
  constructor
  · intro found
    exact Or.inl found
  · rintro (found | ⟨carries, named⟩)
    · exact found
    · rw [own, Option.some_inj] at carries
      rw [← carries, ← named, held]

theorem Binds.insert {labels : SortedMap String String} {seen : List Term} {t : Term}
    {label : String} (binds : Binds labels seen) (own : t.label = some label)
    (free : labels.get? label = none) : Binds (labels.insert label t.name) (seen ++ [t]) := by
  rw [binds_append]
  intro other name
  rw [← binds, SortedMap.get?_insert, own]
  by_cases same : other = label
  · simp [same, free]
  · simp [same, Ne.symm same]

theorem bindTerm_cases {labels : SortedMap String String} {seen : List Term} (t : Term)
    (binds : Binds labels seen) :
    (∃ bound, bindTerm labels t = .ok bound ∧ Binds bound (seen ++ [t])) ∨
      ∃ label existing, bindTerm labels t = .error (.duplicateLabel label existing t.name) ∧
        t.label = some label ∧ existing ≠ t.name ∧
          ∃ u ∈ seen, u.label = some label ∧ u.name = existing := by
  rw [bindTerm]
  cases own : t.label with
  | none =>
      refine Or.inl ⟨labels, rfl, binds_append.mpr fun label name => ?_⟩
      simp [binds label name, own]
  | some label =>
      cases held : labels.get? label with
      | some existing =>
          by_cases same : existing = t.name
          · refine Or.inl ⟨labels, ?_, binds.append_held own (same ▸ held)⟩
            simp only [held, same, if_true]
          · refine Or.inr ⟨label, existing, ?_, rfl, same, (binds label existing).mp held⟩
            simp only [held, same, if_false]
      | none =>
          refine Or.inl ⟨labels.insert label t.name, ?_, binds.insert own held⟩
          simp only [held]

theorem Binds.agree {labels : SortedMap String String} {terms : List Term}
    (binds : Binds labels terms) : LabelsAgree terms := by
  intro t first u second labelled same
  obtain ⟨label, own⟩ := Option.isSome_iff_exists.mp labelled
  have ofT := (binds label t.name).mpr ⟨t, first, own, rfl⟩
  have ofU := (binds label u.name).mpr ⟨u, second, same ▸ own, rfl⟩
  exact Option.some_inj.mp (ofT.symm.trans ofU)

/-- Of the terms in their order, the first one whose label stands for another name already. -/
def FirstClash (terms : List Term) (label existing incoming : String) : Prop :=
  ∃ before t after, terms = before ++ t :: after ∧ LabelsAgree before ∧
    t.label = some label ∧ t.name = incoming ∧ existing ≠ incoming ∧
      ∃ u ∈ before, u.label = some label ∧ u.name = existing

theorem not_labelsAgree_iff {terms : List Term} :
    ¬ LabelsAgree terms ↔ ∃ t ∈ terms, ∃ u ∈ terms, ∃ label,
      t.label = some label ∧ u.label = some label ∧ t.name ≠ u.name := by
  constructor
  · intro disagree
    simp only [LabelsAgree, not_forall] at disagree
    obtain ⟨t, first, u, second, labelled, same, different⟩ := disagree
    obtain ⟨label, own⟩ := Option.isSome_iff_exists.mp labelled
    exact ⟨t, first, u, second, label, own, same ▸ own, different⟩
  · rintro ⟨t, first, u, second, label, ofT, ofU, different⟩ agree
    exact different (agree t first u second (by rw [ofT]; rfl) (ofT.trans ofU.symm))

theorem FirstClash.not_agree {terms : List Term} {label existing incoming : String}
    (clash : FirstClash terms label existing incoming) : ¬ LabelsAgree terms := by
  obtain ⟨before, t, after, rfl, _, ofT, rfl, different, u, earlier, ofU, rfl⟩ := clash
  have listed : t ∈ before ++ t :: after := List.mem_append_right _ List.mem_cons_self
  have listedToo : u ∈ before ++ t :: after := List.mem_append_left _ earlier
  exact not_labelsAgree_iff.mpr ⟨u, listedToo, t, listed, label, ofU, ofT, different⟩

/-- All labels are bound, or the first clash is reported. -/
theorem foldlM_bindTerm_cases {terms seen : List Term} {labels : SortedMap String String}
    (binds : Binds labels seen) :
    (∃ bound, terms.foldlM bindTerm labels = .ok bound ∧ Binds bound (seen ++ terms)) ∨
      ∃ label existing incoming,
        terms.foldlM bindTerm labels = .error (.duplicateLabel label existing incoming) ∧
          FirstClash (seen ++ terms) label existing incoming := by
  induction terms generalizing seen labels with
  | nil => exact Or.inl ⟨labels, rfl, by simpa using binds⟩
  | cons t rest ih =>
      rw [List.foldlM_cons]
      rcases bindTerm_cases t binds with ⟨next, first, bindsNext⟩ |
        ⟨label, existing, fails, own, different, u, earlier, ofU, named⟩
      · have shift : seen ++ t :: rest = (seen ++ [t]) ++ rest := by simp
        rw [first, shift]
        exact ih bindsNext
      · refine Or.inr ⟨label, existing, t.name, by rw [fails]; rfl, ?_⟩
        exact ⟨seen, t, rest, rfl, binds.agree, own, rfl, different, u, earlier, ofU, named⟩

/-- The terms of alternatives one behind the other. -/
def termsOf (alternatives : List Alternative) : List Term :=
  alternatives.flatten.flatMap Link.terms

theorem bindLabels_cases (alternatives : List Alternative) :
    (∃ labels, bindLabels alternatives = .ok labels ∧ Binds labels (termsOf alternatives)) ∨
      ∃ label existing incoming,
        bindLabels alternatives = .error (.duplicateLabel label existing incoming) ∧
          FirstClash (termsOf alternatives) label existing incoming :=
  foldlM_bindTerm_cases binds_empty

theorem bindLabels_of_agree {alternatives : List Alternative}
    (agree : LabelsAgree (termsOf alternatives)) :
    ∃ labels, bindLabels alternatives = .ok labels ∧ Binds labels (termsOf alternatives) := by
  rcases bindLabels_cases alternatives with bound | ⟨label, existing, incoming, _, clash⟩
  · exact bound
  · exact absurd agree clash.not_agree

end SchemaGraph.Chain
