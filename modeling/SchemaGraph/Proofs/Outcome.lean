/-! # Outcomes of steps

When steps that may fail follow one another, all of them succeed or the whole fails.
-/

namespace SchemaGraph.Outcome

variable {ε δ α β : Type}

theorem bind_eq_ok_iff {first : Except ε α} {next : α → Except ε β} {b : β} :
    (first >>= next) = .ok b ↔ ∃ a, first = .ok a ∧ next a = .ok b := by
  cases first with
  | error cause =>
      constructor
      · intro h
        cases h
      · rintro ⟨_, h, _⟩
        cases h
  | ok a =>
      constructor
      · intro h
        exact ⟨a, rfl, h⟩
      · rintro ⟨_, h, later⟩
        cases h
        exact later

theorem bind_eq_error_iff {first : Except ε α} {next : α → Except ε β} {e : ε} :
    (first >>= next) = .error e ↔ first = .error e ∨ ∃ a, first = .ok a ∧ next a = .error e := by
  cases first with
  | error cause =>
      constructor
      · intro h
        cases h
        exact Or.inl rfl
      · rintro (h | ⟨_, h, _⟩)
        · cases h
          rfl
        · cases h
  | ok a =>
      constructor
      · intro h
        exact Or.inr ⟨a, rfl, h⟩
      · rintro (h | ⟨_, h, later⟩)
        · cases h
        · cases h
          exact later

theorem mapError_eq_ok_iff {outcome : Except ε α} {rename : ε → δ} {a : α} :
    outcome.mapError rename = .ok a ↔ outcome = .ok a := by
  cases outcome with
  | error cause =>
      constructor
      · intro h
        cases h
      · intro h
        cases h
  | ok b =>
      constructor
      · intro h
        cases h
        rfl
      · intro h
        cases h
        rfl

theorem map_eq_error_iff {outcome : Except ε α} {f : α → β} {e : ε} :
    outcome.map f = .error e ↔ outcome = .error e := by
  cases outcome with
  | error cause =>
      constructor
      · intro h
        cases h
        rfl
      · intro h
        cases h
        rfl
  | ok a =>
      constructor
      · intro h
        cases h
      · intro h
        cases h

theorem pure_eq_ok_iff {a b : α} : (pure a : Except ε α) = .ok b ↔ a = b :=
  Except.ok.injEq a b ▸ Iff.rfl

theorem getD_of_failed {outcome : Except ε α} {a : α} (failed : outcome.isOk = false) :
    outcome.toOption.getD a = a := by
  cases outcome with
  | error cause => rfl
  | ok b => simp [Except.isOk, Except.toBool] at failed

/-- Going on with the result, or with what was there when there is none. -/
theorem getD_keeps {keeps : α → Prop} {outcome : Except ε α} {a : α} (start : keeps a)
    (kept : ∀ {b}, outcome = .ok b → keeps b) : keeps (outcome.toOption.getD a) := by
  cases outcome with
  | error cause => exact start
  | ok b => exact kept rfl

theorem foldlM_keeps {keeps : β → Prop} {step : β → α → Except ε β} {items : List α} {b last : β}
    (kept : ∀ {b a next}, keeps b → step b a = .ok next → keeps next) (start : keeps b)
    (done : items.foldlM step b = .ok last) : keeps last := by
  induction items generalizing b with
  | nil =>
      cases done
      exact start
  | cons a rest ih =>
      rw [List.foldlM_cons] at done
      obtain ⟨next, here, later⟩ := bind_eq_ok_iff.mp done
      exact ih (kept start here) later

theorem foldlM_fails {fits : ε → Prop} {step : β → α → Except ε β} {items : List α} {b : β} {e : ε}
    (fault : ∀ {b a e}, step b a = .error e → fits e) (failed : items.foldlM step b = .error e) :
    fits e := by
  induction items generalizing b with
  | nil => cases failed
  | cons a rest ih =>
      rw [List.foldlM_cons] at failed
      rcases bind_eq_error_iff.mp failed with here | ⟨_, _, later⟩
      · exact fault here
      · exact ih later

end SchemaGraph.Outcome
