import SchemaGraph.Collections.Bisection

/-! # Bisection finds what is there

In a rising array, the part to which bisection shrinks has the wanted item whenever the whole
array has it.
-/

namespace SchemaGraph.Bisection

variable {α : Type} [Ord α] [Std.TransOrd α] [Std.LawfulEqOrd α] {wanted : α}

theorem meetsBetween_iff {items : Array α} {low high : Nat} (inside : high ≤ items.size)
    (rising : items.toList.Pairwise fun a b => (compare a b).isLE = true) :
    meetsBetween items wanted low high = true ↔
      ∃ place, low ≤ place ∧ place < high ∧ items[place]? = some wanted := by
  have ordered {first later : Nat} {a b : α} (before : first < later)
      (atFirst : items[first]? = some a) (atLater : items[later]? = some b) :
      (compare a b).isLE = true := by
    rw [← Array.getElem?_toList, List.getElem?_eq_some_iff] at atFirst atLater
    obtain ⟨firstInside, rfl⟩ := atFirst
    obtain ⟨laterInside, rfl⟩ := atLater
    exact List.pairwise_iff_getElem.mp rising first later firstInside laterInside before
  fun_induction meetsBetween items wanted low high with
  | case1 low high nonempty middle outside =>
      rw [Array.getElem?_eq_none_iff] at outside
      omega
  | case2 low high nonempty middle item here equal =>
      rw [Std.compare_eq_iff_eq.mp equal]
      exact iff_of_true rfl ⟨middle, by omega, by omega, here⟩
  | case3 low high nonempty middle item here below ih =>
      refine Iff.trans (ih (by omega)) ⟨?_, ?_⟩
      · rintro ⟨place, fromLow, toMiddle, found⟩
        exact ⟨place, fromLow, by omega, found⟩
      · rintro ⟨place, fromLow, toHigh, found⟩
        refine ⟨place, fromLow, ?_, found⟩
        refine Nat.lt_of_not_le fun beyond => ?_
        have different : middle ≠ place := by
          rintro rfl
          obtain rfl := Option.some_inj.mp (here.symm.trans found)
          simp [Std.compare_self] at below
        have above := ordered (by omega) here found
        rw [Std.OrientedCmp.gt_of_lt below] at above
        cases above
  | case4 low high nonempty middle item here above ih =>
      refine Iff.trans (ih inside) ⟨?_, ?_⟩
      · rintro ⟨place, fromMiddle, toHigh, found⟩
        exact ⟨place, by omega, toHigh, found⟩
      · rintro ⟨place, fromLow, toHigh, found⟩
        refine ⟨place, ?_, toHigh, found⟩
        refine Nat.lt_of_not_le fun before => ?_
        have different : place ≠ middle := by
          rintro rfl
          obtain rfl := Option.some_inj.mp (here.symm.trans found)
          simp [Std.compare_self] at above
        have below := ordered (by omega) found here
        rw [above] at below
        cases below
  | case5 low high empty =>
      refine iff_of_false (by simp) ?_
      rintro ⟨place, fromLow, toHigh, _⟩
      omega

theorem meets_iff_mem {items : List α}
    (rising : items.Pairwise fun a b => (compare a b).isLE = true) :
    meets items.toArray wanted = true ↔ wanted ∈ items := by
  rw [meets, meetsBetween_iff (Nat.le_refl _) rising, List.mem_iff_getElem?]
  constructor
  · rintro ⟨place, _, _, found⟩
    exact ⟨place, by simpa using found⟩
  · rintro ⟨place, found⟩
    obtain ⟨inside, _⟩ := List.getElem?_eq_some_iff.mp found
    exact ⟨place, Nat.zero_le _, inside, by simpa using found⟩

end SchemaGraph.Bisection
