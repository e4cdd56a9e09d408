import SchemaGraph.Proofs.Collections.Order

/-! # First entries

Of entries that come one after the other, only the first one under each key counts.
-/

namespace SchemaGraph.Entries

variable {κ ν : Type} [DecidableEq κ]

/-- The first entry of each key, in their order. -/
def firsts : List (κ × ν) → List (κ × ν)
  | [] => []
  | entry :: rest => entry :: without entry.1 (firsts rest)

theorem mem_without {key : κ} {entries : List (κ × ν)} {entry : κ × ν} :
    entry ∈ without key entries ↔ entry ∈ entries ∧ entry.1 ≠ key := by
  simp [without]

theorem firsts_sublist (entries : List (κ × ν)) : (firsts entries).Sublist entries := by
  induction entries with
  | nil => exact List.Sublist.slnil
  | cons entry rest ih => exact ((without_sublist entry.1 _).trans ih).cons_cons entry

theorem mem_keys_firsts_iff {entries : List (κ × ν)} {key : κ} :
    key ∈ (firsts entries).map Prod.fst ↔ key ∈ entries.map Prod.fst := by
  induction entries with
  | nil => rfl
  | cons entry rest ih =>
      have others : key ∈ (without entry.1 (firsts rest)).map Prod.fst ↔
          key ∈ (firsts rest).map Prod.fst ∧ key ≠ entry.1 := by
        simp only [List.mem_map, mem_without]
        constructor
        · rintro ⟨other, ⟨inside, different⟩, rfl⟩
          exact ⟨⟨other, inside, rfl⟩, different⟩
        · rintro ⟨⟨other, inside, rfl⟩, different⟩
          exact ⟨other, ⟨inside, different⟩, rfl⟩
      rw [firsts, List.map_cons, List.map_cons, List.mem_cons, List.mem_cons, others, ih]
      by_cases same : key = entry.1
      · simp [same]
      · simp [same]

theorem firsts_of_distinct {entries : List (κ × ν)} (distinct : (entries.map Prod.fst).Nodup) :
    firsts entries = entries := by
  induction entries with
  | nil => rfl
  | cons entry rest ih =>
      obtain ⟨fresh, distinct⟩ := List.nodup_cons.mp (List.map_cons ▸ distinct)
      rw [firsts, ih distinct, without_of_absent fresh]

theorem without_comm (key other : κ) (entries : List (κ × ν)) :
    without key (without other entries) = without other (without key entries) := by
  simp only [without, List.filter_filter, Bool.and_comm]

/-- Whether an entry is the first one does not depend on other keys. -/
theorem firsts_without (key : κ) (entries : List (κ × ν)) :
    firsts (without key entries) = without key (firsts entries) := by
  induction entries with
  | nil => rfl
  | cons entry rest ih =>
      by_cases same : entry.1 = key
      · have gone : without key (entry :: rest) = without key rest := by simp [without, same]
        have kept : without key (entry :: without entry.1 (firsts rest)) =
            without key (without key (firsts rest)) := by simp [without, same]
        rw [gone, ih, firsts, kept, without, without, List.filter_filter]
        simp only [Bool.and_self]
      · have kept (others : List (κ × ν)) :
            without key (entry :: others) = entry :: without key others := by simp [without, same]
        rw [kept, firsts, firsts, kept, ih, without_comm]

end SchemaGraph.Entries
