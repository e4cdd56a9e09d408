/-! # Insertion-ordered sets

The members of a set in the order in which they arrived.
-/

namespace SchemaGraph

/-- Pairwise different members, in order of arrival. -/
structure OrderedSet (α : Type) where
  members : List α
  distinct : members.Nodup
  deriving Repr, DecidableEq

namespace OrderedSet

variable {α : Type}

/-- The set without members. -/
def empty : OrderedSet α := ⟨[], List.nodup_nil⟩

instance : Inhabited (OrderedSet α) := ⟨empty⟩
instance : EmptyCollection (OrderedSet α) := ⟨empty⟩

theorem ext_members {s t : OrderedSet α} (h : s.members = t.members) : s = t := by
  cases s; cases t; cases h; rfl

instance : Membership α (OrderedSet α) := ⟨fun s a => a ∈ s.members⟩

theorem mem_def {s : OrderedSet α} {a : α} : a ∈ s ↔ a ∈ s.members := Iff.rfl

def isEmpty (s : OrderedSet α) : Bool := s.members.isEmpty

variable [DecidableEq α]

instance (a : α) (s : OrderedSet α) : Decidable (a ∈ s) :=
  inferInstanceAs (Decidable (a ∈ s.members))

/-- Add `a` as the last member, unless the set has it. -/
def insert (s : OrderedSet α) (a : α) : OrderedSet α :=
  if held : a ∈ s.members then s
  else ⟨s.members ++ [a], List.nodup_append.mpr ⟨s.distinct, by simp, by
    intro b inside c isNew
    simp only [List.mem_singleton] at isNew
    exact fun same => held (isNew ▸ same ▸ inside)⟩⟩

/-- Remove `a`; the later members move up by one place. -/
def erase (s : OrderedSet α) (a : α) : OrderedSet α :=
  ⟨s.members.filter (· ≠ a), s.distinct.sublist List.filter_sublist⟩

/-- Put `a` at the given place among the others, moving it there when the set has it. A place
    beyond them is out of bounds, and a running store is aborted there; the set that is given here,
    with `a` at the end, only makes the function total. In a store only an update of a node gets
    there, and only when an event that it re-points gets the new or present key of another one. -/
def insertAt (s : OrderedSet α) (place : Nat) (a : α) : OrderedSet α :=
  let others := (s.erase a).members
  ⟨others.insertIdx (min place others.length) a, by
    have inside : min place others.length ≤ others.length := Nat.min_le_right _ _
    refine (List.perm_insertIdx a others inside).nodup_iff.mpr ?_
    rw [List.nodup_cons]
    exact ⟨by simp [others, erase], (s.erase a).distinct⟩⟩

/-- Let `new` take the place of `old`; without `old` it comes last. -/
def replace (s : OrderedSet α) (old new : α) : OrderedSet α :=
  match s.members.idxOf? old with
  | some place => (s.erase old).insertAt place new
  | none => s.insert new

/-! ## Members after a change -/

@[simp] theorem mem_insert {s : OrderedSet α} {a b : α} : b ∈ s.insert a ↔ b ∈ s ∨ b = a := by
  simp only [mem_def, insert]
  split
  · rename_i held
    exact ⟨Or.inl, fun h => h.elim id fun same => same ▸ held⟩
  · simp

@[simp] theorem mem_erase {s : OrderedSet α} {a b : α} : b ∈ s.erase a ↔ b ∈ s ∧ b ≠ a := by
  simp [mem_def, erase]

@[simp] theorem mem_insertAt {s : OrderedSet α} {place : Nat} {a b : α} :
    b ∈ s.insertAt place a ↔ b ∈ s ∨ b = a := by
  have inside : min place (s.erase a).members.length ≤ (s.erase a).members.length :=
    Nat.min_le_right _ _
  rw [mem_def, insertAt, (List.perm_insertIdx a _ inside).mem_iff, List.mem_cons, ← mem_def,
    mem_erase]
  by_cases same : b = a <;> simp [same]

end OrderedSet

end SchemaGraph
