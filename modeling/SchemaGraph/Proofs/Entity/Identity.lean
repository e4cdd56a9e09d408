import SchemaGraph.Entity.Event

/-! # What a logic identifier tells

A logic identifier is made of the parts of an identity, one behind the other and with nothing
between them. So it tells the parts only together: two identities give one logic identifier
when they are the same, or when the one text is cut into its parts at other places.
-/

namespace SchemaGraph

/-- Rows of texts that agree up to a place where the second one goes on with what the rest of
    the first one begins with. -/
def CutEarlier (p q : List String) : Prop :=
  ∃ (same : List String) (text more : String) (rest rest' : List String), more ≠ "" ∧
    p = same ++ text :: rest ∧ q = same ++ (text ++ more) :: rest' ∧
      String.join rest = more ++ String.join rest'

theorem CutEarlier.cons {p q : List String} (h : CutEarlier p q) (text : String) :
    CutEarlier (text :: p) (text :: q) := by
  obtain ⟨same, cut, more, rest, rest', some, rfl, rfl, goesOn⟩ := h
  exact ⟨text :: same, cut, more, rest, rest', some, rfl, rfl, goesOn⟩

theorem CutEarlier.join_eq {p q : List String} (h : CutEarlier p q) :
    String.join p = String.join q := by
  obtain ⟨same, text, more, rest, rest', _, rfl, rfl, goesOn⟩ := h
  simp only [String.join_append, String.join_cons, goesOn, String.append_assoc]

/-- Of two texts for one whole, the longer first part goes on with the second part of the
    other. -/
theorem append_eq_append_cases {a b x y : String} (whole : a ++ x = b ++ y) :
    (∃ more, b = a ++ more ∧ x = more ++ y) ∨ ∃ more, a = b ++ more ∧ y = more ++ x := by
  have chars : a.toList ++ x.toList = b.toList ++ y.toList := by
    rw [← String.toList_append, ← String.toList_append, whole]
  rcases List.append_eq_append_iff.mp chars with ⟨more, first, second⟩ | ⟨more, first, second⟩
  · refine Or.inl ⟨String.ofList more, String.toList_inj.mp ?_, String.toList_inj.mp ?_⟩
    · simpa using first
    · simpa using second
  · refine Or.inr ⟨String.ofList more, String.toList_inj.mp ?_, String.toList_inj.mp ?_⟩
    · simpa using first
    · simpa using second

theorem join_eq_join_iff {p q : List String} (sameLength : p.length = q.length) :
    String.join p = String.join q ↔ p = q ∨ CutEarlier p q ∨ CutEarlier q p := by
  constructor
  · intro whole
    induction p generalizing q with
    | nil => exact Or.inl (List.eq_nil_of_length_eq_zero sameLength.symm).symm
    | cons a rest ih =>
        obtain ⟨b, rest', rfl⟩ := List.exists_cons_of_length_pos (l := q) (by
          rw [← sameLength]
          exact Nat.succ_pos _)
        rw [String.join_cons, String.join_cons] at whole
        have lengths : rest.length = rest'.length := Nat.succ_inj.mp sameLength
        -- the first parts that differ are where the one text is cut earlier than the other
        by_cases sameFirst : a = b
        · subst sameFirst
          rcases ih lengths ((String.append_right_inj a).mp whole) with rfl | earlier | later
          · exact Or.inl rfl
          · exact Or.inr (Or.inl (earlier.cons a))
          · exact Or.inr (Or.inr (later.cons a))
        · have some {more : String} (differs : a ≠ b) (goesOn : b = a ++ more ∨ a = b ++ more) :
              more ≠ "" := by
            rintro rfl
            rcases goesOn with same | same
            · exact differs (by simpa using same.symm)
            · exact differs (by simpa using same)
          rcases append_eq_append_cases whole with ⟨more, rfl, goesOn⟩ | ⟨more, rfl, goesOn⟩
          · exact Or.inr (Or.inl
              ⟨[], a, more, rest, rest', some sameFirst (Or.inl rfl), rfl, rfl, goesOn⟩)
          · exact Or.inr (Or.inr
              ⟨[], b, more, rest', rest, some sameFirst (Or.inr rfl), rfl, rfl, goesOn⟩)
  · rintro (rfl | earlier | later)
    · rfl
    · exact earlier.join_eq
    · exact later.join_eq.symm

theorem cutEarlier_pair_iff {a b a' b' : String} :
    CutEarlier [a, b] [a', b'] ↔ ∃ more, more ≠ "" ∧ a' = a ++ more ∧ b = more ++ b' := by
  constructor
  · rintro ⟨same, text, more, rest, rest', some, first, second, goesOn⟩
    match same with
    | [] =>
        obtain ⟨rfl, rfl⟩ := List.cons.inj first
        obtain ⟨rfl, rfl⟩ := List.cons.inj second
        exact ⟨more, some, rfl, by simpa using goesOn⟩
    | [_] =>
        obtain ⟨_, last⟩ := List.cons.inj first
        obtain ⟨_, last'⟩ := List.cons.inj second
        obtain ⟨_, rfl⟩ := List.cons.inj last
        obtain ⟨_, rfl⟩ := List.cons.inj last'
        simp [some] at goesOn
    | _ :: _ :: _ =>
        have lengths := congrArg List.length first
        simp at lengths
  · rintro ⟨more, some, rfl, rfl⟩
    exact ⟨[], a, more, [more ++ b'], [b'], some, rfl, rfl, by simp⟩

/-! ## Identities -/

/-- Two complete identities that are the same but for where the parts are cut. -/
def Alike (p q : Option (List String)) : Prop :=
  ∃ a b, p = some a ∧ q = some b ∧ (a = b ∨ CutEarlier a b ∨ CutEarlier b a)

theorem alike_iff {p q : Option (List String)}
    (sameLength : ∀ a b, p = some a → q = some b → a.length = b.length) :
    Alike p q ↔ ∃ key, p.map String.join = some key ∧ q.map String.join = some key := by
  constructor
  · rintro ⟨a, b, rfl, rfl, cut⟩
    have whole := (join_eq_join_iff (sameLength a b rfl rfl)).mpr cut
    exact ⟨String.join b, congrArg some whole, rfl⟩
  · rintro ⟨key, ofP, ofQ⟩
    obtain ⟨a, rfl, isKey⟩ := Option.map_eq_some_iff.mp ofP
    obtain ⟨b, rfl, rfl⟩ := Option.map_eq_some_iff.mp ofQ
    exact ⟨a, b, rfl, rfl, (join_eq_join_iff (sameLength a b rfl rfl)).mp isKey⟩

/-- A kind whose logic identifiers are made of the parts of identities. -/
class Identified (ε : Type) [Entity ε] where
  identity? : ε → Option (List String)
  size : Nat
  length_identity {e : ε} {parts : List String} : identity? e = some parts → parts.length = size
  logicKey?_eq (e : ε) : Entity.logicKey? e = (identity? e).map String.join

/-- A type and an identifier tell which node is meant. -/
def nodeIdentity? (typeName id : Option String) : Option (List String) := do
  return [← typeName, ← id]

theorem length_nodeIdentity {typeName id : Option String} {parts : List String}
    (complete : nodeIdentity? typeName id = some parts) : parts.length = 2 := by
  rcases typeName with _ | typeName
  · cases complete
  rcases id with _ | id
  · cases complete
  cases complete
  rfl

instance : Identified Node where
  identity? n := nodeIdentity? n.core.typeName n.core.id
  size := 2
  length_identity := length_nodeIdentity
  logicKey?_eq n := by
    simp only [Entity.logicKey?, Entity.basis?, Entity.id, Entity.core, nodeIdentity?]
    rcases n.core.typeName with _ | typeName <;> rcases n.core.id with _ | id <;> simp

/-- Which node of which type an end leads to. -/
def Endpoint.identity? (p : Endpoint) : Option (List String) := nodeIdentity? p.typeName p.id

theorem Endpoint.logicKey?_eq (p : Endpoint) : p.logicKey? = p.identity?.map String.join := by
  simp only [logicKey?, identity?, nodeIdentity?]
  rcases p.typeName with _ | typeName <;> rcases p.id with _ | id <;> simp

/-- The parts in the order in which the logic identifier has them. -/
instance : Identified Event where
  identity? e := do
    return [← e.core.typeName, ← e.left.id, ← e.left.typeName, ← e.right.id, ← e.right.typeName,
      ← e.core.id]
  size := 6
  length_identity := by
    intro e parts complete
    simp only [Option.bind_eq_bind, Option.bind_eq_some_iff, Option.pure_def,
      Option.some_inj] at complete
    obtain ⟨_, _, _, _, _, _, _, _, _, _, _, _, rfl⟩ := complete
    rfl
  logicKey?_eq e := by
    simp only [Entity.logicKey?, Entity.basis?, Entity.id, Entity.core, Endpoint.basis?]
    cases e.core.typeName <;> cases e.left.id <;> cases e.left.typeName <;> cases e.right.id <;>
      cases e.right.typeName <;> cases e.core.id <;> simp [String.append_assoc]

namespace Identified

variable {ε : Type} [Entity ε] [Identified ε]

theorem alike_iff_logicKey? {d e : ε} : Alike (identity? d) (identity? e) ↔
    ∃ key, Entity.logicKey? d = some key ∧ Entity.logicKey? e = some key := by
  rw [logicKey?_eq, logicKey?_eq]
  exact alike_iff fun a b ofD ofE => (length_identity ofD).trans (length_identity ofE).symm

end Identified

theorem Endpoint.alike_iff_logicKey? {p : Endpoint} {n : Node} :
    Alike p.identity? (Identified.identity? n) ↔
      ∃ key, p.logicKey? = some key ∧ Entity.logicKey? n = some key := by
  rw [Endpoint.logicKey?_eq, Identified.logicKey?_eq]
  exact alike_iff fun a b ofP ofN =>
    (length_nodeIdentity ofP).trans (length_nodeIdentity ofN).symm

theorem Node.logicKey?_eq_iff {a b : Node} {typeA idA typeB idB : String}
    (typeOfA : a.core.typeName = some typeA) (idOfA : a.core.id = some idA)
    (typeOfB : b.core.typeName = some typeB) (idOfB : b.core.id = some idB) :
    Entity.logicKey? a = Entity.logicKey? b ↔ (typeA = typeB ∧ idA = idB) ∨
      (∃ more, more ≠ "" ∧ typeB = typeA ++ more ∧ idA = more ++ idB) ∨
        ∃ more, more ≠ "" ∧ typeA = typeB ++ more ∧ idB = more ++ idA := by
  have ofA : Identified.identity? a = some [typeA, idA] := by
    simp [Identified.identity?, nodeIdentity?, typeOfA, idOfA]
  have ofB : Identified.identity? b = some [typeB, idB] := by
    simp [Identified.identity?, nodeIdentity?, typeOfB, idOfB]
  have sameLength : [typeA, idA].length = [typeB, idB].length := rfl
  rw [Identified.logicKey?_eq, Identified.logicKey?_eq, ofA, ofB, Option.map_some, Option.map_some,
    Option.some_inj, join_eq_join_iff sameLength, cutEarlier_pair_iff, cutEarlier_pair_iff]
  simp

end SchemaGraph
