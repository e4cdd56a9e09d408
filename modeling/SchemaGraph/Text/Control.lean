/-! # Control sequences

Texts can hold sequences that tell a terminal what to do, which start at an escape character. A
plain text shows neither these nor other control characters, line ends and tabs apart.
-/

namespace SchemaGraph.Text

/-- How far a control sequence was read. -/
inductive Control where
  /-- No sequence is open. -/
  | none
  | escape
  /-- Behind an escape and a mark that needs one more character. -/
  | marked
  /-- Within the parameters behind an escape and an opening bracket. -/
  | parameters
  /-- Within a string that only another sequence ends. -/
  | string
  /-- Within a string that a bell ends as well. -/
  | title
  deriving Repr, DecidableEq

namespace Control

/-- How far the sequence is read behind one more character. -/
def next (state : Control) (c : Char) : Control :=
  if c = '\x1b' then .escape
  else if c = '\x18' ∨ c = '\x1a' then .none
  else match state with
    | .none => .none
    | .escape =>
        if ['P', 'X', '^', '_'].contains c then .string
        else if c = '[' then .parameters
        else if c = ']' then .title
        else if ' ' ≤ c ∧ c < '0' then .marked
        else if '0' ≤ c ∧ c ≤ '~' then .none
        else .escape
    | .marked => if '0' ≤ c ∧ c ≤ '~' then .none else .marked
    | .parameters => if '@' ≤ c ∧ c ≤ '~' then .none else .parameters
    | .string => .string
    | .title => if c = '\x07' then .none else .title

/-- Whether a character breaks off the sequence, because it moves the place of writing. -/
def isBrokenBy (state : Control) (c : Char) : Bool :=
  ['\t', '\n', '\x0c', '\r'].contains c && !(state matches .string | .title)

/-- The characters to show of a text when a sequence was read so far. -/
def shown (state : Control) : List Char → List Char
  | [] => []
  | c :: rest =>
      if state.isBrokenBy c then c :: shown .none rest
      else if state = .none ∧ ' ' ≤ c ∧ c ≠ '\x7f' then c :: shown .none rest
      else (state.next c).shown rest

/-- What has no control characters is shown as it is. -/
theorem shown_none_eq_self {chars : List Char} (h : ∀ c ∈ chars, ' ' ≤ c ∧ c ≠ '\x7f') :
    Control.none.shown chars = chars := by
  induction chars with
  | nil => rfl
  | cons c rest ih =>
    have rest_shown := ih fun d hd => h d (List.mem_cons_of_mem c hd)
    by_cases broken : Control.none.isBrokenBy c = true
    · simp [shown, broken, rest_shown]
    · simp [shown, broken, h c List.mem_cons_self, rest_shown]

end Control

/-- The text without control sequences. -/
def withoutControls (text : String) : String := String.ofList (Control.none.shown text.toList)

end SchemaGraph.Text
