/-! # Looking up by bisection

Finding an item in a rising array by halving the part in which it can still stand.
-/

namespace SchemaGraph.Bisection

variable {α : Type} [Ord α]

/-- Whether bisection meets `wanted` at a place from `low` up to, but without, `high`. -/
def meetsBetween (items : Array α) (wanted : α) (low high : Nat) : Bool :=
  if low < high then
    let middle := low + (high - low) / 2
    match items[middle]? with
    | none => false
    | some item =>
        match compare wanted item with
        | .eq => true
        | .lt => meetsBetween items wanted low middle
        | .gt => meetsBetween items wanted (middle + 1) high
  else false
termination_by high - low

/-- Whether bisection meets `wanted`; in a rising array it does exactly when the item is
    there. -/
def meets (items : Array α) (wanted : α) : Bool := meetsBetween items wanted 0 items.size

end SchemaGraph.Bisection
