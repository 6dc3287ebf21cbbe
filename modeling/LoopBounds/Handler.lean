/-
Handlers of named operations.

A `Handler` answers calls of operations by name. `Handler.valueRange` is the one
of the analysis: it applies the operations it understands and takes any other
to have an unknown result, which it notes.
-/
import LoopBounds.Event
import LoopBounds.Operation

namespace LoopBounds

/-- What operations mean, by name. -/
structure Handler where
  /-- The interval of a call's result. -/
  call : String → List Value → Except Error Interval
  /-- What there is to tell about a call of this name. -/
  notes : String → List Event := fun _ => []

namespace Handler

/-- Ranges of operations; one that is not understood may have any result. -/
def valueRange : Handler where
  call name args :=
    match Operation.ofName? name with
    | some op => op.apply name args
    | none => .ok .unknown
  notes name :=
    match Operation.ofName? name with
    | some _ => []
    | none => [.unrecognised name]

end Handler

end LoopBounds
