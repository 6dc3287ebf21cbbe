/-
Calls that break a rule of the library.

A `Misuse` is the caller's fault and says nothing about a loop body: the ends
given for an interval are no ends, or a node is added to a subblock that does
not exist.
-/

namespace LoopBounds

/-- A call outside the rules of the operation called. -/
inductive Misuse where
  | invalidBounds
  | unopenedSubblock (index : Nat)
deriving DecidableEq, Repr

/-- What is told about a misuse. -/
def Misuse.message : Misuse → String
  | .invalidBounds => "Interval bounds must satisfy low <= high with finite-side infinities"
  | .unopenedSubblock index => "Subblock " ++ toString index ++ " was not opened"

end LoopBounds
