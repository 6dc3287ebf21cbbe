/-
Why an analysis fails.

Every `Error` means that the loop body is malformed or that its indices
contradict each other. None can be mended during the analysis, which ends with
the first one.
-/
import LoopBounds.Graph
import LoopBounds.Interval.Basic

namespace LoopBounds

/-- The cause that ends an analysis. -/
inductive Error where
  /-- The subblock has not exactly one output. -/
  | malformedSubblock (index found : Nat)
  /-- A binding got something else than an interval. -/
  | notAnInterval (target found : String)
  /-- An index has a range now that is not allowed after its previous one. -/
  | reresolutionMismatch (name : String) (previous current : Interval)
  /-- Two ranges of an index have no integer in common. -/
  | disjointBounds (name : String) (left right : Interval)
  /-- The body has no index of this name. -/
  | unknownIndex (name : String)
  /-- A node is read before it has an interval. -/
  | undefinedNode (id : NodeId)
  /-- Nothing is known of how to evaluate the target. -/
  | unregisteredSubmodule (target : String)
  /-- An operand is missing or of the wrong kind. -/
  | invalidOperand (op : String) (position : Nat)
  /-- Subblocks lie deeper in each other than the limit allows. -/
  | nestingTooDeep (limit : Nat)
deriving DecidableEq, Repr

namespace Error

/-- What is told about an error. -/
def message : Error → String
  | .malformedSubblock index found =>
    "masked subblock " ++ toString index ++ " has " ++ toString found ++
      " output nodes, expected exactly one"
  | .notAnInterval target found => target ++ " expects an interval operand, got " ++ found
  | .reresolutionMismatch name previous current =>
    "index `" ++ name ++ "` re-resolved to " ++ current.text ++
      ", previously recorded as " ++ previous.text
  | .disjointBounds name left right =>
    "bounds " ++ left.text ++ " and " ++ right.text ++ " of `" ++ name ++ "` are disjoint"
  | .unknownIndex name => "unknown index name `" ++ name ++ "`"
  | .undefinedNode id => "node " ++ id.text ++ " is used before it is computed"
  | .unregisteredSubmodule target => "no submodule registered for `" ++ target ++ "`"
  | .invalidOperand op position =>
    "operation `" ++ op ++ "` got an invalid operand at position " ++ toString position
  | .nestingTooDeep limit =>
    "masked subblocks nested deeper than " ++ toString limit ++ " levels"

end Error

end LoopBounds
