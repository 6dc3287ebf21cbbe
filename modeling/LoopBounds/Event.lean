/-
What an analysis tells while it runs.

An `Event` is a step worth noting. Its level separates the course of the
analysis from the fate of each single node.
-/
import LoopBounds.Expr.Basic
import LoopBounds.Graph

namespace LoopBounds

/-- How much detail an event adds. -/
inductive Level where
  | debug
  | trace
deriving DecidableEq, Repr

/-- The level in capitals. -/
def Level.text : Level → String
  | .debug => "DEBUG"
  | .trace => "TRACE"

/-- A noteworthy step of an analysis. -/
inductive Event where
  /-- A node had an interval already and was not evaluated. -/
  | skipped (id : NodeId)
  /-- A node was evaluated. -/
  | evaluated (node : Node) (result : Interval)
  /-- An operation is unknown, so that its result is too. -/
  | unrecognised (op : String)
  /-- Nodes were taken as unbounded before the run. -/
  | seeded (count total : Nat)
  /-- An index was resolved. -/
  | resolved (name : String) (expr : Expr) (range : Interval)
  /-- An indirect variable was bound. -/
  | bound (var : Symbol) (range : Interval)
  /-- A subblock is about to be run. -/
  | entered (index depth : Nat)
  /-- A subblock was run. -/
  | left (index : Nat) (result : Interval)
deriving DecidableEq, Repr

namespace Event

/-- The fate of single nodes is a trace, all else concerns the analysis. -/
def level : Event → Level
  | .skipped _ | .evaluated .. | .unrecognised _ => .trace
  | _ => .debug

/-- What is told about the event. -/
def message : Event → String
  | .skipped id => id.text ++ " is pre-seeded, skipping"
  | .evaluated node result => node.text ++ " -> " ++ result.text
  | .unrecognised op => "no interval semantics for `" ++ op ++ "`, assuming unknown"
  | .seeded count total =>
    "seeded " ++ toString count ++ " of " ++ toString total ++ " nodes as unbounded"
  | .resolved name expr range =>
    "get_index(" ++ name ++ ") = " ++ expr.text ++ " -> " ++ range.text
  | .bound var range => "set_indirect(" ++ var ++ ") = " ++ range.text
  | .entered index depth =>
    "entering masked_subblock" ++ toString index ++ " (depth " ++ toString depth ++ ")"
  | .left index result => "masked_subblock" ++ toString index ++ " = " ++ result.text

end Event

end LoopBounds
