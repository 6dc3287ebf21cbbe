/-
Values that targets are applied to.

A `Value` is an operand once its node is known: the interval of a node, or a
name or a literal as it stands. `Bounds` holds the intervals of nodes.
-/
import LoopBounds.Graph
import LoopBounds.Interval.Basic
import Std.Data.ExtTreeMap

namespace LoopBounds

/-- The intervals of nodes. -/
abbrev Bounds := Std.ExtTreeMap NodeId Interval

/-- A resolved operand. -/
inductive Value where
  | range (interval : Interval)
  | name (text : String)
  | int (value : Int)
deriving DecidableEq, Inhabited, Repr

namespace Value

/-- The interval of a value that is one. -/
def range? : Value → Option Interval
  | .range interval => some interval
  | _ => none

/-- The value with its kind, except for an interval, which shows its own. -/
def text : Value → String
  | .range interval => interval.text
  | .name s => "name " ++ LoopBounds.Text.quoted s
  | .int value => "int " ++ toString value

end Value

end LoopBounds
