/-
The binary arithmetic of index expressions and loop bodies.

`Arith` names the seven operations. Each has an exact meaning on integers
(`Arith.eval`, undefined where the divisor is zero) and a range on intervals
(`Arith.range`).
-/
import LoopBounds.Interval.Arithmetic

namespace LoopBounds

/-- A binary operation on integers. Quotients round down, and a remainder has the sign of the
divisor. -/
inductive Arith where
  | add
  | sub
  | mul
  | floorDiv
  | mod
  | min
  | max
deriving DecidableEq, Repr

namespace Arith

/-- The exact result; none for a zero divisor. -/
def eval : Arith → Int → Int → Option Int
  | .add, a, b => some (a + b)
  | .sub, a, b => some (a - b)
  | .mul, a, b => some (a * b)
  | .floorDiv, a, b => if b = 0 then none else some (a.fdiv b)
  | .mod, a, b => if b = 0 then none else some (a.fmod b)
  | .min, a, b => some (Min.min a b)
  | .max, a, b => some (Max.max a b)

/-- An interval around all results. -/
def range : Arith → Interval → Interval → Interval
  | .add, a, b => a + b
  | .sub, a, b => a - b
  | .mul, a, b => a * b
  | .floorDiv, a, b => a.floorDiv b
  | .mod, a, b => a.mod b
  | .min, a, b => a.minimum b
  | .max, a, b => a.maximum b

/-- The operation applied to two written operands. -/
def text : Arith → String → String → String
  | .add, a, b => "(" ++ a ++ " + " ++ b ++ ")"
  | .sub, a, b => "(" ++ a ++ " - " ++ b ++ ")"
  | .mul, a, b => "(" ++ a ++ " * " ++ b ++ ")"
  | .floorDiv, a, b => "(" ++ a ++ " // " ++ b ++ ")"
  | .mod, a, b => "(" ++ a ++ " % " ++ b ++ ")"
  | .min, a, b => "min(" ++ a ++ ", " ++ b ++ ")"
  | .max, a, b => "max(" ++ a ++ ", " ++ b ++ ")"

end Arith

end LoopBounds
