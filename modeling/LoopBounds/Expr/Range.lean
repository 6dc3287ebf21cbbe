/-
Ranges of index expressions.

A `Scope` records what is known about symbols; a symbol without an entry may
have any value. `Expr.range` bounds an expression in a scope, each operation on
its own: that two operands share a symbol is not seen, so `x - x` is wider than
`0` unless `x` is known exactly.
-/
import LoopBounds.Expr.Basic
import Std.Data.ExtTreeMap

namespace LoopBounds

/-- The intervals known for symbols. -/
abbrev Scope := Std.ExtTreeMap Symbol Interval

/-- What is known about a symbol; everything is possible for one without an entry. -/
def Scope.range (scope : Scope) (name : Symbol) : Interval :=
  scope[name]?.getD .unknown

/-- An interval around the values of the expression. -/
def Expr.range (scope : Scope) : Expr → Interval
  | .sym name => scope.range name
  | .const n => .singleton n
  | .neg e => -e.range scope
  | .binary op a b => op.range (a.range scope) (b.range scope)
  | .modIndex e d m => ((e.range scope).floorDiv (d.range scope)).mod (m.range scope)

end LoopBounds
