/-
Operations by name.

An `Operation` is one that the analysis understands. `Operation.ofName?` gives
the meaning of a name, some of which are synonyms. Each operation has an exact
result on integers (`eval?`) and a range on intervals (`apply`); truth is being
other than zero, and predicates answer `0` or `1`.

`Operation.apply` takes the operands from a list of values and refuses one that
is missing or no interval. Further values are ignored.
-/
import LoopBounds.Arith
import LoopBounds.Error
import LoopBounds.Interval.Predicate
import LoopBounds.Value

namespace LoopBounds

/-- An operation on one integer. -/
inductive Unary where
  | identity
  | neg
  | abs
  | square
  | not
deriving DecidableEq, Repr

namespace Unary

/-- The exact result. -/
def eval : Unary → Int → Int
  | .identity, a => a
  | .neg, a => -a
  | .abs, a => a.natAbs
  | .square, a => a * a
  | .not, a => (decide (a = 0)).toInt

/-- An interval around all results. -/
def range : Unary → Interval → Interval
  | .identity, a => a
  | .neg, a => -a
  | .abs, a => a.abs
  | .square, a => a.square
  | .not, a => a.logicalNot

end Unary

/-- A comparison of two integers. -/
inductive Relation where
  | lt
  | le
  | gt
  | ge
  | eq
  | ne
deriving DecidableEq, Repr

namespace Relation

/-- Whether the comparison holds. -/
def holds : Relation → Int → Int → Bool
  | .lt, a, b => a < b
  | .le, a, b => a ≤ b
  | .gt, a, b => b < a
  | .ge, a, b => b ≤ a
  | .eq, a, b => a = b
  | .ne, a, b => a ≠ b

/-- An interval around all answers. -/
def range : Relation → Interval → Interval → Interval
  | .lt, a, b => a.lessThan b
  | .le, a, b => a.atMost b
  | .gt, a, b => a.greaterThan b
  | .ge, a, b => a.atLeast b
  | .eq, a, b => a.equal b
  | .ne, a, b => a.notEqual b

end Relation

/-- An operation on two integers. -/
inductive Binary where
  | arith (op : Arith)
  | compare (rel : Relation)
  | and
  | or
deriving DecidableEq, Repr

namespace Binary

/-- The exact result; none for a zero divisor. -/
def eval : Binary → Int → Int → Option Int
  | .arith op, a, b => op.eval a b
  | .compare rel, a, b => some (rel.holds a b).toInt
  | .and, a, b => some (decide (a ≠ 0 ∧ b ≠ 0)).toInt
  | .or, a, b => some (decide (a ≠ 0 ∨ b ≠ 0)).toInt

/-- An interval around all results. -/
def range : Binary → Interval → Interval → Interval
  | .arith op, a, b => op.range a b
  | .compare rel, a, b => rel.range a b
  | .and, a, b => a.logicalAnd b
  | .or, a, b => a.logicalOr b

end Binary

/-- An operation that the analysis understands. -/
inductive Operation where
  /-- A literal, or a value that is passed on. -/
  | constant
  | unary (op : Unary)
  | binary (op : Binary)
  /-- The second operand where the first is true, else the third. -/
  | select
deriving DecidableEq, Repr

namespace Operation

/-- The operation of this name. -/
def ofName? : String → Option Operation
  | "constant" => some .constant
  | "index_expr" => some (.unary .identity)
  | "to_dtype" => some (.unary .identity)
  | "identity" => some (.unary .identity)
  | "neg" => some (.unary .neg)
  | "abs" => some (.unary .abs)
  | "square" => some (.unary .square)
  | "not" => some (.unary .not)
  | "logical_not" => some (.unary .not)
  | "add" => some (.binary (.arith .add))
  | "sub" => some (.binary (.arith .sub))
  | "mul" => some (.binary (.arith .mul))
  | "floordiv" => some (.binary (.arith .floorDiv))
  | "mod" => some (.binary (.arith .mod))
  | "minimum" => some (.binary (.arith .min))
  | "maximum" => some (.binary (.arith .max))
  | "lt" => some (.binary (.compare .lt))
  | "le" => some (.binary (.compare .le))
  | "gt" => some (.binary (.compare .gt))
  | "ge" => some (.binary (.compare .ge))
  | "eq" => some (.binary (.compare .eq))
  | "ne" => some (.binary (.compare .ne))
  | "and" => some (.binary .and)
  | "logical_and" => some (.binary .and)
  | "or" => some (.binary .or)
  | "logical_or" => some (.binary .or)
  | "where" => some .select
  | _ => none

/-- The exact result on integers, of which only the first ones count; none if there are too few
of them, or for a zero divisor. -/
def eval? : Operation → List Int → Option Int
  | .constant, a :: _ => some a
  | .unary f, a :: _ => some (f.eval a)
  | .binary f, a :: b :: _ => f.eval a b
  | .select, c :: a :: b :: _ => some (if c = 0 then b else a)
  | _, _ => none

/-- The interval at a position of the arguments of the named operation. -/
def operand (name : String) (args : List Value) (position : Nat) : Except Error Interval :=
  match args[position]? with
  | some (.range interval) => .ok interval
  | _ => .error (.invalidOperand name position)

/-- The range of the operation, invoked under a name, on its arguments. -/
def apply (op : Operation) (name : String) (args : List Value) : Except Error Interval :=
  match op with
  | .constant =>
    match args with
    | .int value :: _ => .ok (.singleton value)
    | .range interval :: _ => .ok interval
    | _ => .error (.invalidOperand name 0)
  | .unary f => do
    return f.range (← operand name args 0)
  | .binary f => do
    return f.range (← operand name args 0) (← operand name args 1)
  | .select => do
    return (← operand name args 0).select (← operand name args 1) (← operand name args 2)

end Operation

end LoopBounds
