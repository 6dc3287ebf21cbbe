/-
Index expressions.

An `Expr` is an integer expression over named symbols: loop variables, indirect
variables and the names of other indices. It has an exact value under an
assignment of its symbols (`Expr.eval?`), undefined where a symbol has no value
or a divisor is zero, and a written form (`Expr.text`).

`Expr.occurrences` lists the symbols from left to right, with repeats;
`Expr.symbols` is the set of them.
-/
import LoopBounds.Arith
import Std.Data.ExtTreeSet

namespace LoopBounds

/-- The name of a loop variable, an indirect variable or an index. -/
abbrev Symbol := String

/-- An integer expression over symbols. -/
inductive Expr where
  | sym (name : Symbol)
  | const (value : Int)
  | neg (body : Expr)
  | binary (op : Arith) (left right : Expr)
  /-- The remainder modulo `modulus` of the quotient of `base` by `divisor`. -/
  | modIndex (base divisor modulus : Expr)
deriving DecidableEq, Inhabited, Repr

namespace Expr

instance : OfNat Expr n := ⟨.const n⟩

instance : Neg Expr := ⟨.neg⟩

instance : Add Expr := ⟨.binary .add⟩

instance : Sub Expr := ⟨.binary .sub⟩

instance : Mul Expr := ⟨.binary .mul⟩

instance : Div Expr := ⟨.binary .floorDiv⟩

instance : Mod Expr := ⟨.binary .mod⟩

instance : Min Expr := ⟨.binary .min⟩

instance : Max Expr := ⟨.binary .max⟩

/-! ### Symbols -/

/-- The symbols from left to right, as often as they stand there. -/
def occurrences : Expr → List Symbol
  | .sym name => [name]
  | .const _ => []
  | .neg e => e.occurrences
  | .binary _ a b => a.occurrences ++ b.occurrences
  | .modIndex e d m => e.occurrences ++ d.occurrences ++ m.occurrences

/-- The set of symbols of the expression. -/
def symbols (e : Expr) : Std.ExtTreeSet Symbol :=
  .ofList e.occurrences

/-- Whether the expression mentions no symbol. -/
def isConcrete (e : Expr) : Bool :=
  e.symbols.isEmpty

/-! ### Value -/

/-- The exact value under an assignment; none if a symbol has no value or a divisor is zero. -/
def eval? (values : Symbol → Option Int) : Expr → Option Int
  | .sym name => values name
  | .const n => some n
  | .neg e => do return -(← e.eval? values)
  | .binary op a b => do op.eval (← a.eval? values) (← b.eval? values)
  | .modIndex e d m => do
    let quotient ← Arith.floorDiv.eval (← e.eval? values) (← d.eval? values)
    Arith.mod.eval quotient (← m.eval? values)

/-! ### Text -/

/-- The written form: infix operations stand in parentheses, a negation does not. -/
def text : Expr → String
  | .sym name => name
  | .const n => toString n
  | .neg e => "-" ++ e.text
  | .binary op a b => op.text a.text b.text
  | .modIndex e d m => "ModularIndexing(" ++ e.text ++ ", " ++ d.text ++ ", " ++ m.text ++ ")"

end Expr

end LoopBounds
