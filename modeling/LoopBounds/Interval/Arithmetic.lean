/-
Arithmetic on intervals.

Each operation takes the intervals of its operands to one around all results:
sums, differences and the like work end by end; products and floor quotients
take the hull of the values at the corners, since between the corners they are
monotone in each operand.

Quotient and remainder answer `unknown` for a divisor that is unbounded, and
where it may be zero.
-/
import LoopBounds.Interval.Basic

namespace LoopBounds.Interval

/-- Sums, end by end. -/
protected def add (a b : Interval) : Interval where
  low := a.low + b.low
  high := a.high + b.high
  low_le_high := Bound.add_le_add a.low_ne_posInf b.low_ne_posInf a.low_le_high b.low_le_high
    a.high_ne_negInf b.high_ne_negInf
  low_ne_posInf := Bound.add_ne_posInf a.low_ne_posInf b.low_ne_posInf
  high_ne_negInf := Bound.add_ne_negInf a.high_ne_negInf b.high_ne_negInf

instance : Add Interval := ⟨Interval.add⟩

/-- Negatives: the ends change sign and places. -/
protected def neg (a : Interval) : Interval where
  low := -a.high
  high := -a.low
  low_le_high := Bound.neg_le_neg.2 a.low_le_high
  low_ne_posInf := fun h => a.high_ne_negInf (Bound.neg_eq_posInf.1 h)
  high_ne_negInf := fun h => a.low_ne_posInf (Bound.neg_eq_negInf.1 h)

instance : Neg Interval := ⟨Interval.neg⟩

/-- Differences: sums with the negatives. -/
protected def sub (a b : Interval) : Interval :=
  a + -b

instance : Sub Interval := ⟨Interval.sub⟩

/-- Products: the hull of the four corner products. -/
protected def mul (a b : Interval) : Interval :=
  hull (a.low * b.low) [a.low * b.high, a.high * b.low, a.high * b.high]

instance : Mul Interval := ⟨Interval.mul⟩

/-- Squares: the products of the interval with itself that are not negative. -/
def square (a : Interval) : Interval :=
  ((a * a).inter? nonnegative).getD (a * a)

/-- Absolute values. -/
def abs (a : Interval) : Interval :=
  if 0 ≤ a.low then a
  else if h : a.high ≤ 0 then -a
  else
    { low := 0
      high := max (-a.low) a.high
      low_le_high := Bound.le_trans ((Bound.le_total _ _).resolve_right h)
        (Bound.le_max_right _ _)
      low_ne_posInf := Bound.noConfusion
      high_ne_negInf := Bound.max_ne (fun h => a.low_ne_posInf (Bound.neg_eq_negInf.1 h))
        a.high_ne_negInf }

/-- Quotients rounded down; unknown if the divisor is unbounded or may be zero. -/
def floorDiv (a d : Interval) : Interval :=
  match d.low, d.high with
  | .finite p, .finite q =>
    if 0 ∈ d then unknown
    else hull (a.low.floorDiv p) [a.low.floorDiv q, a.high.floorDiv p, a.high.floorDiv q]
  | _, _ => unknown

/-- Remainders with the sign of the divisor. A dividend that is its own remainder for every
divisor is kept as it is; a divisor that is unbounded or may be zero gives `unknown`. -/
def mod (a d : Interval) : Interval :=
  match d.low, d.high with
  | .finite p, .finite q =>
    -- the sign of the divisor is fixed only if both its ends lie on one side of zero
    if 0 < p then
      if 0 ≤ a.low ∧ a.high < .finite p then a else between 0 (.finite (q - 1))
    else if q < 0 then
      if a.high ≤ 0 ∧ .finite q < a.low then a else between (.finite (p + 1)) 0
    else unknown
  | _, _ => unknown

theorem min_low_le_min_high (a b : Interval) : min a.low b.low ≤ min a.high b.high :=
  Bound.min_le_min a.low_le_high b.low_le_high

theorem min_high_ne_negInf (a b : Interval) : min a.high b.high ≠ .negInf :=
  Bound.min_ne a.high_ne_negInf b.high_ne_negInf

/-- Smaller values, end by end. -/
def minimum (a b : Interval) : Interval where
  low := min a.low b.low
  high := min a.high b.high
  low_le_high := min_low_le_min_high a b
  low_ne_posInf := min_low_ne_posInf a b
  high_ne_negInf := min_high_ne_negInf a b

theorem max_low_le_max_high (a b : Interval) : max a.low b.low ≤ max a.high b.high :=
  Bound.max_le_max a.low_le_high b.low_le_high

theorem max_low_ne_posInf (a b : Interval) : max a.low b.low ≠ .posInf :=
  Bound.max_ne a.low_ne_posInf b.low_ne_posInf

/-- Larger values, end by end. -/
def maximum (a b : Interval) : Interval where
  low := max a.low b.low
  high := max a.high b.high
  low_le_high := max_low_le_max_high a b
  low_ne_posInf := max_low_ne_posInf a b
  high_ne_negInf := max_high_ne_negInf a b

end LoopBounds.Interval
