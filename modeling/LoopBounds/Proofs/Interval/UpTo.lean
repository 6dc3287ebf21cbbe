/-
Intervals that start at zero.

A loop variable lies between zero and its extent. As long as only such intervals
are added, multiplied and divided by positive constants, or reduced, the results
start at zero again, and their upper ends are found by the same operations on
natural numbers: `upTo_add`, `upTo_mul`, `upTo_floorDiv`, `upTo_mod`,
`upTo_minimum`. A loop variable with a constant for its upper bound starts the
calculation (`loopRange_const`).
-/
import LoopBounds.Proofs.Analysis.LoopRange

namespace LoopBounds

namespace Interval

/-- The integers from zero to a natural number. -/
def upTo (n : Nat) : Interval where
  low := 0
  high := .finite n
  low_le_high := Bound.finite_le_finite.2 (Int.natCast_nonneg n)
  low_ne_posInf := nonnegative.low_ne_posInf
  high_ne_negInf := Bound.noConfusion

variable (m n k : Nat)

theorem between_upTo : between 0 (.finite n) = upTo n := by
  have hends : ofBounds? 0 (.finite n) = some (upTo n) := ofBounds?_ends (upTo n)
  rw [between, hends, Option.getD_some]

/-- Corners at zero and at a natural number have the range between them. -/
theorem hull_upTo : hull (.finite 0) [.finite 0, .finite n, .finite n] = upTo n := by
  have hmin : min (min (min (0 : Int) 0) n) n = 0 := by omega
  have hmax : max (max (max (0 : Int) 0) n) n = n := by omega
  rw [← between_upTo, hull]
  simp only [List.foldl_cons, List.foldl_nil, Bound.min_finite, Bound.max_finite, hmin, hmax]
  rfl

theorem upTo_add : upTo m + upTo n = upTo (m + n) := by
  refine Interval.ext rfl ?_
  show Bound.finite m + Bound.finite n = .finite (m + n : Nat)
  rw [Bound.finite_add_finite, Int.natCast_add]

theorem upTo_mul : upTo m * singleton k = upTo (k * m) := by
  rw [← hull_upTo (k * m), Nat.mul_comm, Int.natCast_mul, ← Int.zero_mul k]
  rfl

theorem upTo_floorDiv (hk : 0 < k) : (upTo m).floorDiv (singleton k) = upTo (m / k) := by
  have hzero : (0 : Int) ∉ singleton k := fun h => by
    have := mem_singleton.1 h
    omega
  rw [floorDiv_eq_hull (upTo m) rfl rfl hzero, ← hull_upTo (m / k),
    Int.natCast_ediv]
  show hull (.finite (Int.fdiv 0 k))
    [.finite (Int.fdiv 0 k), .finite (Int.fdiv m k), .finite (Int.fdiv m k)] = _
  rw [Int.zero_fdiv, Int.fdiv_eq_ediv_of_nonneg _ (Int.natCast_nonneg k)]

/-- The dividend is its own remainder if it lies below the divisor. -/
theorem upTo_mod (hk : 0 < k) : (upTo m).mod (singleton k) = upTo (min m (k - 1)) := by
  rw [mod_of_pos (upTo m) rfl rfl (Int.natCast_pos.2 hk)]
  by_cases hlt : m < k
  · have hkept : (0 : Bound) ≤ (upTo m).low ∧ (upTo m).high < .finite k :=
      ⟨Bound.le_refl _, Bound.finite_lt_finite.2 (Int.ofNat_lt.2 hlt)⟩
    rw [if_pos hkept, Nat.min_eq_left (by omega)]
  · have hlost : ¬ ((0 : Bound) ≤ (upTo m).low ∧ (upTo m).high < .finite k) := fun h =>
      hlt (Int.ofNat_lt.1 (Bound.finite_lt_finite.1 h.2))
    rw [if_neg hlost, Nat.min_eq_right (by omega), ← between_upTo, Int.natCast_sub hk]
    rfl

theorem upTo_minimum : (upTo m).minimum (upTo n) = upTo (min m n) := by
  refine Interval.ext rfl ?_
  show min (Bound.finite m) (.finite n) = .finite (min m n : Nat)
  rw [Bound.min_finite]
  congr 1
  omega

end Interval

/-- A variable with a constant extent has the range up to it, or only zero if it is negative. -/
theorem Expr.loopRange_const (extent : Int) : (const extent).loopRange = .upTo extent.toNat := by
  rw [loopRange_of_isFaithful rfl rfl]
  show Interval.between 0 (.finite (max extent 0)) = _
  rw [← Int.toNat_eq_max, Interval.between_upTo]

end LoopBounds
