/-
Ends of intervals: the integers with a least and a greatest element added.

* `Bound` is linearly ordered, `-∞` first and `+∞` last;
* sums, products and floor quotients extend those of the integers, with
  `0 * ±∞ = 0`. The sum `-∞ + +∞` has no good value; it is set to `+∞`, and no
  interval operation ever forms it.

The lemmas here are the few facts on order and arithmetic that the interval
operations need to build valid intervals.
-/

namespace LoopBounds

/-- An end of an interval: `-∞`, an integer, or `+∞`. -/
inductive Bound where
  | negInf
  | finite (value : Int)
  | posInf
deriving DecidableEq, Inhabited, Repr

namespace Bound

instance : OfNat Bound n := ⟨.finite n⟩

/-- The integer of a finite bound. -/
def finite? : Bound → Option Int
  | .finite n => some n
  | _ => none

/-- Whether the bound is an integer. -/
def isFinite : Bound → Bool
  | .finite _ => true
  | _ => false

/-! ### Order -/

/-- `-∞` is below every bound and `+∞` above; integers compare as usual. -/
protected def le : Bound → Bound → Prop
  | .negInf, _ => True
  | .finite _, .negInf => False
  | .finite a, .finite b => a ≤ b
  | .finite _, .posInf => True
  | .posInf, .posInf => True
  | .posInf, _ => False

instance : LE Bound := ⟨Bound.le⟩

instance : LT Bound := ⟨fun a b => ¬ b ≤ a⟩

instance decidableLe : (a b : Bound) → Decidable (a ≤ b)
  | .negInf, _ => isTrue trivial
  | .finite _, .negInf => isFalse id
  | .finite a, .finite b => inferInstanceAs (Decidable (a ≤ b))
  | .finite _, .posInf => isTrue trivial
  | .posInf, .negInf => isFalse id
  | .posInf, .finite _ => isFalse id
  | .posInf, .posInf => isTrue trivial

instance decidableLt (a b : Bound) : Decidable (a < b) :=
  inferInstanceAs (Decidable (¬ b ≤ a))

instance : Min Bound := ⟨fun a b => if a ≤ b then a else b⟩

instance : Max Bound := ⟨fun a b => if a ≤ b then b else a⟩

instance : Ord Bound := ⟨fun a b => if a < b then .lt else if a = b then .eq else .gt⟩

@[simp] theorem finite_le_finite {a b : Int} : finite a ≤ finite b ↔ a ≤ b := Iff.rfl

@[simp] theorem negInf_le (b : Bound) : negInf ≤ b := trivial

@[simp] theorem le_posInf (b : Bound) : b ≤ posInf := by
  cases b <;> trivial

@[simp] theorem le_negInf {b : Bound} : b ≤ negInf ↔ b = negInf := by
  cases b <;> simp [LE.le, Bound.le]

@[simp] theorem posInf_le {b : Bound} : posInf ≤ b ↔ b = posInf := by
  cases b <;> simp [LE.le, Bound.le]

theorem lt_iff {a b : Bound} : a < b ↔ ¬ b ≤ a := Iff.rfl

@[simp] theorem finite_lt_finite {a b : Int} : finite a < finite b ↔ a < b := by
  rw [lt_iff, finite_le_finite]
  omega

@[simp] theorem zero_eq : (0 : Bound) = finite 0 := rfl

@[simp] theorem one_eq : (1 : Bound) = finite 1 := rfl

protected theorem le_refl (a : Bound) : a ≤ a := by
  cases a <;> simp

protected theorem le_trans {a b c : Bound} (hab : a ≤ b) (hbc : b ≤ c) : a ≤ c := by
  cases a <;> cases b <;> cases c <;> simp_all
  omega

protected theorem le_antisymm {a b : Bound} (hab : a ≤ b) (hba : b ≤ a) : a = b := by
  cases a <;> cases b <;> simp_all
  omega

protected theorem le_total (a b : Bound) : a ≤ b ∨ b ≤ a := by
  cases a <;> cases b <;> simp_all
  omega

instance : Std.IsLinearOrder Bound where
  le_refl := Bound.le_refl
  le_trans _ _ _ := Bound.le_trans
  le_antisymm _ _ := Bound.le_antisymm
  le_total := Bound.le_total

theorem min_def (a b : Bound) : min a b = if a ≤ b then a else b := rfl

theorem max_def (a b : Bound) : max a b = if a ≤ b then b else a := rfl

/-- The smaller of two bounds is one of them. -/
theorem min_eq_or (a b : Bound) : min a b = a ∨ min a b = b := by
  rw [min_def]
  split
  · exact Or.inl rfl
  · exact Or.inr rfl

/-- The larger of two bounds is one of them. -/
theorem max_eq_or (a b : Bound) : max a b = a ∨ max a b = b := by
  rw [max_def]
  split
  · exact Or.inr rfl
  · exact Or.inl rfl

protected theorem min_le_left (a b : Bound) : min a b ≤ a := by
  rw [min_def]
  split
  · exact Bound.le_refl a
  · exact (Bound.le_total a b).resolve_left ‹_›

protected theorem min_le_right (a b : Bound) : min a b ≤ b := by
  rw [min_def]
  split
  · assumption
  · exact Bound.le_refl b

protected theorem le_max_left (a b : Bound) : a ≤ max a b := by
  rw [max_def]
  split
  · assumption
  · exact Bound.le_refl a

protected theorem le_max_right (a b : Bound) : b ≤ max a b := by
  rw [max_def]
  split
  · exact Bound.le_refl b
  · exact (Bound.le_total a b).resolve_left ‹_›

protected theorem min_le_min {a b c d : Bound} (hac : a ≤ c) (hbd : b ≤ d) :
    min a b ≤ min c d := by
  rcases min_eq_or c d with h | h <;> rw [h]
  · exact Bound.le_trans (Bound.min_le_left a b) hac
  · exact Bound.le_trans (Bound.min_le_right a b) hbd

protected theorem max_le_max {a b c d : Bound} (hac : a ≤ c) (hbd : b ≤ d) :
    max a b ≤ max c d := by
  rcases max_eq_or a b with h | h <;> rw [h]
  · exact Bound.le_trans hac (Bound.le_max_left c d)
  · exact Bound.le_trans hbd (Bound.le_max_right c d)

/-- The smaller of two bounds is not one that neither is. -/
theorem min_ne {a b c : Bound} (ha : a ≠ c) (hb : b ≠ c) : min a b ≠ c := by
  rcases min_eq_or a b with h | h <;> rw [h] <;> assumption

/-- The larger of two bounds is not one that neither is. -/
theorem max_ne {a b c : Bound} (ha : a ≠ c) (hb : b ≠ c) : max a b ≠ c := by
  rcases max_eq_or a b with h | h <;> rw [h] <;> assumption

/-! ### Arithmetic -/

/-- Sum of two bounds; the undefined `-∞ + +∞` is `+∞`. -/
protected def add : Bound → Bound → Bound
  | .finite a, .finite b => .finite (a + b)
  | .finite _, .negInf => .negInf
  | .finite _, .posInf => .posInf
  | .negInf, .posInf => .posInf
  | .negInf, _ => .negInf
  | .posInf, _ => .posInf

/-- The negated bound; the infinities change places. -/
protected def neg : Bound → Bound
  | .negInf => .posInf
  | .finite n => .finite (-n)
  | .posInf => .negInf

/-- `-1`, `0` or `1`; the infinities have the signs they show. -/
def sign : Bound → Int
  | .negInf => -1
  | .finite n => n.sign
  | .posInf => 1

/-- The infinity of a sign, and `0` for the sign `0`. -/
def ofSign (s : Int) : Bound :=
  if s < 0 then .negInf else if s = 0 then .finite 0 else .posInf

/-- Product of two bounds, with `0 * ±∞ = 0`. -/
protected def mul : Bound → Bound → Bound
  | .finite a, .finite b => .finite (a * b)
  | a, b => ofSign (a.sign * b.sign)

/-- Quotient rounded down, for a divisor other than zero. -/
def floorDiv : Bound → Int → Bound
  | .finite n, d => .finite (n.fdiv d)
  | a, d => ofSign (a.sign * d.sign)

instance : Add Bound := ⟨Bound.add⟩

instance : Neg Bound := ⟨Bound.neg⟩

instance : Sub Bound := ⟨fun a b => a + -b⟩

instance : Mul Bound := ⟨Bound.mul⟩

@[simp] theorem finite_add_finite (a b : Int) : finite a + finite b = finite (a + b) := rfl

@[simp] theorem finite_add_negInf (a : Int) : finite a + negInf = negInf := rfl

@[simp] theorem finite_add_posInf (a : Int) : finite a + posInf = posInf := rfl

@[simp] theorem negInf_add_finite (b : Int) : negInf + finite b = negInf := rfl

@[simp] theorem negInf_add_negInf : negInf + negInf = negInf := rfl

@[simp] theorem negInf_add_posInf : negInf + posInf = posInf := rfl

@[simp] theorem posInf_add (b : Bound) : posInf + b = posInf := rfl

@[simp] theorem neg_finite (a : Int) : -finite a = finite (-a) := rfl

@[simp] theorem neg_negInf : -negInf = posInf := rfl

@[simp] theorem neg_posInf : -posInf = negInf := rfl

@[simp] theorem finite_mul_finite (a b : Int) : finite a * finite b = finite (a * b) := rfl

@[simp] theorem neg_le_neg {a b : Bound} : -a ≤ -b ↔ b ≤ a := by
  cases a <;> cases b <;> simp

@[simp] theorem neg_eq_posInf {a : Bound} : -a = posInf ↔ a = negInf := by
  cases a <;> simp

@[simp] theorem neg_eq_negInf {a : Bound} : -a = negInf ↔ a = posInf := by
  cases a <;> simp

/-- A sum is `-∞` only by an infinite summand. -/
theorem add_ne_negInf {a b : Bound} (ha : a ≠ negInf) (hb : b ≠ negInf) : a + b ≠ negInf := by
  cases a <;> cases b <;> simp_all

/-- A sum is `+∞` only by an infinite summand. -/
theorem add_ne_posInf {a b : Bound} (ha : a ≠ posInf) (hb : b ≠ posInf) : a + b ≠ posInf := by
  cases a <;> cases b <;> simp_all

/-- Sums are monotone where the lower ones are not `+∞`. -/
theorem add_le_add {a b c d : Bound} (ha : a ≠ posInf) (hc : c ≠ posInf)
    (hab : a ≤ b) (hcd : c ≤ d) (hb : b ≠ negInf) (hd : d ≠ negInf) : a + c ≤ b + d := by
  cases a <;> cases b <;> cases c <;> cases d <;> simp_all
  omega

/-! ### Text -/

/-- An integer in decimal, an infinity with its sign. -/
def text : Bound → String
  | .negInf => "-∞"
  | .finite n => toString n
  | .posInf => "+∞"

end Bound

end LoopBounds
