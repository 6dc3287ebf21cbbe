/-
Monotonicity of the arithmetic of bounds.

Sums are monotone as long as only one of the infinities takes part. Products and
floor quotients are monotone or antitone in each operand, as the sign of the
other one says, and the infinities fit in by `0 * ±∞ = 0`:

* `mul_le_or`, `le_mul_or` bound a product by the products with the ends of an
  interval around one factor;
* `floorDiv_le_or`, `le_floorDiv_or` do the same for the dividend of a quotient,
  and `floorDiv_divisor_between` for its divisor.

Two such steps, one for each operand, lead from any product or quotient to the
corners of the two intervals.
-/
import LoopBounds.Bound

namespace LoopBounds.Bound

/-! ### Order -/

protected theorem le_min {a b c : Bound} (hb : a ≤ b) (hc : a ≤ c) : a ≤ min b c := by
  rcases min_eq_or b c with h | h <;> rw [h] <;> assumption

protected theorem max_le {a b c : Bound} (ha : a ≤ c) (hb : b ≤ c) : max a b ≤ c := by
  rcases max_eq_or a b with h | h <;> rw [h] <;> assumption

@[simp] theorem min_finite (a b : Int) : min (finite a) (finite b) = finite (min a b) := by
  rw [min_def]
  split <;> rename_i h <;> rw [finite_le_finite] at h <;> congr 1 <;> omega

@[simp] theorem max_finite (a b : Int) : max (finite a) (finite b) = finite (max a b) := by
  rw [max_def]
  split <;> rename_i h <;> rw [finite_le_finite] at h <;> congr 1 <;> omega

/-- The least of a list of bounds is below each of them. -/
theorem foldl_min_le {a b : Bound} {l : List Bound} (h : b ∈ a :: l) : l.foldl min a ≤ b := by
  induction l generalizing a b with
  | nil =>
    rw [List.mem_singleton] at h
    rw [h]
    exact Bound.le_refl a
  | cons c l ih =>
    have hhead : l.foldl min (min a c) ≤ min a c := ih List.mem_cons_self
    rcases List.mem_cons.1 h with rfl | h
    · exact Bound.le_trans hhead (Bound.min_le_left _ _)
    · rcases List.mem_cons.1 h with rfl | h
      · exact Bound.le_trans hhead (Bound.min_le_right _ _)
      · exact ih (List.mem_cons_of_mem _ h)

/-- The greatest of a list of bounds is above each of them. -/
theorem le_foldl_max {a b : Bound} {l : List Bound} (h : b ∈ a :: l) : b ≤ l.foldl max a := by
  induction l generalizing a b with
  | nil =>
    rw [List.mem_singleton] at h
    rw [h]
    exact Bound.le_refl a
  | cons c l ih =>
    have hhead : max a c ≤ l.foldl max (max a c) := ih List.mem_cons_self
    rcases List.mem_cons.1 h with rfl | h
    · exact Bound.le_trans (Bound.le_max_left _ _) hhead
    · rcases List.mem_cons.1 h with rfl | h
      · exact Bound.le_trans (Bound.le_max_right _ _) hhead
      · exact ih (List.mem_cons_of_mem _ h)

/-- What is below each of a list of bounds is below the least of them. -/
theorem le_foldl_min {a b : Bound} {l : List Bound} (h : ∀ c ∈ a :: l, b ≤ c) :
    b ≤ l.foldl min a := by
  induction l generalizing a with
  | nil => exact h a List.mem_cons_self
  | cons c l ih =>
    refine ih ?_
    rw [List.forall_mem_cons, List.forall_mem_cons] at h
    exact List.forall_mem_cons.2 ⟨Bound.le_min h.1 h.2.1, h.2.2⟩

/-- What is above each of a list of bounds is above the greatest of them. -/
theorem foldl_max_le {a b : Bound} {l : List Bound} (h : ∀ c ∈ a :: l, c ≤ b) :
    l.foldl max a ≤ b := by
  induction l generalizing a with
  | nil => exact h a List.mem_cons_self
  | cons c l ih =>
    refine ih ?_
    rw [List.forall_mem_cons, List.forall_mem_cons] at h
    exact List.forall_mem_cons.2 ⟨Bound.max_le h.1 h.2.1, h.2.2⟩

/-! ### Sums -/

protected theorem neg_neg (a : Bound) : -(-a) = a := by
  cases a <;> simp

/-- Sums are monotone where no `+∞` takes part. -/
theorem add_le_add_of_ne_posInf {a b c d : Bound} (hb : b ≠ posInf) (hd : d ≠ posInf)
    (hab : a ≤ b) (hcd : c ≤ d) : a + c ≤ b + d := by
  cases a <;> cases b <;> cases c <;> cases d <;> simp_all
  omega

/-- Sums are monotone where no `-∞` takes part. -/
theorem add_le_add_of_ne_negInf {a b c d : Bound} (ha : a ≠ negInf) (hc : c ≠ negInf)
    (hab : a ≤ b) (hcd : c ≤ d) : a + c ≤ b + d := by
  cases a <;> cases b <;> cases c <;> cases d <;> simp_all
  omega

/-! ### Signs -/

@[simp] theorem sign_finite (n : Int) : (finite n).sign = n.sign := rfl

@[simp] theorem sign_negInf : negInf.sign = -1 := rfl

@[simp] theorem sign_posInf : posInf.sign = 1 := rfl

theorem neg_one_le_sign (a : Bound) : -1 ≤ a.sign := by
  cases a with
  | negInf => exact Int.le_refl _
  | posInf => decide
  | finite n =>
    rw [sign_finite]
    rcases Int.sign_trichotomy n with h | h | h <;> omega

theorem sign_le_one (a : Bound) : a.sign ≤ 1 := by
  cases a with
  | negInf => decide
  | posInf => exact Int.le_refl _
  | finite n =>
    rw [sign_finite]
    rcases Int.sign_trichotomy n with h | h | h <;> omega

theorem sign_le_sign {a b : Bound} (h : a ≤ b) : a.sign ≤ b.sign := by
  cases a with
  | negInf => exact neg_one_le_sign b
  | posInf =>
    cases posInf_le.1 h
    exact Int.le_refl _
  | finite m =>
    cases b with
    | negInf => cases le_negInf.1 h
    | posInf => exact sign_le_one (finite m)
    | finite n =>
      rw [finite_le_finite] at h
      rw [sign_finite, sign_finite]
      rcases Int.lt_trichotomy m 0 with hm | rfl | hm
      · rw [Int.sign_eq_neg_one_of_neg hm]
        exact neg_one_le_sign (finite n)
      · rw [Int.sign_zero, Int.sign_nonneg_iff]
        exact h
      · have hn : 0 < n := Int.lt_of_lt_of_le hm h
        exact Int.le_of_eq ((Int.sign_eq_one_of_pos hm).trans (Int.sign_eq_one_of_pos hn).symm)

@[simp] theorem ofSign_neg_one : ofSign (-1) = negInf := rfl

@[simp] theorem ofSign_zero : ofSign 0 = finite 0 := rfl

@[simp] theorem ofSign_one : ofSign 1 = posInf := rfl

theorem ofSign_le_ofSign {s t : Int} (h : s ≤ t) : ofSign s ≤ ofSign t := by
  unfold ofSign
  split
  · exact negInf_le _
  · split
    · rw [if_neg (by omega)]
      split
      · exact Bound.le_refl _
      · exact le_posInf _
    · rw [if_neg (by omega), if_neg (by omega)]
      exact Bound.le_refl _

theorem ofSign_neg (s : Int) : ofSign (-s) = -ofSign s := by
  rcases Int.lt_trichotomy s 0 with h | rfl | h
  · rw [ofSign, ofSign, if_neg (by omega), if_neg (by omega), if_pos h]
    rfl
  · rfl
  · rw [ofSign, ofSign, if_pos (by omega), if_neg (by omega), if_neg (by omega)]
    rfl

/-! ### Products -/

protected theorem mul_comm (a b : Bound) : a * b = b * a := by
  cases a <;> cases b <;> try rfl
  · rename_i n
    show ofSign (-1 * n.sign) = ofSign (n.sign * -1)
    rw [Int.mul_comm]
  · rename_i n
    show ofSign (n.sign * -1) = ofSign (-1 * n.sign)
    rw [Int.mul_comm]
  · rename_i m n
    rw [finite_mul_finite, finite_mul_finite, Int.mul_comm]
  · rename_i n
    show ofSign (n.sign * 1) = ofSign (1 * n.sign)
    rw [Int.mul_comm]
  · rename_i n
    show ofSign (1 * n.sign) = ofSign (n.sign * 1)
    rw [Int.mul_comm]

theorem mul_posInf (a : Bound) : a * posInf = ofSign a.sign := by
  cases a with
  | negInf => rfl
  | posInf => rfl
  | finite n =>
    show ofSign (n.sign * 1) = ofSign n.sign
    rw [Int.mul_one]

@[simp] theorem mul_finite_zero (a : Bound) : a * finite 0 = finite 0 := by
  cases a with
  | negInf => rfl
  | posInf => rfl
  | finite n => rw [finite_mul_finite, Int.mul_zero]

theorem negInf_mul_of_pos {n : Int} (h : 0 < n) : negInf * finite n = negInf := by
  show ofSign (-1 * n.sign) = negInf
  rw [Int.sign_eq_one_of_pos h]
  rfl

theorem posInf_mul_of_pos {n : Int} (h : 0 < n) : posInf * finite n = posInf := by
  show ofSign (1 * n.sign) = posInf
  rw [Int.sign_eq_one_of_pos h]
  rfl

protected theorem mul_neg (a b : Bound) : a * -b = -(a * b) := by
  cases a <;> cases b <;> try rfl
  · rename_i n
    show ofSign (-1 * (-n).sign) = -ofSign (-1 * n.sign)
    rw [Int.sign_neg, Int.mul_neg, ofSign_neg]
  · rename_i n
    show ofSign (n.sign * 1) = -ofSign (n.sign * -1)
    rw [← ofSign_neg, Int.mul_neg, Int.neg_neg]
  · rename_i m n
    simp only [neg_finite, finite_mul_finite, Int.mul_neg]
  · rename_i n
    show ofSign (n.sign * -1) = -ofSign (n.sign * 1)
    rw [← ofSign_neg, Int.mul_neg]
  · rename_i n
    show ofSign (1 * (-n).sign) = -ofSign (1 * n.sign)
    rw [Int.sign_neg, Int.mul_neg, ofSign_neg]

/-- Products with a bound that is not negative are monotone. -/
theorem mul_le_mul_right_of_nonneg {a b c : Bound} (hc : 0 ≤ c) (h : a ≤ b) :
    a * c ≤ b * c := by
  cases c with
  | negInf => simp at hc
  | posInf =>
    rw [mul_posInf, mul_posInf]
    exact ofSign_le_ofSign (sign_le_sign h)
  | finite n =>
    rw [zero_eq, finite_le_finite] at hc
    rcases Int.lt_or_eq_of_le hc with hpos | rfl
    · cases a with
      | negInf =>
        rw [negInf_mul_of_pos hpos]
        exact negInf_le _
      | posInf =>
        rw [posInf_le.1 h]
        exact Bound.le_refl _
      | finite m =>
        cases b with
        | negInf => simp at h
        | posInf =>
          rw [posInf_mul_of_pos hpos]
          exact le_posInf _
        | finite k => exact Int.mul_le_mul_of_nonneg_right h hc
    · rw [mul_finite_zero, mul_finite_zero]
      exact Bound.le_refl _

/-- Products with a bound that is not positive are antitone. -/
theorem mul_le_mul_right_of_nonpos {a b c : Bound} (hc : c ≤ 0) (h : a ≤ b) :
    b * c ≤ a * c := by
  have hneg : 0 ≤ -c := by
    rw [show (0 : Bound) = -0 from rfl, neg_le_neg]
    exact hc
  have hmul := mul_le_mul_right_of_nonneg hneg h
  rwa [Bound.mul_neg, Bound.mul_neg, neg_le_neg] at hmul

/-- One of the ends around a factor gives a product that is not larger. -/
theorem mul_le_or {a b x : Bound} (hax : a ≤ x) (hxb : x ≤ b) (c : Bound) :
    a * c ≤ x * c ∨ b * c ≤ x * c := by
  rcases Bound.le_total 0 c with hc | hc
  · exact Or.inl (mul_le_mul_right_of_nonneg hc hax)
  · exact Or.inr (mul_le_mul_right_of_nonpos hc hxb)

/-- One of the ends around a factor gives a product that is not smaller. -/
theorem le_mul_or {a b x : Bound} (hax : a ≤ x) (hxb : x ≤ b) (c : Bound) :
    x * c ≤ a * c ∨ x * c ≤ b * c := by
  rcases Bound.le_total 0 c with hc | hc
  · exact Or.inr (mul_le_mul_right_of_nonneg hc hxb)
  · exact Or.inl (mul_le_mul_right_of_nonpos hc hax)

/-! ### Quotients -/

theorem fdiv_le_fdiv {a b d : Int} (hd : 0 < d) (h : a ≤ b) : a.fdiv d ≤ b.fdiv d := by
  rw [Int.fdiv_eq_ediv_of_nonneg a (Int.le_of_lt hd),
    Int.fdiv_eq_ediv_of_nonneg b (Int.le_of_lt hd)]
  exact Int.ediv_le_ediv hd h

/-- A larger divisor brings the quotient of a number that is not negative down. -/
theorem fdiv_anti_divisor {n p q : Int} (hn : 0 ≤ n) (hp : 0 < p) (h : p ≤ q) :
    n.fdiv q ≤ n.fdiv p := by
  have hquot : 0 ≤ n / q := Int.ediv_nonneg hn (by omega)
  rw [Int.fdiv_eq_ediv_of_nonneg n (by omega), Int.fdiv_eq_ediv_of_nonneg n (Int.le_of_lt hp),
    Int.le_ediv_iff_mul_le hp]
  calc n / q * p ≤ n / q * q := Int.mul_le_mul_of_nonneg_left h hquot
    _ ≤ n := Int.ediv_mul_le n (by omega)

/-- A larger divisor brings the quotient of a number that is not positive up. -/
theorem fdiv_mono_divisor {n p q : Int} (hn : n ≤ 0) (hp : 0 < p) (h : p ≤ q) :
    n.fdiv p ≤ n.fdiv q := by
  have hquot : n / p ≤ 0 := Int.ediv_nonpos_of_nonpos_of_neg hn hp
  rw [Int.fdiv_eq_ediv_of_nonneg n (Int.le_of_lt hp), Int.fdiv_eq_ediv_of_nonneg n (by omega),
    Int.le_ediv_iff_mul_le (by omega)]
  calc n / p * q ≤ n / p * p := Int.mul_le_mul_of_nonpos_left hquot h
    _ ≤ n := Int.ediv_mul_le n (by omega)

@[simp] theorem floorDiv_finite (n d : Int) : (finite n).floorDiv d = finite (n.fdiv d) := rfl

theorem neg_floorDiv_neg (a : Bound) (d : Int) : (-a).floorDiv (-d) = a.floorDiv d := by
  cases a with
  | negInf =>
    show ofSign (1 * (-d).sign) = ofSign (-1 * d.sign)
    rw [Int.sign_neg, Int.mul_neg, Int.neg_mul]
  | posInf =>
    show ofSign (-1 * (-d).sign) = ofSign (1 * d.sign)
    rw [Int.sign_neg, Int.mul_neg, Int.neg_mul, Int.neg_neg]
  | finite n => simp

theorem negInf_floorDiv_of_pos {d : Int} (h : 0 < d) : negInf.floorDiv d = negInf := by
  show ofSign (-1 * d.sign) = negInf
  rw [Int.sign_eq_one_of_pos h]
  rfl

theorem posInf_floorDiv_of_pos {d : Int} (h : 0 < d) : posInf.floorDiv d = posInf := by
  show ofSign (1 * d.sign) = posInf
  rw [Int.sign_eq_one_of_pos h]
  rfl

/-- Quotients by a positive number are monotone. -/
theorem floorDiv_le_floorDiv {a b : Bound} {d : Int} (hd : 0 < d) (h : a ≤ b) :
    a.floorDiv d ≤ b.floorDiv d := by
  cases a with
  | negInf =>
    rw [negInf_floorDiv_of_pos hd]
    exact negInf_le _
  | posInf =>
    rw [posInf_le.1 h]
    exact Bound.le_refl _
  | finite m =>
    cases b with
    | negInf => simp at h
    | posInf =>
      rw [posInf_floorDiv_of_pos hd]
      exact le_posInf _
    | finite n => exact fdiv_le_fdiv hd h

/-- Quotients by a negative number are antitone. -/
theorem floorDiv_le_floorDiv_of_neg {a b : Bound} {d : Int} (hd : d < 0) (h : a ≤ b) :
    b.floorDiv d ≤ a.floorDiv d := by
  rw [← neg_floorDiv_neg b, ← neg_floorDiv_neg a]
  exact floorDiv_le_floorDiv (by omega) (neg_le_neg.2 h)

/-- One of the ends around a dividend gives a quotient that is not larger. -/
theorem floorDiv_le_or {a b x : Bound} {d : Int} (hd : d ≠ 0) (hax : a ≤ x) (hxb : x ≤ b) :
    a.floorDiv d ≤ x.floorDiv d ∨ b.floorDiv d ≤ x.floorDiv d := by
  rcases Int.lt_or_gt_of_ne hd with hneg | hpos
  · exact Or.inr (floorDiv_le_floorDiv_of_neg hneg hxb)
  · exact Or.inl (floorDiv_le_floorDiv hpos hax)

/-- One of the ends around a dividend gives a quotient that is not smaller. -/
theorem le_floorDiv_or {a b x : Bound} {d : Int} (hd : d ≠ 0) (hax : a ≤ x) (hxb : x ≤ b) :
    x.floorDiv d ≤ a.floorDiv d ∨ x.floorDiv d ≤ b.floorDiv d := by
  rcases Int.lt_or_gt_of_ne hd with hneg | hpos
  · exact Or.inl (floorDiv_le_floorDiv_of_neg hneg hax)
  · exact Or.inr (floorDiv_le_floorDiv hpos hxb)

/-- The quotients by the ends around a positive divisor lie on both sides. -/
theorem floorDiv_divisor_of_pos (a : Bound) {p d q : Int} (hp : 0 < p) (hpd : p ≤ d)
    (hdq : d ≤ q) :
    (a.floorDiv p ≤ a.floorDiv d ∧ a.floorDiv d ≤ a.floorDiv q) ∨
      (a.floorDiv q ≤ a.floorDiv d ∧ a.floorDiv d ≤ a.floorDiv p) := by
  have hd : 0 < d := by omega
  have hq : 0 < q := by omega
  cases a with
  | negInf => simp [negInf_floorDiv_of_pos, hp, hd, hq]
  | posInf => simp [posInf_floorDiv_of_pos, hp, hd, hq]
  | finite n =>
    rcases Int.le_total 0 n with hn | hn
    · exact Or.inr ⟨fdiv_anti_divisor hn hd hdq, fdiv_anti_divisor hn hp hpd⟩
    · exact Or.inl ⟨fdiv_mono_divisor hn hp hpd, fdiv_mono_divisor hn hd hdq⟩

/-- The quotients by the ends around a divisor of fixed sign lie on both sides. -/
theorem floorDiv_divisor_between (a : Bound) {p d q : Int} (hpd : p ≤ d) (hdq : d ≤ q)
    (hsign : 0 < p ∨ q < 0) :
    (a.floorDiv p ≤ a.floorDiv d ∧ a.floorDiv d ≤ a.floorDiv q) ∨
      (a.floorDiv q ≤ a.floorDiv d ∧ a.floorDiv d ≤ a.floorDiv p) := by
  rcases hsign with hp | hq
  · exact floorDiv_divisor_of_pos a hp hpd hdq
  · -- the negated divisor is positive, with its ends in the other order
    have h := floorDiv_divisor_of_pos (-a) (p := -q) (d := -d) (q := -p)
      (by omega) (by omega) (by omega)
    simp only [neg_floorDiv_neg] at h
    exact h.symm

end LoopBounds.Bound
