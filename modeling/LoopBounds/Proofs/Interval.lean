/-
What the operations on intervals hold.

Every operation takes members to members: for `x ∈ a` and `y ∈ b` the exact
result on `x` and `y` lies in the result on `a` and `b` (`mem_add`, `mem_mul`,
`mem_floorDiv`, `mem_lessThan`, ...). Sums and the like are bounded end by end.
Products and quotients reach a corner in two steps, one operand at a time.
Predicates are decided only where all members agree.
-/
import LoopBounds.Interval.Arithmetic
import LoopBounds.Interval.Predicate
import LoopBounds.Proofs.Bound

namespace LoopBounds.Interval

/-! ### Membership -/

@[simp] theorem mem_singleton {x n : Int} : x ∈ singleton n ↔ x = n := by
  simp only [mem_def, singleton, Bound.finite_le_finite]
  omega

@[simp] theorem mem_unknown (x : Int) : x ∈ unknown := by
  simp [mem_def, unknown]

@[simp] theorem mem_nonnegative {x : Int} : x ∈ nonnegative ↔ 0 ≤ x := by
  simp [mem_def, nonnegative]

theorem mem_boolean {x : Int} : x ∈ boolean ↔ x = 0 ∨ x = 1 := by
  simp only [mem_def, boolean, Bound.zero_eq, Bound.one_eq, Bound.finite_le_finite]
  omega

@[simp] theorem toInt_mem_boolean (p : Bool) : p.toInt ∈ boolean := by
  rw [mem_boolean]
  cases p <;> simp

@[simp] theorem mem_ofBool {x : Int} {p : Bool} : x ∈ ofBool p ↔ x = p.toInt := mem_singleton

protected theorem le_refl (a : Interval) : a ≤ a := ⟨Bound.le_refl _, Bound.le_refl _⟩

protected theorem le_trans {a b c : Interval} (hab : a ≤ b) (hbc : b ≤ c) : a ≤ c :=
  ⟨Bound.le_trans hbc.1 hab.1, Bound.le_trans hab.2 hbc.2⟩

theorem le_unknown (a : Interval) : a ≤ unknown := by
  simp [le_def, unknown]

theorem mem_of_le {x : Int} {a b : Interval} (h : a ≤ b) (hx : x ∈ a) : x ∈ b :=
  ⟨Bound.le_trans h.1 hx.1, Bound.le_trans hx.2 h.2⟩

/-- Ends with an integer between them are those of an interval. -/
theorem exists_ofBounds? {x : Int} {low high : Bound} (hlow : low ≤ .finite x)
    (hhigh : .finite x ≤ high) : ∃ a, ofBounds? low high = some a ∧ x ∈ a := by
  have hvalid : low ≤ high ∧ low ≠ .posInf ∧ high ≠ .negInf := by
    refine ⟨Bound.le_trans hlow hhigh, ?_, ?_⟩
    · rintro rfl
      simp at hlow
    · rintro rfl
      simp at hhigh
  rw [ofBounds?, dif_pos hvalid]
  exact ⟨_, rfl, hlow, hhigh⟩

theorem mem_between {x : Int} {low high : Bound} (hlow : low ≤ .finite x)
    (hhigh : .finite x ≤ high) : x ∈ between low high := by
  obtain ⟨a, ha, hx⟩ := exists_ofBounds? hlow hhigh
  rw [between, ha]
  exact hx

/-- A hull holds every integer with a corner on either side. -/
theorem mem_hull {x : Int} {p q corner : Bound} {corners : List Bound}
    (hp : p ∈ corner :: corners) (hq : q ∈ corner :: corners) (hpx : p ≤ .finite x)
    (hxq : .finite x ≤ q) : x ∈ hull corner corners :=
  mem_between (Bound.le_trans (Bound.foldl_min_le hp) hpx)
    (Bound.le_trans hxq (Bound.le_foldl_max hq))

/-- The common part holds the common members. -/
theorem exists_inter? {x : Int} {a b : Interval} (ha : x ∈ a) (hb : x ∈ b) :
    ∃ c, a.inter? b = some c ∧ x ∈ c :=
  exists_ofBounds? (Bound.max_le ha.1 hb.1) (Bound.le_min ha.2 hb.2)

/-- The common part holds nothing else. -/
theorem mem_of_inter? {x : Int} {a b c : Interval} (h : a.inter? b = some c) (hx : x ∈ c) :
    x ∈ a ∧ x ∈ b := by
  obtain ⟨hlow, hhigh⟩ := ofBounds?_eq_some_iff.1 h
  rw [mem_def, hlow, hhigh] at hx
  exact ⟨⟨Bound.le_trans (Bound.le_max_left _ _) hx.1, Bound.le_trans hx.2 (Bound.min_le_left _ _)⟩,
    ⟨Bound.le_trans (Bound.le_max_right _ _) hx.1, Bound.le_trans hx.2 (Bound.min_le_right _ _)⟩⟩

/-- The common part with an interval around is the interval itself. -/
theorem inter?_of_le {a b : Interval} (h : a ≤ b) : a.inter? b = some a := by
  have hlow : max a.low b.low = a.low :=
    Bound.le_antisymm (Bound.max_le (Bound.le_refl _) h.1) (Bound.le_max_left _ _)
  have hhigh : min a.high b.high = a.high :=
    Bound.le_antisymm (Bound.min_le_left _ _) (Bound.le_min (Bound.le_refl _) h.2)
  rw [inter?, hlow, hhigh, ofBounds?_ends]

theorem mem_join_left {x : Int} {a b : Interval} (h : x ∈ a) : x ∈ a.join b :=
  ⟨Bound.le_trans (Bound.min_le_left _ _) h.1, Bound.le_trans h.2 (Bound.le_max_left _ _)⟩

theorem mem_join_right {x : Int} {a b : Interval} (h : x ∈ b) : x ∈ a.join b :=
  ⟨Bound.le_trans (Bound.min_le_right _ _) h.1, Bound.le_trans h.2 (Bound.le_max_right _ _)⟩

/-! ### Arithmetic -/

theorem mem_add {x y : Int} {a b : Interval} (hx : x ∈ a) (hy : y ∈ b) : x + y ∈ a + b := by
  have hfinite (n : Int) : Bound.finite n ≠ .negInf ∧ Bound.finite n ≠ .posInf := by simp
  constructor
  · exact Bound.add_le_add a.low_ne_posInf b.low_ne_posInf hx.1 hy.1 (hfinite x).1 (hfinite y).1
  · exact Bound.add_le_add (hfinite x).2 (hfinite y).2 hx.2 hy.2 a.high_ne_negInf b.high_ne_negInf

theorem mem_neg {x : Int} {a : Interval} (hx : x ∈ a) : -x ∈ -a :=
  ⟨Bound.neg_le_neg.2 hx.2, Bound.neg_le_neg.2 hx.1⟩

theorem mem_sub {x y : Int} {a b : Interval} (hx : x ∈ a) (hy : y ∈ b) : x - y ∈ a - b := by
  rw [Int.sub_eq_add_neg]
  exact mem_add hx (mem_neg hy)

/-- The bound lies between the ends. An integer does if and only if it is a member. -/
def Spans (a : Interval) (x : Bound) : Prop :=
  a.low ≤ x ∧ x ≤ a.high

/-- A corner is not above the product of two bounds between the ends: one operand is taken to an
end after the other. -/
theorem mul_corner_le {x y : Bound} {a b : Interval} (hx : a.Spans x) (hy : b.Spans y) :
    ∃ p ∈ [a.low * b.low, a.low * b.high, a.high * b.low, a.high * b.high], p ≤ x * y := by
  have hend (e : Bound) : e * b.low ≤ e * y ∨ e * b.high ≤ e * y := by
    rw [Bound.mul_comm e, Bound.mul_comm e, Bound.mul_comm e]
    exact Bound.mul_le_or hy.1 hy.2 e
  rcases Bound.mul_le_or hx.1 hx.2 y with h | h
  · rcases hend a.low with h' | h' <;> exact ⟨_, by simp, Bound.le_trans h' h⟩
  · rcases hend a.high with h' | h' <;> exact ⟨_, by simp, Bound.le_trans h' h⟩

/-- A corner is not below the product of two bounds between the ends. -/
theorem le_mul_corner {x y : Bound} {a b : Interval} (hx : a.Spans x) (hy : b.Spans y) :
    ∃ q ∈ [a.low * b.low, a.low * b.high, a.high * b.low, a.high * b.high], x * y ≤ q := by
  have hend (e : Bound) : e * y ≤ e * b.low ∨ e * y ≤ e * b.high := by
    rw [Bound.mul_comm e, Bound.mul_comm e, Bound.mul_comm e]
    exact Bound.le_mul_or hy.1 hy.2 e
  rcases Bound.le_mul_or hx.1 hx.2 y with h | h
  · rcases hend a.low with h' | h' <;> exact ⟨_, by simp, Bound.le_trans h h'⟩
  · rcases hend a.high with h' | h' <;> exact ⟨_, by simp, Bound.le_trans h h'⟩

theorem mem_mul {x y : Int} {a b : Interval} (hx : x ∈ a) (hy : y ∈ b) : x * y ∈ a * b := by
  obtain ⟨p, hp, hpx⟩ := mul_corner_le hx hy
  obtain ⟨q, hq, hxq⟩ := le_mul_corner hx hy
  exact mem_hull hp hq hpx hxq

theorem mem_square {x : Int} {a : Interval} (hx : x ∈ a) : x * x ∈ a.square := by
  have hsquare : x * x ∈ nonnegative := by
    rw [mem_nonnegative]
    rcases Int.le_total 0 x with h | h
    · exact Int.mul_nonneg h h
    · exact Int.mul_nonneg_of_nonpos_of_nonpos h h
  obtain ⟨c, hc, hmem⟩ := exists_inter? (mem_mul hx hx) hsquare
  rw [square, hc]
  exact hmem

theorem mem_abs {x : Int} {a : Interval} (hx : x ∈ a) : (x.natAbs : Int) ∈ a.abs := by
  unfold abs
  split
  · rename_i hlow
    have hpos : 0 ≤ x := Bound.finite_le_finite.1 (Bound.le_trans hlow hx.1)
    rwa [Int.natAbs_of_nonneg hpos]
  · split
    · rename_i hhigh
      have hneg : x ≤ 0 := Bound.finite_le_finite.1 (Bound.le_trans hx.2 hhigh)
      rw [Int.ofNat_natAbs_of_nonpos hneg]
      exact mem_neg hx
    · refine ⟨Bound.finite_le_finite.2 (Int.natCast_nonneg _), ?_⟩
      rcases Int.le_total 0 x with h | h
      · rw [Int.natAbs_of_nonneg h]
        exact Bound.le_trans hx.2 (Bound.le_max_right _ _)
      · rw [Int.ofNat_natAbs_of_nonpos h]
        exact Bound.le_trans (Bound.neg_le_neg.2 hx.1) (Bound.le_max_left _ _)

theorem finite_low_le_high {d : Interval} {p q : Int} (hlow : d.low = .finite p)
    (hhigh : d.high = .finite q) : p ≤ q := by
  rw [← Bound.finite_le_finite, ← hlow, ← hhigh]
  exact d.low_le_high

/-- A divisor whose ends exclude zero has a fixed sign. -/
theorem sign_of_zero_not_mem {d : Interval} {p q : Int} (hlow : d.low = .finite p)
    (hhigh : d.high = .finite q) (hzero : (0 : Int) ∉ d) : 0 < p ∨ q < 0 := by
  rw [mem_def, hlow, hhigh, Bound.finite_le_finite, Bound.finite_le_finite] at hzero
  omega

/-- The quotient by a divisor of fixed sign is the hull of the corners. -/
theorem floorDiv_eq_hull {d : Interval} {p q : Int} (a : Interval) (hlow : d.low = .finite p)
    (hhigh : d.high = .finite q) (hzero : (0 : Int) ∉ d) : a.floorDiv d =
      hull (a.low.floorDiv p) [a.low.floorDiv q, a.high.floorDiv p, a.high.floorDiv q] := by
  simp only [floorDiv, hlow, hhigh, if_neg hzero]

/-- A corner is not above the quotient of a bound between the ends. -/
theorem floorDiv_corner_le {x : Bound} {a : Interval} {p y q : Int} (hx : a.Spans x)
    (hpy : p ≤ y) (hyq : y ≤ q) (hsign : 0 < p ∨ q < 0) :
    ∃ l ∈ [a.low.floorDiv p, a.low.floorDiv q, a.high.floorDiv p, a.high.floorDiv q],
      l ≤ x.floorDiv y := by
  -- for a fixed end `e` of the dividend, the ends of the divisor surround the quotient
  have hend (e : Bound) := Bound.floorDiv_divisor_between e hpy hyq hsign
  have hzero : y ≠ 0 := by omega
  rcases Bound.floorDiv_le_or hzero hx.1 hx.2 with h | h
  · rcases hend a.low with h' | h' <;> exact ⟨_, by simp, Bound.le_trans h'.1 h⟩
  · rcases hend a.high with h' | h' <;> exact ⟨_, by simp, Bound.le_trans h'.1 h⟩

/-- A corner is not below the quotient of a bound between the ends. -/
theorem le_floorDiv_corner {x : Bound} {a : Interval} {p y q : Int} (hx : a.Spans x)
    (hpy : p ≤ y) (hyq : y ≤ q) (hsign : 0 < p ∨ q < 0) :
    ∃ r ∈ [a.low.floorDiv p, a.low.floorDiv q, a.high.floorDiv p, a.high.floorDiv q],
      x.floorDiv y ≤ r := by
  have hend (e : Bound) := Bound.floorDiv_divisor_between e hpy hyq hsign
  have hzero : y ≠ 0 := by omega
  rcases Bound.le_floorDiv_or hzero hx.1 hx.2 with h | h
  · rcases hend a.low with h' | h' <;> exact ⟨_, by simp, Bound.le_trans h h'.2⟩
  · rcases hend a.high with h' | h' <;> exact ⟨_, by simp, Bound.le_trans h h'.2⟩

theorem mem_floorDiv {x y : Int} {a d : Interval} (hx : x ∈ a) (hy : y ∈ d) :
    x.fdiv y ∈ a.floorDiv d := by
  unfold floorDiv
  split
  · rename_i p q hlow hhigh
    split
    · exact mem_unknown _
    · rename_i hmem
      have hpy : p ≤ y := Bound.finite_le_finite.1 (hlow ▸ hy.1)
      have hyq : y ≤ q := Bound.finite_le_finite.1 (hhigh ▸ hy.2)
      have hsign := sign_of_zero_not_mem hlow hhigh hmem
      obtain ⟨l, hl, hlx⟩ := floorDiv_corner_le hx hpy hyq hsign
      obtain ⟨r, hr, hxr⟩ := le_floorDiv_corner hx hpy hyq hsign
      exact mem_hull hl hr hlx hxr
  · exact mem_unknown _

/-- Negating both operands negates a floor remainder, which so lies between the divisor and
zero. -/
theorem fmod_bounds_of_neg (x : Int) {y : Int} (hy : y < 0) : y < x.fmod y ∧ x.fmod y ≤ 0 := by
  have hneg := Int.neg_fmod_neg x y
  have hlow := Int.fmod_nonneg_of_pos (-x) (b := -y) (by omega)
  have hhigh := Int.fmod_lt_of_pos (-x) (b := -y) (by omega)
  omega

/-- A dividend between the divisor and zero is its own remainder. -/
theorem fmod_eq_self_of_neg {x y : Int} (hx : x ≤ 0) (hy : y < x) : x.fmod y = x := by
  have hneg := Int.neg_fmod_neg x y
  rw [Int.fmod_eq_of_lt (by omega) (by omega)] at hneg
  omega

theorem mem_mod {x y : Int} {a d : Interval} (hx : x ∈ a) (hy : y ∈ d) :
    x.fmod y ∈ a.mod d := by
  unfold mod
  split
  · rename_i p q hlow hhigh
    have hpy : p ≤ y := Bound.finite_le_finite.1 (hlow ▸ hy.1)
    have hyq : y ≤ q := Bound.finite_le_finite.1 (hhigh ▸ hy.2)
    split
    · split
      · rename_i hp hkept
        have hxlow : 0 ≤ x := Bound.finite_le_finite.1 (Bound.le_trans hkept.1 hx.1)
        have hxhigh : x < p := by
          rw [← Bound.finite_lt_finite]
          exact fun hle => hkept.2 (Bound.le_trans hle hx.2)
        rwa [Int.fmod_eq_of_lt hxlow (by omega)]
      · have hnonneg := Int.fmod_nonneg_of_pos x (b := y) (by omega)
        have hlt := Int.fmod_lt_of_pos x (b := y) (by omega)
        exact mem_between (Bound.finite_le_finite.2 hnonneg) (Bound.finite_le_finite.2 (by omega))
    · split
      · rename_i hq
        split
        · rename_i hkept
          have hxhigh : x ≤ 0 := Bound.finite_le_finite.1 (Bound.le_trans hx.2 hkept.1)
          have hxlow : q < x := by
            rw [← Bound.finite_lt_finite]
            exact fun hle => hkept.2 (Bound.le_trans hx.1 hle)
          rwa [fmod_eq_self_of_neg hxhigh (by omega)]
        · obtain ⟨hgt, hnonpos⟩ := fmod_bounds_of_neg x (y := y) (by omega)
          exact mem_between (Bound.finite_le_finite.2 (by omega)) (Bound.finite_le_finite.2 hnonpos)
      · exact mem_unknown _
  · exact mem_unknown _

theorem mem_minimum {x y : Int} {a b : Interval} (hx : x ∈ a) (hy : y ∈ b) :
    min x y ∈ a.minimum b := by
  rw [mem_def, ← Bound.min_finite]
  exact ⟨Bound.min_le_min hx.1 hy.1, Bound.min_le_min hx.2 hy.2⟩

theorem mem_maximum {x y : Int} {a b : Interval} (hx : x ∈ a) (hy : y ∈ b) :
    max x y ∈ a.maximum b := by
  rw [mem_def, ← Bound.max_finite]
  exact ⟨Bound.max_le_max hx.1 hy.1, Bound.max_le_max hx.2 hy.2⟩

/-! ### Comparisons -/

theorem mem_lessThan {x y : Int} {a b : Interval} (hx : x ∈ a) (hy : y ∈ b) :
    (decide (x < y)).toInt ∈ a.lessThan b := by
  unfold lessThan
  split
  · rename_i hlt
    have h : x < y := by
      rw [← Bound.finite_lt_finite]
      exact fun hle => hlt (Bound.le_trans hy.1 (Bound.le_trans hle hx.2))
    rw [mem_ofBool, decide_eq_true h]
  · split
    · rename_i hle
      have h : y ≤ x := Bound.finite_le_finite.1 (Bound.le_trans hy.2 (Bound.le_trans hle hx.1))
      rw [mem_ofBool, decide_eq_false (by omega)]
    · exact toInt_mem_boolean _

theorem mem_atMost {x y : Int} {a b : Interval} (hx : x ∈ a) (hy : y ∈ b) :
    (decide (x ≤ y)).toInt ∈ a.atMost b := by
  unfold atMost
  split
  · rename_i hle
    have h : x ≤ y := Bound.finite_le_finite.1 (Bound.le_trans hx.2 (Bound.le_trans hle hy.1))
    rw [mem_ofBool, decide_eq_true h]
  · split
    · rename_i hlt
      have h : y < x := by
        rw [← Bound.finite_lt_finite]
        exact fun hle => hlt (Bound.le_trans hx.1 (Bound.le_trans hle hy.2))
      rw [mem_ofBool, decide_eq_false (by omega)]
    · exact toInt_mem_boolean _

/-- The ends of a singleton are its only member. -/
theorem eq_of_isSingleton {x y : Int} {a : Interval} (h : a.isSingleton) (hx : x ∈ a)
    (hy : y ∈ a) : x = y := by
  simp only [isSingleton, Bool.and_eq_true, decide_eq_true_eq] at h
  obtain ⟨hx1, hx2⟩ := hx
  obtain ⟨hy1, hy2⟩ := hy
  rw [← h.2] at hx2 hy2
  have hxy := Bound.finite_le_finite.1 (Bound.le_trans hx2 hy1)
  have hyx := Bound.finite_le_finite.1 (Bound.le_trans hy2 hx1)
  omega

theorem mem_equal {x y : Int} {a b : Interval} (hx : x ∈ a) (hy : y ∈ b) :
    (decide (x = y)).toInt ∈ a.equal b := by
  unfold equal
  split
  · rename_i h
    obtain ⟨hsingle, rfl⟩ := h
    rw [mem_ofBool, decide_eq_true (eq_of_isSingleton hsingle hx hy)]
  · split
    · rename_i hdisjoint
      have h : x ≠ y := by
        rintro rfl
        obtain ⟨c, hc, -⟩ := exists_inter? hx hy
        rw [hdisjoint] at hc
        cases hc
      rw [mem_ofBool, decide_eq_false h]
    · exact toInt_mem_boolean _

/-! ### Logic -/

/-- A truth value of an interval is that of all its members. -/
theorem eq_of_truth? {x : Int} {a : Interval} {value : Bool} (h : a.truth? = some value)
    (hx : x ∈ a) : decide (x ≠ 0) = value := by
  unfold truth? at h
  split at h
  · rename_i hzero
    cases h
    have hne : x ≠ 0 := by
      rintro rfl
      exact hzero hx
    rw [decide_eq_true hne]
  · rename_i hzero
    split at h
    · rename_i hsingle
      cases h
      have heq : x = 0 := eq_of_isSingleton hsingle hx (Decidable.not_not.1 hzero)
      rw [decide_eq_false (not_not_intro heq)]
    · cases h

theorem mem_logicalNot {x : Int} {a : Interval} (hx : x ∈ a) :
    (decide (x = 0)).toInt ∈ a.logicalNot := by
  unfold logicalNot
  split
  · rename_i value h
    rw [mem_ofBool, ← eq_of_truth? h hx]
    simp
  · exact toInt_mem_boolean _

theorem mem_notEqual {x y : Int} {a b : Interval} (hx : x ∈ a) (hy : y ∈ b) :
    (decide (x ≠ y)).toInt ∈ a.notEqual b := by
  have h := mem_logicalNot (mem_equal hx hy)
  by_cases hxy : x = y <;> simpa [hxy, notEqual] using h

theorem mem_logicalAnd {x y : Int} {a b : Interval} (hx : x ∈ a) (hy : y ∈ b) :
    (decide (x ≠ 0 ∧ y ≠ 0)).toInt ∈ a.logicalAnd b := by
  rw [Bool.decide_and]
  unfold logicalAnd
  split
  · rename_i ha
    rw [mem_ofBool, eq_of_truth? ha hx, Bool.false_and]
  · rename_i hb _
    rw [mem_ofBool, eq_of_truth? hb hy, Bool.and_false]
  · rename_i ha hb
    rw [mem_ofBool, eq_of_truth? ha hx, eq_of_truth? hb hy, Bool.true_and]
  · exact toInt_mem_boolean _

theorem mem_logicalOr {x y : Int} {a b : Interval} (hx : x ∈ a) (hy : y ∈ b) :
    (decide (x ≠ 0 ∨ y ≠ 0)).toInt ∈ a.logicalOr b := by
  rw [Bool.decide_or]
  unfold logicalOr
  split
  · rename_i ha
    rw [mem_ofBool, eq_of_truth? ha hx, Bool.true_or]
  · rename_i hb _
    rw [mem_ofBool, eq_of_truth? hb hy, Bool.or_true]
  · rename_i ha hb
    rw [mem_ofBool, eq_of_truth? ha hx, eq_of_truth? hb hy, Bool.false_or]
  · exact toInt_mem_boolean _

theorem mem_select {c x y : Int} {a yes no : Interval} (hc : c ∈ a) (hx : x ∈ yes)
    (hy : y ∈ no) : (if c = 0 then y else x) ∈ a.select yes no := by
  unfold select
  split
  · rename_i h
    rw [if_neg (of_decide_eq_true (eq_of_truth? h hc))]
    exact hx
  · rename_i h
    rw [if_pos (Decidable.not_not.1 (of_decide_eq_false (eq_of_truth? h hc)))]
    exact hy
  · split
    · exact mem_join_right hy
    · exact mem_join_left hx

end LoopBounds.Interval
