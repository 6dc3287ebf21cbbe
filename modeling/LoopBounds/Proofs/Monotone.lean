/-
Narrower operands give narrower ranges.

All arithmetic on intervals is monotone for inclusion: `add_le_add`,
`mul_le_mul`, `floorDiv_le_floorDiv`, `mod_le_mod` and so on. For products and
quotients every corner of the narrower operands lies between corners of the
wider ones. For remainders the branches fit together: a dividend that is kept as
it is lies within the range of all remainders.

From this, `Expr.range_le_range`: an expression has a narrower range in a
narrower scope (`Scope.Narrows`).
-/
import LoopBounds.Expr.Range
import LoopBounds.Proofs.Interval

namespace LoopBounds

namespace Interval

variable {a b c d : Interval}

/-- An interval is not empty. -/
theorem exists_mem (a : Interval) : ∃ x : Int, x ∈ a := by
  cases hlow : a.low with
  | posInf => exact absurd hlow a.low_ne_posInf
  | finite n =>
    refine ⟨n, ?_, ?_⟩
    · rw [hlow]
      exact Bound.le_refl _
    · rw [← hlow]
      exact a.low_le_high
  | negInf =>
    cases hhigh : a.high with
    | negInf => exact absurd hhigh a.high_ne_negInf
    | finite n =>
      refine ⟨n, ?_, ?_⟩
      · rw [hlow]
        exact Bound.negInf_le _
      · rw [hhigh]
        exact Bound.le_refl _
    | posInf =>
      refine ⟨0, ?_, ?_⟩
      · rw [hlow]
        exact Bound.negInf_le _
      · rw [hhigh]
        exact Bound.le_posInf _

/-- The ends of an interval lie between those of a wider one. -/
theorem spans_of_le (h : a ≤ b) : b.Spans a.low ∧ b.Spans a.high :=
  ⟨⟨h.1, Bound.le_trans a.low_le_high h.2⟩, ⟨Bound.le_trans h.1 a.low_le_high, h.2⟩⟩

theorem between_le_between {x : Int} {low high low' high' : Bound} (hlow : low' ≤ low)
    (hhigh : high ≤ high') (hlowx : low ≤ .finite x) (hxhigh : .finite x ≤ high) :
    between low high ≤ between low' high' := by
  obtain ⟨i, hi, -⟩ := exists_ofBounds? hlowx hxhigh
  obtain ⟨j, hj, -⟩ := exists_ofBounds? (Bound.le_trans hlow hlowx) (Bound.le_trans hxhigh hhigh)
  obtain ⟨rfl, rfl⟩ := ofBounds?_eq_some_iff.1 hi
  obtain ⟨rfl, rfl⟩ := ofBounds?_eq_some_iff.1 hj
  rw [between, between, hi, hj]
  exact ⟨hlow, hhigh⟩

/-- An interval lies within the one that its ends are compared with. -/
theorem le_between {low high : Bound} (hlow : low ≤ a.low) (hhigh : a.high ≤ high) :
    a ≤ between low high := by
  obtain ⟨x, hx⟩ := a.exists_mem
  have hle := between_le_between hlow hhigh hx.1 hx.2
  rwa [between, ofBounds?_ends, Option.getD_some] at hle

/-- A hull lies within another one if each of its corners lies between corners of the other. That
an integer lies between its own corners makes sure that it is no set of all integers by default. -/
theorem hull_le_hull {x : Int} {p q corner corner' : Bound} {corners corners' : List Bound}
    (hbelow : ∀ e ∈ corner :: corners, ∃ l ∈ corner' :: corners', l ≤ e)
    (habove : ∀ e ∈ corner :: corners, ∃ r ∈ corner' :: corners', e ≤ r)
    (hp : p ∈ corner :: corners) (hq : q ∈ corner :: corners) (hpx : p ≤ .finite x)
    (hxq : .finite x ≤ q) : hull corner corners ≤ hull corner' corners' := by
  refine between_le_between ?_ ?_ (Bound.le_trans (Bound.foldl_min_le hp) hpx)
    (Bound.le_trans hxq (Bound.le_foldl_max hq))
  · refine Bound.le_foldl_min fun e he => ?_
    obtain ⟨l, hl, hle⟩ := hbelow e he
    exact Bound.le_trans (Bound.foldl_min_le hl) hle
  · refine Bound.foldl_max_le fun e he => ?_
    obtain ⟨r, hr, hle⟩ := habove e he
    exact Bound.le_trans hle (Bound.le_foldl_max hr)

/-! ### Arithmetic -/

theorem add_le_add (hac : a ≤ c) (hbd : b ≤ d) : a + b ≤ c + d :=
  ⟨Bound.add_le_add_of_ne_posInf a.low_ne_posInf b.low_ne_posInf hac.1 hbd.1,
    Bound.add_le_add_of_ne_negInf a.high_ne_negInf b.high_ne_negInf hac.2 hbd.2⟩

theorem neg_le_neg (h : a ≤ b) : -a ≤ -b :=
  ⟨Bound.neg_le_neg.2 h.2, Bound.neg_le_neg.2 h.1⟩

theorem sub_le_sub (hac : a ≤ c) (hbd : b ≤ d) : a - b ≤ c - d :=
  add_le_add hac (neg_le_neg hbd)

theorem mul_le_mul (hac : a ≤ c) (hbd : b ≤ d) : a * b ≤ c * d := by
  obtain ⟨x, hx⟩ := a.exists_mem
  obtain ⟨y, hy⟩ := b.exists_mem
  obtain ⟨p, hp, hpx⟩ := mul_corner_le hx hy
  obtain ⟨q, hq, hxq⟩ := le_mul_corner hx hy
  obtain ⟨halow, hahigh⟩ := spans_of_le hac
  obtain ⟨hblow, hbhigh⟩ := spans_of_le hbd
  refine hull_le_hull ?_ ?_ hp hq hpx hxq
  · simp only [List.forall_mem_cons]
    exact ⟨mul_corner_le halow hblow, mul_corner_le halow hbhigh, mul_corner_le hahigh hblow,
      mul_corner_le hahigh hbhigh, List.forall_mem_nil _⟩
  · simp only [List.forall_mem_cons]
    exact ⟨le_mul_corner halow hblow, le_mul_corner halow hbhigh, le_mul_corner hahigh hblow,
      le_mul_corner hahigh hbhigh, List.forall_mem_nil _⟩

/-- Within an interval with finite ends, the ends of an interval are finite too. -/
theorem finite_ends_of_le {p q : Int} (h : a ≤ b) (hlow : b.low = .finite p)
    (hhigh : b.high = .finite q) :
    ∃ p' q', a.low = .finite p' ∧ a.high = .finite q' ∧ p ≤ p' ∧ p' ≤ q' ∧ q' ≤ q := by
  have hle := a.low_le_high
  rw [le_def, hlow, hhigh] at h
  cases halow : a.low with
  | negInf => simp [halow] at h
  | posInf => exact absurd halow a.low_ne_posInf
  | finite p' =>
    cases hahigh : a.high with
    | negInf => exact absurd hahigh a.high_ne_negInf
    | posInf => simp [hahigh] at h
    | finite q' =>
      rw [halow, hahigh, Bound.finite_le_finite] at hle
      rw [halow, hahigh, Bound.finite_le_finite, Bound.finite_le_finite] at h
      exact ⟨p', q', rfl, rfl, h.1, hle, h.2⟩

/-- A quotient is unknown unless the divisor has finite ends and excludes zero. -/
theorem floorDiv_eq_unknown_or (a d : Interval) : a.floorDiv d = unknown ∨
    ∃ p q, d.low = .finite p ∧ d.high = .finite q ∧ (0 : Int) ∉ d := by
  unfold floorDiv
  split
  · rename_i p q hlow hhigh
    split
    · exact Or.inl rfl
    · rename_i hzero
      exact Or.inr ⟨p, q, hlow, hhigh, hzero⟩
  · exact Or.inl rfl

theorem floorDiv_le_floorDiv (hac : a ≤ c) (hbd : b ≤ d) : a.floorDiv b ≤ c.floorDiv d := by
  rcases floorDiv_eq_unknown_or c d with hunknown | ⟨p, q, hlow, hhigh, hzero⟩
  · rw [hunknown]
    exact le_unknown _
  · obtain ⟨p', q', hlow', hhigh', hp, hpq, hq⟩ := finite_ends_of_le hbd hlow hhigh
    have hzero' : (0 : Int) ∉ b := fun h => hzero (mem_of_le hbd h)
    have hsign := sign_of_zero_not_mem hlow hhigh hzero
    have hsign' := sign_of_zero_not_mem hlow' hhigh' hzero'
    rw [floorDiv_eq_hull a hlow' hhigh' hzero', floorDiv_eq_hull c hlow hhigh hzero]
    obtain ⟨x, hx⟩ := a.exists_mem
    obtain ⟨l, hl, hlx⟩ := floorDiv_corner_le hx (Int.le_refl p') hpq hsign'
    obtain ⟨r, hr, hxr⟩ := le_floorDiv_corner hx (Int.le_refl p') hpq hsign'
    obtain ⟨halow, hahigh⟩ := spans_of_le hac
    -- both ends of the narrower divisor lie between those of the wider one
    have hpq' : p' ≤ q := Int.le_trans hpq hq
    have hpq'' : p ≤ q' := Int.le_trans hp hpq
    refine hull_le_hull ?_ ?_ hl hr hlx hxr
    · simp only [List.forall_mem_cons]
      exact ⟨floorDiv_corner_le halow hp hpq' hsign, floorDiv_corner_le halow hpq'' hq hsign,
        floorDiv_corner_le hahigh hp hpq' hsign, floorDiv_corner_le hahigh hpq'' hq hsign,
        List.forall_mem_nil _⟩
    · simp only [List.forall_mem_cons]
      exact ⟨le_floorDiv_corner halow hp hpq' hsign, le_floorDiv_corner halow hpq'' hq hsign,
        le_floorDiv_corner hahigh hp hpq' hsign, le_floorDiv_corner hahigh hpq'' hq hsign,
        List.forall_mem_nil _⟩

theorem mod_of_pos {p q : Int} (a : Interval) (hlow : d.low = .finite p)
    (hhigh : d.high = .finite q) (hp : 0 < p) : a.mod d =
      if 0 ≤ a.low ∧ a.high < .finite p then a else between 0 (.finite (q - 1)) := by
  simp only [mod, hlow, hhigh, if_pos hp]

theorem mod_of_neg {p q : Int} (a : Interval) (hlow : d.low = .finite p)
    (hhigh : d.high = .finite q) (hq : q < 0) : a.mod d =
      if a.high ≤ 0 ∧ .finite q < a.low then a else between (.finite (p + 1)) 0 := by
  have hpq : p ≤ q := finite_low_le_high hlow hhigh
  simp only [mod, hlow, hhigh, if_neg (show ¬ 0 < p by omega), if_pos hq]

theorem neg_between {low high : Bound} (h : low ≤ high) (hlow : low ≠ .posInf)
    (hhigh : high ≠ .negInf) : -between low high = between (-high) (-low) := by
  have hneg : -high ≤ -low ∧ -high ≠ .posInf ∧ -low ≠ .negInf :=
    ⟨Bound.neg_le_neg.2 h, fun h => hhigh (Bound.neg_eq_posInf.1 h),
      fun h => hlow (Bound.neg_eq_negInf.1 h)⟩
  rw [between, between, ofBounds?, ofBounds?, dif_pos ⟨h, hlow, hhigh⟩, dif_pos hneg]
  rfl

/-- Remainders by a negative divisor are those of the negated operands, negated. -/
theorem mod_eq_neg_mod_neg {p q : Int} (a : Interval) (hlow : d.low = .finite p)
    (hhigh : d.high = .finite q) (hq : q < 0) : a.mod d = -((-a).mod (-d)) := by
  have hneglow : (-d).low = .finite (-q) := congrArg Bound.neg hhigh
  have hneghigh : (-d).high = .finite (-p) := congrArg Bound.neg hlow
  have hpq : p ≤ q := finite_low_le_high hlow hhigh
  have hkept : (0 ≤ (-a).low ∧ (-a).high < .finite (-q)) ↔ (a.high ≤ 0 ∧ .finite q < a.low) := by
    refine and_congr ?_ (not_congr ?_)
    · exact Bound.neg_le_neg (a := 0) (b := a.high)
    · exact Bound.neg_le_neg (a := .finite q) (b := a.low)
  rw [mod_of_neg a hlow hhigh hq, mod_of_pos (-a) hneglow hneghigh (by omega)]
  simp only [hkept]
  split
  · exact Interval.ext (Bound.neg_neg _).symm (Bound.neg_neg _).symm
  · rw [neg_between]
    · congr 2
      omega
    · show (0 : Int) ≤ -p - 1
      omega
    · exact Bound.noConfusion
    · exact Bound.noConfusion

/-- A remainder is unknown unless the divisor has finite ends on one side of zero. -/
theorem mod_eq_unknown_or (a d : Interval) : a.mod d = unknown ∨
    ∃ p q, d.low = .finite p ∧ d.high = .finite q ∧ (0 < p ∨ q < 0) := by
  unfold mod
  split
  · rename_i p q hlow hhigh
    split
    · rename_i hp
      exact Or.inr ⟨p, q, hlow, hhigh, Or.inl hp⟩
    · split
      · rename_i hq
        exact Or.inr ⟨p, q, hlow, hhigh, Or.inr hq⟩
      · exact Or.inl rfl
  · exact Or.inl rfl

/-- Remainders by a positive divisor: a kept dividend lies below the divisor, so that it fits into
the range of all remainders by a wider one. -/
theorem mod_le_mod_of_pos {p q : Int} (hac : a ≤ c) (hbd : b ≤ d) (hlow : d.low = .finite p)
    (hhigh : d.high = .finite q) (hp : 0 < p) : a.mod b ≤ c.mod d := by
  obtain ⟨p', q', hlow', hhigh', hpp, hpq, hqq⟩ := finite_ends_of_le hbd hlow hhigh
  rw [mod_of_pos a hlow' hhigh' (by omega), mod_of_pos c hlow hhigh hp]
  by_cases hkept : 0 ≤ a.low ∧ a.high < .finite p'
  · rw [if_pos hkept]
    split
    · exact hac
    · refine le_between hkept.1 ?_
      cases hahigh : a.high with
      | negInf => exact Bound.negInf_le _
      | posInf => simp [hahigh, Bound.lt_iff] at hkept
      | finite n =>
        rw [hahigh, Bound.finite_lt_finite] at hkept
        exact Bound.finite_le_finite.2 (by omega)
  · have hwide : ¬ (0 ≤ c.low ∧ c.high < .finite p) := by
      rintro ⟨hclow, hchigh⟩
      refine hkept ⟨Bound.le_trans hclow hac.1, fun hle => hchigh ?_⟩
      exact Bound.le_trans (Bound.finite_le_finite.2 hpp) (Bound.le_trans hle hac.2)
    rw [if_neg hkept, if_neg hwide]
    exact between_le_between (x := 0) (Bound.le_refl _) (Bound.finite_le_finite.2 (by omega))
      (Bound.le_refl _) (Bound.finite_le_finite.2 (by omega))

theorem mod_le_mod (hac : a ≤ c) (hbd : b ≤ d) : a.mod b ≤ c.mod d := by
  rcases mod_eq_unknown_or c d with hunknown | ⟨p, q, hlow, hhigh, hp | hq⟩
  · rw [hunknown]
    exact le_unknown _
  · exact mod_le_mod_of_pos hac hbd hlow hhigh hp
  · obtain ⟨p', q', hlow', hhigh', -, -, hqq⟩ := finite_ends_of_le hbd hlow hhigh
    rw [mod_eq_neg_mod_neg a hlow' hhigh' (by omega), mod_eq_neg_mod_neg c hlow hhigh hq]
    exact neg_le_neg (mod_le_mod_of_pos (neg_le_neg hac) (neg_le_neg hbd)
      (congrArg Bound.neg hhigh) (congrArg Bound.neg hlow) (by omega))

theorem minimum_le_minimum (hac : a ≤ c) (hbd : b ≤ d) : a.minimum b ≤ c.minimum d :=
  ⟨Bound.min_le_min hac.1 hbd.1, Bound.min_le_min hac.2 hbd.2⟩

theorem maximum_le_maximum (hac : a ≤ c) (hbd : b ≤ d) : a.maximum b ≤ c.maximum d :=
  ⟨Bound.max_le_max hac.1 hbd.1, Bound.max_le_max hac.2 hbd.2⟩

end Interval

/-! ### Index expressions -/

theorem Arith.range_le_range (op : Arith) {a b c d : Interval} (hac : a ≤ c) (hbd : b ≤ d) :
    op.range a b ≤ op.range c d := by
  cases op with
  | add => exact Interval.add_le_add hac hbd
  | sub => exact Interval.sub_le_sub hac hbd
  | mul => exact Interval.mul_le_mul hac hbd
  | floorDiv => exact Interval.floorDiv_le_floorDiv hac hbd
  | mod => exact Interval.mod_le_mod hac hbd
  | min => exact Interval.minimum_le_minimum hac hbd
  | max => exact Interval.maximum_le_maximum hac hbd

/-- The first scope knows at least as much about every symbol as the second. -/
def Scope.Narrows (scope other : Scope) : Prop :=
  ∀ name, scope.range name ≤ other.range name

theorem Expr.range_le_range {scope other : Scope} (h : scope.Narrows other) (e : Expr) :
    e.range scope ≤ e.range other := by
  induction e with
  | sym name => exact h name
  | const n => exact Interval.le_refl _
  | neg e ih => exact Interval.neg_le_neg ih
  | binary op a b iha ihb => exact op.range_le_range iha ihb
  | modIndex e d m ihe ihd ihm =>
    exact Interval.mod_le_mod (Interval.floorDiv_le_floorDiv ihe ihd) ihm

end LoopBounds
