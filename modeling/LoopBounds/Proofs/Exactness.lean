/-
Least intervals.

`Bound.Reached` says that a set of integers comes up to a bound: it holds an
integer that is one, and it holds integers as far out as you like for an
infinity. An interval is the hull of a set (`Interval.IsHull`) if it holds the set
and the set reaches both of its ends. Then it is the least interval around the
set (`IsHull.le`), and the only hull (`IsHull.eq`).

All arithmetic on intervals but remainders takes hulls to hulls
(`Arith.isHull_range`). The sets need not be whole intervals, which makes room for
operands that have gaps between their values. Sums, products and the like of
reached bounds are reached, with `0 * ±∞ = 0`; for products and quotients this is
asked of each corner.
-/
import LoopBounds.Proofs.Monotone
import LoopBounds.Proofs.Transfer
import Mathlib.Order.Bounds.Defs

namespace LoopBounds

namespace Bound

theorem foldl_min_mem (a : Bound) (l : List Bound) : l.foldl min a ∈ a :: l := by
  induction l generalizing a with
  | nil => exact List.mem_cons_self
  | cons b l ih =>
    rw [List.foldl_cons]
    rcases List.mem_cons.1 (ih (min a b)) with h | h
    · rw [h]
      rcases min_eq_or a b with h' | h' <;> simp [h']
    · exact List.mem_cons_of_mem _ (List.mem_cons_of_mem _ h)

theorem foldl_max_mem (a : Bound) (l : List Bound) : l.foldl max a ∈ a :: l := by
  induction l generalizing a with
  | nil => exact List.mem_cons_self
  | cons b l ih =>
    rw [List.foldl_cons]
    rcases List.mem_cons.1 (ih (max a b)) with h | h
    · rw [h]
      rcases max_eq_or a b with h' | h' <;> simp [h']
    · exact List.mem_cons_of_mem _ (List.mem_cons_of_mem _ h)

theorem neg_max (a b : Bound) : -max a b = min (-a) (-b) := by
  apply Bound.le_antisymm
  · exact Bound.le_min (neg_le_neg.2 (Bound.le_max_left a b))
      (neg_le_neg.2 (Bound.le_max_right a b))
  · rcases max_eq_or a b with h | h <;> rw [h]
    · exact Bound.min_le_left _ _
    · exact Bound.min_le_right _ _

end Bound

/-- The integers of the set come up to the bound: they include it if it is an integer, and go
beyond every integer on the side of an infinity. -/
def Bound.Reached (s : Set Int) : Bound → Prop
  | .negInf => ∀ n, ∃ x ∈ s, x ≤ n
  | .finite n => n ∈ s
  | .posInf => ∀ n, ∃ x ∈ s, n ≤ x

namespace Bound.Reached

variable {s t u : Set Int} {p q : Bound}

theorem nonempty (h : p.Reached s) : ∃ x, x ∈ s := by
  cases p with
  | negInf =>
    obtain ⟨x, hx, -⟩ := h 0
    exact ⟨x, hx⟩
  | finite n => exact ⟨n, h⟩
  | posInf =>
    obtain ⟨x, hx, -⟩ := h 0
    exact ⟨x, hx⟩

theorem mono (h : p.Reached s) (hst : ∀ x ∈ s, x ∈ t) : p.Reached t := by
  cases p with
  | negInf =>
    intro n
    obtain ⟨x, hx, hxn⟩ := h n
    exact ⟨x, hst x hx, hxn⟩
  | finite n => exact hst n h
  | posInf =>
    intro n
    obtain ⟨x, hx, hnx⟩ := h n
    exact ⟨x, hst x hx, hnx⟩

/-- A bound below all members is not above a bound that they reach. -/
theorem le_of_forall_le {l : Bound} (h : p.Reached s) (hl : ∀ x ∈ s, l ≤ .finite x) : l ≤ p := by
  cases p with
  | negInf =>
    cases l with
    | negInf => exact Bound.le_refl _
    | finite m =>
      obtain ⟨x, hx, hxm⟩ := h (m - 1)
      have hmx : m ≤ x := finite_le_finite.1 (hl x hx)
      omega
    | posInf =>
      obtain ⟨x, hx⟩ := h.nonempty
      simpa using hl x hx
  | finite n => exact hl n h
  | posInf => exact le_posInf l

theorem neg (h : p.Reached s) (hu : ∀ x ∈ s, -x ∈ u) : (-p).Reached u := by
  cases p with
  | negInf =>
    intro n
    obtain ⟨x, hx, hxn⟩ := h (-n)
    exact ⟨-x, hu x hx, by omega⟩
  | finite n => exact hu n h
  | posInf =>
    intro n
    obtain ⟨x, hx, hnx⟩ := h (-n)
    exact ⟨-x, hu x hx, by omega⟩

/-- Negating the members negates the bounds that they reach. -/
theorem opposite (h : p.Reached s) : (-p).Reached {x | -x ∈ s} := by
  refine h.neg fun x hx => ?_
  show -(-x) ∈ s
  rwa [Int.neg_neg]

theorem of_opposite (h : (-p).Reached {x | -x ∈ s}) : p.Reached s := by
  have hneg := h.neg (u := s) fun _ hx => hx
  rwa [Bound.neg_neg] at hneg

/-- A bound above all members is not below a bound that they reach. -/
theorem le_of_forall_ge {l : Bound} (h : p.Reached s) (hl : ∀ x ∈ s, .finite x ≤ l) : p ≤ l := by
  rw [← neg_le_neg]
  refine h.opposite.le_of_forall_le fun x hx => ?_
  have hle := neg_le_neg.2 (hl (-x) hx)
  rwa [neg_finite, Int.neg_neg] at hle

/-- Below a reached bound there is a member at or above any integer. -/
theorem exists_ge {m : Int} (h : p.Reached s) (hm : .finite m ≤ p) : ∃ x ∈ s, m ≤ x := by
  cases p with
  | negInf => simp at hm
  | finite n => exact ⟨n, h, finite_le_finite.1 hm⟩
  | posInf => exact h m

/-! ### Arithmetic -/

/-- Sums, as long as no opposite infinities meet. -/
theorem add (hp : p.Reached s) (hq : q.Reached t) (hneg : p = .negInf → q ≠ .posInf)
    (hpos : p = .posInf → q ≠ .negInf) (hu : ∀ x ∈ s, ∀ y ∈ t, x + y ∈ u) :
    (p + q).Reached u := by
  cases p with
  | negInf =>
    obtain ⟨y, hy⟩ := hq.nonempty
    have hsum : negInf + q = negInf := by
      cases q with
      | posInf => exact absurd rfl (hneg rfl)
      | negInf => rfl
      | finite n => rfl
    rw [hsum]
    intro n
    obtain ⟨x, hx, hxn⟩ := hp (n - y)
    exact ⟨x + y, hu x hx y hy, by omega⟩
  | posInf =>
    obtain ⟨y, hy⟩ := hq.nonempty
    intro n
    obtain ⟨x, hx, hnx⟩ := hp (n - y)
    exact ⟨x + y, hu x hx y hy, by omega⟩
  | finite m =>
    cases q with
    | negInf =>
      intro n
      obtain ⟨y, hy, hyn⟩ := hq (n - m)
      exact ⟨m + y, hu m hp y hy, by omega⟩
    | finite n => exact hu m hp n hq
    | posInf =>
      intro n
      obtain ⟨y, hy, hny⟩ := hq (n - m)
      exact ⟨m + y, hu m hp y hy, by omega⟩

/-- Products with a positive number move every member further out on its side. -/
theorem mul_finite_of_pos {m : Int} (hp : p.Reached s) (hm : 0 < m) (hu : ∀ x ∈ s, x * m ∈ u) :
    (p * .finite m).Reached u := by
  cases p with
  | negInf =>
    rw [negInf_mul_of_pos hm]
    intro n
    obtain ⟨x, hx, hxn⟩ := hp (min n 0)
    have hle : x * m ≤ x * 1 := Int.mul_le_mul_of_nonpos_left (by omega) hm
    exact ⟨x * m, hu x hx, by omega⟩
  | finite n => exact hu n hp
  | posInf =>
    rw [posInf_mul_of_pos hm]
    intro n
    obtain ⟨x, hx, hnx⟩ := hp (max n 0)
    have hle : x * 1 ≤ x * m := Int.mul_le_mul_of_nonneg_left hm (by omega)
    exact ⟨x * m, hu x hx, by omega⟩

theorem mul_finite {m : Int} (hp : p.Reached s) (hu : ∀ x ∈ s, x * m ∈ u) :
    (p * .finite m).Reached u := by
  rcases Int.lt_trichotomy m 0 with hm | rfl | hm
  · -- the factor with the other sign gives the opposite products
    apply of_opposite
    rw [← Bound.mul_neg, neg_finite]
    refine hp.mul_finite_of_pos (by omega) fun x hx => ?_
    show -(x * -m) ∈ u
    rw [Int.mul_neg, Int.neg_neg]
    exact hu x hx
  · -- an infinite bound too has the product zero, and so has any member
    obtain ⟨x, hx⟩ := hp.nonempty
    rw [mul_finite_zero]
    exact Int.mul_zero x ▸ hu x hx
  · exact hp.mul_finite_of_pos hm hu

theorem mul_posInf (hp : p.Reached s) (hq : posInf.Reached t)
    (hu : ∀ x ∈ s, ∀ y ∈ t, x * y ∈ u) : (p * .posInf).Reached u := by
  cases p with
  | finite m =>
    rw [Bound.mul_comm]
    refine hq.mul_finite fun y hy => ?_
    rw [Int.mul_comm]
    exact hu m hp y hy
  | negInf =>
    -- one positive factor is enough, as the other one goes down without end
    intro n
    obtain ⟨x, hx, hxn⟩ := hp (min n 0)
    obtain ⟨y, hy, hny⟩ := hq 1
    have hle : x * y ≤ x * 1 := Int.mul_le_mul_of_nonpos_left (by omega) hny
    exact ⟨x * y, hu x hx y hy, by omega⟩
  | posInf =>
    intro n
    obtain ⟨x, hx, hnx⟩ := hp (max n 0)
    obtain ⟨y, hy, hny⟩ := hq 1
    have hle : x * 1 ≤ x * y := Int.mul_le_mul_of_nonneg_left hny (by omega)
    exact ⟨x * y, hu x hx y hy, by omega⟩

theorem mul (hp : p.Reached s) (hq : q.Reached t) (hu : ∀ x ∈ s, ∀ y ∈ t, x * y ∈ u) :
    (p * q).Reached u := by
  cases q with
  | finite m => exact hp.mul_finite fun x hx => hu x hx m hq
  | posInf => exact hp.mul_posInf hq hu
  | negInf =>
    apply of_opposite
    rw [← Bound.mul_neg]
    refine hp.mul_posInf hq.opposite fun x hx y hy => ?_
    show -(x * y) ∈ u
    rw [← Int.mul_neg]
    exact hu x hx (-y) hy

theorem floorDiv_of_pos {d : Int} (hp : p.Reached s) (hd : 0 < d) (hu : ∀ x ∈ s, x.fdiv d ∈ u) :
    (p.floorDiv d).Reached u := by
  have hfdiv (x : Int) : x.fdiv d = x / d := Int.fdiv_eq_ediv_of_nonneg x (Int.le_of_lt hd)
  cases p with
  | negInf =>
    rw [negInf_floorDiv_of_pos hd]
    intro n
    obtain ⟨x, hx, hxn⟩ := hp (n * d)
    refine ⟨x.fdiv d, hu x hx, ?_⟩
    rw [hfdiv]
    exact Int.ediv_le_of_le_mul hd hxn
  | finite n => exact hu n hp
  | posInf =>
    rw [posInf_floorDiv_of_pos hd]
    intro n
    obtain ⟨x, hx, hnx⟩ := hp (n * d)
    refine ⟨x.fdiv d, hu x hx, ?_⟩
    rw [hfdiv]
    exact (Int.le_ediv_iff_mul_le hd).2 hnx

theorem floorDiv {d : Int} (hp : p.Reached s) (hd : d ≠ 0) (hu : ∀ x ∈ s, x.fdiv d ∈ u) :
    (p.floorDiv d).Reached u := by
  rcases Int.lt_or_gt_of_ne hd with hneg | hpos
  · rw [← neg_floorDiv_neg]
    refine hp.opposite.floorDiv_of_pos (by omega) fun x hx => ?_
    rw [← Int.neg_neg x, Int.neg_fdiv_neg]
    exact hu (-x) hx
  · exact hp.floorDiv_of_pos hpos hu

/-- The smaller bound is reached by smaller values, since the other operand need not be below. -/
theorem min_of_le (hp : p.Reached s) (hq : q.Reached t) (hpq : p ≤ q)
    (hu : ∀ x ∈ s, ∀ y ∈ t, min x y ∈ u) : p.Reached u := by
  cases p with
  | negInf =>
    obtain ⟨y, hy⟩ := hq.nonempty
    intro n
    obtain ⟨x, hx, hxn⟩ := hp n
    exact ⟨min x y, hu x hx y hy, by omega⟩
  | finite m =>
    obtain ⟨y, hy, hmy⟩ := hq.exists_ge hpq
    have hmin := hu m hp y hy
    rwa [Int.min_eq_left hmy] at hmin
  | posInf =>
    -- both bounds are infinite, so both operands go up together
    rw [posInf_le.1 hpq] at hq
    intro n
    obtain ⟨x, hx, hnx⟩ := hp n
    obtain ⟨y, hy, hny⟩ := hq n
    exact ⟨min x y, hu x hx y hy, by omega⟩

protected theorem min (hp : p.Reached s) (hq : q.Reached t)
    (hu : ∀ x ∈ s, ∀ y ∈ t, min x y ∈ u) : (min p q).Reached u := by
  rcases Bound.le_total p q with h | h
  · rw [min_def, if_pos h]
    exact hp.min_of_le hq h hu
  · have hmin : min p q = q :=
      Bound.le_antisymm (Bound.min_le_right p q) (Bound.le_min h (Bound.le_refl q))
    rw [hmin]
    refine hq.min_of_le hp h fun y hy x hx => ?_
    rw [Int.min_comm]
    exact hu x hx y hy

protected theorem max (hp : p.Reached s) (hq : q.Reached t)
    (hu : ∀ x ∈ s, ∀ y ∈ t, max x y ∈ u) : (max p q).Reached u := by
  apply of_opposite
  rw [neg_max]
  refine hp.opposite.min hq.opposite fun x hx y hy => ?_
  show -min x y ∈ u
  rw [show -min x y = max (-x) (-y) by omega]
  exact hu (-x) hx (-y) hy

end Bound.Reached

/-- The interval holds the set, and the set reaches both of its ends. -/
structure Interval.IsHull (a : Interval) (s : Set Int) : Prop where
  mem : ∀ x ∈ s, x ∈ a
  low : a.low.Reached s
  high : a.high.Reached s

namespace Interval

variable {a b : Interval} {s t : Set Int}

protected theorem le_antisymm (hab : a ≤ b) (hba : b ≤ a) : a = b :=
  Interval.ext (Bound.le_antisymm hba.1 hab.1) (Bound.le_antisymm hab.2 hba.2)

namespace IsHull

/-- A hull lies within every interval around the set. -/
theorem le (h : a.IsHull s) (hs : ∀ x ∈ s, x ∈ b) : a ≤ b :=
  ⟨h.low.le_of_forall_le fun x hx => (hs x hx).1, h.high.le_of_forall_ge fun x hx => (hs x hx).2⟩

/-- A set has one hull. -/
theorem eq (ha : a.IsHull s) (hb : b.IsHull s) : a = b :=
  Interval.le_antisymm (ha.le hb.mem) (hb.le ha.mem)

/-- The hull of a part is a hull of the whole, as long as it holds the whole. -/
theorem of_subset (h : a.IsHull s) (hst : ∀ x ∈ s, x ∈ t) (ht : ∀ x ∈ t, x ∈ a) : a.IsHull t where
  mem := ht
  low := h.low.mono hst
  high := h.high.mono hst

end IsHull

theorem isHull_singleton {n : Int} (hn : n ∈ s) (hs : ∀ x ∈ s, x = n) :
    (singleton n).IsHull s where
  mem x hx := mem_singleton.2 (hs x hx)
  low := hn
  high := hn

protected theorem neg_neg (a : Interval) : -(-a) = a :=
  Interval.ext (Bound.neg_neg _) (Bound.neg_neg _)

theorem neg_mem_of_mem_neg {x : Int} (hx : x ∈ -a) : -x ∈ a := by
  have hneg := mem_neg hx
  rwa [Interval.neg_neg] at hneg

theorem IsHull.neg (h : a.IsHull s) : (-a).IsHull {x | -x ∈ s} where
  mem x hx := by
    have hneg := mem_neg (h.mem (-x) hx)
    rwa [Int.neg_neg] at hneg
  low := h.high.opposite
  high := h.low.opposite

theorem low_reached (a : Interval) : a.low.Reached {x | x ∈ a} := by
  obtain ⟨y, hy⟩ := a.exists_mem
  cases hlow : a.low with
  | posInf => exact absurd hlow a.low_ne_posInf
  | finite n =>
    refine ⟨?_, ?_⟩
    · rw [hlow]
      exact Bound.le_refl _
    · rw [← hlow]
      exact a.low_le_high
  | negInf =>
    -- everything below a member is a member
    intro n
    refine ⟨min n y, ⟨?_, ?_⟩, by omega⟩
    · rw [hlow]
      exact Bound.negInf_le _
    · exact Bound.le_trans (Bound.finite_le_finite.2 (by omega)) hy.2

/-- An interval is the hull of its members. -/
theorem isHull_members (a : Interval) : a.IsHull {x | x ∈ a} where
  mem _ hx := hx
  low := a.low_reached
  high := by
    apply Bound.Reached.of_opposite
    exact (-a).low_reached.mono fun x hx => neg_mem_of_mem_neg hx

/-- The order of intervals is inclusion. -/
theorem le_iff_forall_mem : a ≤ b ↔ ∀ x ∈ a, x ∈ b :=
  ⟨fun h _ => mem_of_le h, a.isHull_members.le⟩

/-- A hull of corners is one of a set if the corners surround the set and are reached by it. -/
theorem isHull_hull {corner : Bound} {corners : List Bound}
    (hbelow : ∀ x ∈ s, ∃ p ∈ corner :: corners, p ≤ .finite x)
    (habove : ∀ x ∈ s, ∃ q ∈ corner :: corners, .finite x ≤ q)
    (hreached : ∀ c ∈ corner :: corners, c.Reached s) : (hull corner corners).IsHull s := by
  obtain ⟨x, hx⟩ := (hreached corner List.mem_cons_self).nonempty
  obtain ⟨p, hp, hpx⟩ := hbelow x hx
  obtain ⟨q, hq, hxq⟩ := habove x hx
  obtain ⟨a, ha, -⟩ := exists_ofBounds? (Bound.le_trans (Bound.foldl_min_le hp) hpx)
    (Bound.le_trans hxq (Bound.le_foldl_max hq))
  obtain ⟨hlow, hhigh⟩ := ofBounds?_eq_some_iff.1 ha
  have hhull : hull corner corners = a := by rw [hull, between, ha, Option.getD_some]
  refine ⟨fun y hy => ?_, ?_, ?_⟩
  · obtain ⟨p, hp, hpy⟩ := hbelow y hy
    obtain ⟨q, hq, hyq⟩ := habove y hy
    exact mem_hull hp hq hpy hyq
  · rw [hhull, hlow]
    exact hreached _ (Bound.foldl_min_mem _ _)
  · rw [hhull, hhigh]
    exact hreached _ (Bound.foldl_max_mem _ _)

/-- The interval has finite ends and excludes zero, so that it can be divided by. -/
def IsDivisor (d : Interval) : Prop :=
  d.low.isFinite ∧ d.high.isFinite ∧ (0 : Int) ∉ d

instance (d : Interval) : Decidable d.IsDivisor :=
  inferInstanceAs (Decidable (_ ∧ _))

theorem IsDivisor.ne_zero {d : Interval} {y : Int} (h : d.IsDivisor) (hy : y ∈ d) : y ≠ 0 := by
  rintro rfl
  exact h.2.2 hy

theorem IsDivisor.exists_ends {d : Interval} (h : d.IsDivisor) :
    ∃ p q, d.low = .finite p ∧ d.high = .finite q := by
  obtain ⟨hlow, hhigh, -⟩ := h
  cases hp : d.low with
  | negInf => simp [hp, Bound.isFinite] at hlow
  | posInf => simp [hp, Bound.isFinite] at hlow
  | finite p =>
    cases hq : d.high with
    | negInf => simp [hq, Bound.isFinite] at hhigh
    | posInf => simp [hq, Bound.isFinite] at hhigh
    | finite q => exact ⟨p, q, rfl, rfl⟩

end Interval

namespace Arith

variable {a b : Interval} {s t : Set Int}

/-- The results of the operation on the integers of two sets. -/
def results (op : Arith) (s t : Set Int) : Set Int :=
  {z | ∃ x ∈ s, ∃ y ∈ t, op.eval x y = some z}

theorem isHull_mul (ha : a.IsHull s) (hb : b.IsHull t) : (a * b).IsHull (mul.results s t) := by
  have hu : ∀ x ∈ s, ∀ y ∈ t, x * y ∈ mul.results s t := fun x hx y hy => ⟨x, hx, y, hy, rfl⟩
  refine Interval.isHull_hull ?_ ?_ ?_
  · rintro z ⟨x, hx, y, hy, hz⟩
    cases hz
    exact Interval.mul_corner_le (ha.mem x hx) (hb.mem y hy)
  · rintro z ⟨x, hx, y, hy, hz⟩
    cases hz
    exact Interval.le_mul_corner (ha.mem x hx) (hb.mem y hy)
  · simp only [List.forall_mem_cons]
    exact ⟨ha.low.mul hb.low hu, ha.low.mul hb.high hu, ha.high.mul hb.low hu,
      ha.high.mul hb.high hu, List.forall_mem_nil _⟩

theorem isHull_floorDiv (hdivisor : b.IsDivisor) (ha : a.IsHull s) (hb : b.IsHull t) :
    (a.floorDiv b).IsHull (floorDiv.results s t) := by
  obtain ⟨p, q, hlow, hhigh⟩ := hdivisor.exists_ends
  have hsign := Interval.sign_of_zero_not_mem hlow hhigh hdivisor.2.2
  have hp : (Bound.finite p).Reached t := hlow ▸ hb.low
  have hq : (Bound.finite q).Reached t := hhigh ▸ hb.high
  have heval (x : Int) {y : Int} (hy : y ∈ t) : floorDiv.eval x y = some (x.fdiv y) := by
    rw [eval, if_neg (hdivisor.ne_zero (hb.mem y hy))]
  have hu (y : Int) (hy : y ∈ t) : ∀ x ∈ s, x.fdiv y ∈ floorDiv.results s t :=
    fun x hx => ⟨x, hx, y, hy, heval x hy⟩
  have hbetween (y : Int) (hy : y ∈ t) : p ≤ y ∧ y ≤ q := by
    have hmem := hb.mem y hy
    rwa [Interval.mem_def, hlow, hhigh, Bound.finite_le_finite, Bound.finite_le_finite] at hmem
  rw [Interval.floorDiv_eq_hull a hlow hhigh hdivisor.2.2]
  refine Interval.isHull_hull ?_ ?_ ?_
  · rintro z ⟨x, hx, y, hy, hz⟩
    rw [heval x hy] at hz
    cases hz
    exact Interval.floorDiv_corner_le (ha.mem x hx) (hbetween y hy).1 (hbetween y hy).2 hsign
  · rintro z ⟨x, hx, y, hy, hz⟩
    rw [heval x hy] at hz
    cases hz
    exact Interval.le_floorDiv_corner (ha.mem x hx) (hbetween y hy).1 (hbetween y hy).2 hsign
  · -- the ends of the divisor are values that it takes, so each corner is reached by quotients
    simp only [List.forall_mem_cons]
    have hp0 : p ≠ 0 := hdivisor.ne_zero (hb.mem p hp)
    have hq0 : q ≠ 0 := hdivisor.ne_zero (hb.mem q hq)
    exact ⟨ha.low.floorDiv hp0 (hu p hp), ha.low.floorDiv hq0 (hu q hq),
      ha.high.floorDiv hp0 (hu p hp), ha.high.floorDiv hq0 (hu q hq), List.forall_mem_nil _⟩

/-- Without a zero divisor there is a result. -/
theorem exists_eval {op : Arith} {y : Int} (x : Int) (hmod : op ≠ .mod)
    (hdivisor : op = .floorDiv → b.IsDivisor) (hy : y ∈ b) : ∃ z, op.eval x y = some z := by
  cases op with
  | floorDiv => exact ⟨x.fdiv y, by rw [eval, if_neg ((hdivisor rfl).ne_zero hy)]⟩
  | mod => exact absurd rfl hmod
  | add => exact ⟨_, rfl⟩
  | sub => exact ⟨_, rfl⟩
  | mul => exact ⟨_, rfl⟩
  | min => exact ⟨_, rfl⟩
  | max => exact ⟨_, rfl⟩

/-- The range of an operation is the hull of its results, for operands that are hulls. Remainders
are left out, and divisors that may be zero or have no end. -/
theorem isHull_range {op : Arith} (hmod : op ≠ .mod) (hdivisor : op = .floorDiv → b.IsDivisor)
    (ha : a.IsHull s) (hb : b.IsHull t) : (op.range a b).IsHull (op.results s t) := by
  have hmem : ∀ z ∈ op.results s t, z ∈ op.range a b := by
    rintro z ⟨x, hx, y, hy, hz⟩
    exact Arith.mem_range (ha.mem x hx) (hb.mem y hy) hz
  cases op with
  | add =>
    have hu : ∀ x ∈ s, ∀ y ∈ t, x + y ∈ add.results s t := fun x hx y hy => ⟨x, hx, y, hy, rfl⟩
    refine ⟨hmem, ?_, ?_⟩
    · exact ha.low.add hb.low (fun _ => b.low_ne_posInf) (fun h => absurd h a.low_ne_posInf) hu
    · exact ha.high.add hb.high (fun h => absurd h a.high_ne_negInf) (fun _ => b.high_ne_negInf) hu
  | sub =>
    -- differences are sums with the opposite set
    have hu : ∀ x ∈ s, ∀ y ∈ {y | -y ∈ t}, x + y ∈ sub.results s t := by
      intro x hx y hy
      exact ⟨x, hx, -y, hy, by rw [eval, Int.sub_neg]⟩
    refine ⟨hmem, ?_, ?_⟩
    · exact ha.low.add hb.neg.low (fun _ => (-b).low_ne_posInf)
        (fun h => absurd h a.low_ne_posInf) hu
    · exact ha.high.add hb.neg.high (fun h => absurd h a.high_ne_negInf)
        (fun _ => (-b).high_ne_negInf) hu
  | mul => exact isHull_mul ha hb
  | floorDiv => exact isHull_floorDiv (hdivisor rfl) ha hb
  | mod => exact absurd rfl hmod
  | min =>
    have hu : ∀ x ∈ s, ∀ y ∈ t, Min.min x y ∈ min.results s t :=
      fun x hx y hy => ⟨x, hx, y, hy, rfl⟩
    exact ⟨hmem, ha.low.min hb.low hu, ha.high.min hb.high hu⟩
  | max =>
    have hu : ∀ x ∈ s, ∀ y ∈ t, Max.max x y ∈ max.results s t :=
      fun x hx y hy => ⟨x, hx, y, hy, rfl⟩
    exact ⟨hmem, ha.low.max hb.low hu, ha.high.max hb.high hu⟩

end Arith

end LoopBounds
