/-
Operations have the best ranges.

The range of an operation is the hull of its results on the members of its
operands, so no narrower interval would do (`ranges_least`). Arithmetic is treated
in `Exactness`; here are the other operations.

* Absolute values come up to the ends that `abs_low` and `abs_high` give.
* A product of two members is not above one of their squares, and not below one
  where the members have the same sign. So the squares come up to the ends that
  the products come up to.
* A predicate is open only if both answers occur (`isHull_decided`): comparisons by
  members next to the ends that are compared, logic by members that are zero and
  members that are not.
* An open choice joins the branches, and the members of both of them occur.

Remainders are left out: `[0, 4]` is the range of the remainders modulo `5` also
where only some of them occur.
-/
import LoopBounds.Proofs.Exactness
import LoopBounds.Proofs.Monotone.Operation

namespace LoopBounds

namespace Bound.Reached

variable {s t u : Set Int} {p : Bound}

/-- A reached bound above a second set is reached by it too, if the second set goes as far up. -/
theorem of_le (h : p.Reached s) (hst : ∀ x ∈ s, ∃ y ∈ t, x ≤ y) (ht : ∀ y ∈ t, .finite y ≤ p) :
    p.Reached t := by
  cases p with
  | negInf =>
    obtain ⟨x, hx⟩ := h.nonempty
    obtain ⟨y, hy, -⟩ := hst x hx
    simpa using ht y hy
  | finite n =>
    obtain ⟨y, hy, hny⟩ := hst n h
    have hyn : y ≤ n := finite_le_finite.1 (ht y hy)
    rw [show n = y by omega]
    exact hy
  | posInf =>
    intro n
    obtain ⟨x, hx, hnx⟩ := h n
    obtain ⟨y, hy, hxy⟩ := hst x hx
    exact ⟨y, hy, by omega⟩

/-- A reached bound below a second set is reached by it too, if the second set goes as far down. -/
theorem of_ge (h : p.Reached s) (hst : ∀ x ∈ s, ∃ y ∈ t, y ≤ x) (ht : ∀ y ∈ t, p ≤ .finite y) :
    p.Reached t := by
  apply of_opposite
  refine h.opposite.of_le ?_ ?_
  · intro x hx
    obtain ⟨y, hy, hyx⟩ := hst (-x) hx
    refine ⟨-y, ?_, by omega⟩
    show -(-y) ∈ t
    rwa [Int.neg_neg]
  · intro y hy
    have hle := neg_le_neg.2 (ht (-y) hy)
    rwa [neg_finite, Int.neg_neg] at hle

/-- A bound that is not negative is reached by absolute values. -/
theorem natAbs (h : p.Reached s) (hp : 0 ≤ p) (hu : ∀ x ∈ s, (x.natAbs : Int) ∈ u) :
    p.Reached u := by
  cases p with
  | negInf => simp at hp
  | finite n =>
    have hn : (n.natAbs : Int) = n := Int.natAbs_of_nonneg (finite_le_finite.1 hp)
    exact hn ▸ hu n h
  | posInf =>
    intro n
    obtain ⟨x, hx, hnx⟩ := h n
    exact ⟨x.natAbs, hu x hx, by omega⟩

end Bound.Reached

namespace Interval

variable {a b : Interval} {s : Set Int}

/-! ### Absolute values and squares -/

theorem isHull_abs (a : Interval) : a.abs.IsHull {z | ∃ x ∈ a, (x.natAbs : Int) = z} := by
  have hu : ∀ x ∈ {x | x ∈ a}, (x.natAbs : Int) ∈ {z | ∃ x ∈ a, (x.natAbs : Int) = z} :=
    fun x hx => ⟨x, hx, rfl⟩
  have hu' : ∀ x ∈ {x | -x ∈ {x | x ∈ a}}, (x.natAbs : Int) ∈ {z | ∃ x ∈ a, (x.natAbs : Int) = z} :=
    fun x hx => ⟨-x, hx, by rw [Int.natAbs_neg]⟩
  have hmembers := a.isHull_members
  refine ⟨?_, ?_, ?_⟩
  · rintro z ⟨x, hx, rfl⟩
    exact mem_abs hx
  · rw [abs_low]
    rcases Bound.max_eq_or 0 (max a.low (-a.high)) with h | h
    · -- zero lies between the ends, so it is the least absolute value
      have hle : max a.low (-a.high) ≤ 0 := h ▸ Bound.le_max_right _ _
      have hlow : a.low ≤ 0 := Bound.le_trans (Bound.le_max_left _ _) hle
      have hhigh : -a.high ≤ -0 := Bound.le_trans (Bound.le_max_right _ _) hle
      rw [h]
      exact ⟨0, ⟨hlow, Bound.neg_le_neg.1 hhigh⟩, rfl⟩
    · -- one sign only: the end next to zero is the least one
      have hpos : 0 ≤ max a.low (-a.high) := h ▸ Bound.le_max_left _ _
      rw [h]
      rcases Bound.max_eq_or a.low (-a.high) with h' | h' <;> rw [h'] at hpos ⊢
      · exact hmembers.low.natAbs hpos hu
      · exact hmembers.high.opposite.natAbs hpos hu'
  · have hpos : 0 ≤ max (-a.low) a.high := by
      rcases Bound.le_total 0 a.high with h | h
      · exact Bound.le_trans h (Bound.le_max_right _ _)
      · have hlow : 0 ≤ -a.low := Bound.neg_le_neg.2 (Bound.le_trans a.low_le_high h)
        exact Bound.le_trans hlow (Bound.le_max_left _ _)
    rw [abs_high]
    rcases Bound.max_eq_or (-a.low) a.high with h | h <;> rw [h] at hpos ⊢
    · exact hmembers.low.opposite.natAbs hpos hu'
    · exact hmembers.high.natAbs hpos hu

/-- The members of an interval without zero have the same sign. -/
theorem pos_or_neg_of_zero_not_mem (h : (0 : Int) ∉ a) : (∀ x ∈ a, 0 < x) ∨ ∀ x ∈ a, x < 0 := by
  by_cases hlow : a.low ≤ .finite 0
  · refine Or.inr fun x hx => ?_
    have hnot : ¬ 0 ≤ x :=
      fun h0 => h ⟨hlow, Bound.le_trans (Bound.finite_le_finite.2 h0) hx.2⟩
    omega
  · refine Or.inl fun x hx => ?_
    have hnot : ¬ x ≤ 0 := fun h0 => hlow (Bound.le_trans hx.1 (Bound.finite_le_finite.2 h0))
    omega

/-- One of the squares of two factors is not below their product. -/
theorem mul_le_square_or (x y : Int) : x * y ≤ x * x ∨ x * y ≤ y * y := by
  rcases Int.le_total x y with h | h
  · rcases Int.le_total 0 y with hy | hy
    · exact Or.inr (Int.mul_le_mul_of_nonneg_right h hy)
    · exact Or.inl (Int.mul_le_mul_of_nonpos_left (by omega) h)
  · rcases Int.le_total 0 x with hx | hx
    · exact Or.inl (Int.mul_le_mul_of_nonneg_left h hx)
    · exact Or.inr (Int.mul_le_mul_of_nonpos_right h (by omega))

/-- One of the squares of two factors of the same sign is not above their product. -/
theorem square_le_mul_or {x y : Int} (h : (0 < x ∧ 0 < y) ∨ (x < 0 ∧ y < 0)) :
    x * x ≤ x * y ∨ y * y ≤ x * y := by
  rcases h with ⟨hx, hy⟩ | ⟨hx, hy⟩
  · rcases Int.le_total x y with h | h
    · exact Or.inl (Int.mul_le_mul_of_nonneg_left h (by omega))
    · exact Or.inr (Int.mul_le_mul_of_nonneg_right h (by omega))
  · rcases Int.le_total x y with h | h
    · exact Or.inr (Int.mul_le_mul_of_nonpos_right h (by omega))
    · exact Or.inl (Int.mul_le_mul_of_nonpos_left (by omega) h)

theorem isHull_square (a : Interval) : a.square.IsHull {z | ∃ x ∈ a, x * x = z} := by
  have hproducts := Arith.isHull_mul a.isHull_members a.isHull_members
  have hsquare {x : Int} (hx : x ∈ a) : x * x ∈ {z | ∃ x ∈ a, x * x = z} := ⟨x, hx, rfl⟩
  refine ⟨?_, ?_, ?_⟩
  · rintro z ⟨x, hx, rfl⟩
    exact mem_square hx
  · rw [(square_ends a).1]
    by_cases hzero : (0 : Int) ∈ a
    · have hle : (a * a).low ≤ 0 := (mem_mul hzero hzero).1
      rw [Bound.max_def, if_pos hle]
      exact ⟨0, hzero, rfl⟩
    · -- the members have one sign, so every product is positive and has a square below it
      have hsame {x y : Int} (hx : x ∈ a) (hy : y ∈ a) : (0 < x ∧ 0 < y) ∨ (x < 0 ∧ y < 0) :=
        (pos_or_neg_of_zero_not_mem hzero).imp (fun h => ⟨h x hx, h y hy⟩)
          (fun h => ⟨h x hx, h y hy⟩)
      have hpos : 0 ≤ (a * a).low := by
        refine hproducts.low.le_of_forall_le ?_
        rintro z ⟨x, hx, y, hy, hz⟩
        cases hz
        refine Bound.finite_le_finite.2 ?_
        rcases hsame hx hy with h | h
        · exact Int.mul_nonneg (Int.le_of_lt h.1) (Int.le_of_lt h.2)
        · exact Int.mul_nonneg_of_nonpos_of_nonpos (Int.le_of_lt h.1) (Int.le_of_lt h.2)
      have hmax : max (a * a).low 0 = (a * a).low :=
        Bound.le_antisymm (Bound.max_le (Bound.le_refl _) hpos) (Bound.le_max_left _ _)
      rw [hmax]
      refine hproducts.low.of_ge ?_ ?_
      · rintro z ⟨x, hx, y, hy, hz⟩
        cases hz
        rcases square_le_mul_or (hsame hx hy) with h | h
        · exact ⟨x * x, hsquare hx, h⟩
        · exact ⟨y * y, hsquare hy, h⟩
      · rintro z ⟨x, hx, rfl⟩
        exact (mem_mul hx hx).1
  · rw [(square_ends a).2]
    refine hproducts.high.of_le ?_ ?_
    · rintro z ⟨x, hx, y, hy, hz⟩
      cases hz
      rcases mul_le_square_or x y with h | h
      · exact ⟨x * x, hsquare hx, h⟩
      · exact ⟨y * y, hsquare hy, h⟩
    · rintro z ⟨x, hx, rfl⟩
      exact (mem_mul hx hx).2

/-! ### Comparisons -/

theorem isHull_ofBool {p : Bool} (hne : ∃ z, z ∈ s) (hmem : ∀ z ∈ s, z ∈ ofBool p) :
    (ofBool p).IsHull s := by
  obtain ⟨z, hz⟩ := hne
  have hp : p.toInt ∈ s := mem_ofBool.1 (hmem z hz) ▸ hz
  exact isHull_singleton hp fun x hx => mem_ofBool.1 (hmem x hx)

/-- A question is answered exactly if it is left open only where both answers occur. -/
theorem isHull_decided {yes no : Prop} [Decidable yes] [Decidable no] (hne : ∃ z, z ∈ s)
    (hmem : ∀ z ∈ s, z ∈ if yes then ofBool true else if no then ofBool false else boolean)
    (htrue : ¬ no → 1 ∈ s) (hfalse : ¬ yes → 0 ∈ s) :
    (if yes then ofBool true else if no then ofBool false else boolean).IsHull s := by
  by_cases hyes : yes
  · rw [if_pos hyes] at hmem ⊢
    exact isHull_ofBool hne hmem
  · rw [if_neg hyes] at hmem ⊢
    by_cases hno : no
    · rw [if_pos hno] at hmem ⊢
      exact isHull_ofBool hne hmem
    · rw [if_neg hno] at hmem ⊢
      exact ⟨hmem, hfalse hyes, htrue hno⟩

/-- The form for a predicate of two members. -/
theorem isHull_predicate {f : Int → Int → Bool} {yes no : Prop} [Decidable yes] [Decidable no]
    (hmem : ∀ x ∈ a, ∀ y ∈ b,
      (f x y).toInt ∈ if yes then ofBool true else if no then ofBool false else boolean)
    (htrue : ¬ no → ∃ x ∈ a, ∃ y ∈ b, f x y = true)
    (hfalse : ¬ yes → ∃ x ∈ a, ∃ y ∈ b, f x y = false) :
    (if yes then ofBool true else if no then ofBool false else boolean).IsHull
      {z | ∃ x ∈ a, ∃ y ∈ b, some (f x y).toInt = some z} := by
  obtain ⟨x, hx⟩ := a.exists_mem
  obtain ⟨y, hy⟩ := b.exists_mem
  refine isHull_decided ⟨_, x, hx, y, hy, rfl⟩ ?_ ?_ ?_
  · rintro z ⟨x, hx, y, hy, hz⟩
    cases hz
    exact hmem x hx y hy
  · intro hno
    obtain ⟨x, hx, y, hy, h⟩ := htrue hno
    exact ⟨x, hx, y, hy, by rw [h]; rfl⟩
  · intro hyes
    obtain ⟨x, hx, y, hy, h⟩ := hfalse hyes
    exact ⟨x, hx, y, hy, by rw [h]; rfl⟩

theorem exists_mem_le (h : a.low ≤ b.high) : ∃ x ∈ a, ∃ y ∈ b, x ≤ y := by
  have ha := a.low_reached
  cases hlow : a.low with
  | posInf => exact absurd hlow a.low_ne_posInf
  | negInf =>
    obtain ⟨y, hy⟩ := b.exists_mem
    rw [hlow] at ha
    obtain ⟨x, hx, hxy⟩ := ha y
    exact ⟨x, hx, y, hy, hxy⟩
  | finite m =>
    rw [hlow] at ha h
    obtain ⟨y, hy, hmy⟩ := b.isHull_members.high.exists_ge h
    exact ⟨m, ha, y, hy, hmy⟩

theorem exists_mem_lt (h : a.low < b.high) : ∃ x ∈ a, ∃ y ∈ b, x < y := by
  have ha := a.low_reached
  cases hlow : a.low with
  | posInf => exact absurd hlow a.low_ne_posInf
  | negInf =>
    obtain ⟨y, hy⟩ := b.exists_mem
    rw [hlow] at ha
    obtain ⟨x, hx, hxy⟩ := ha (y - 1)
    exact ⟨x, hx, y, hy, by omega⟩
  | finite m =>
    rw [hlow] at ha h
    have hsucc : .finite (m + 1) ≤ b.high := by
      cases hhigh : b.high with
      | negInf => exact absurd hhigh b.high_ne_negInf
      | posInf => exact Bound.le_posInf _
      | finite n =>
        rw [hhigh, Bound.finite_lt_finite] at h
        exact Bound.finite_le_finite.2 h
    obtain ⟨y, hy, hmy⟩ := b.isHull_members.high.exists_ge hsucc
    exact ⟨m, ha, y, hy, by omega⟩

theorem isHull_lessThan (a b : Interval) : (a.lessThan b).IsHull
    {z | ∃ x ∈ a, ∃ y ∈ b, some (decide (x < y)).toInt = some z} := by
  refine isHull_predicate (fun x hx y hy => mem_lessThan hx hy) ?_ ?_
  · intro hlt
    obtain ⟨x, hx, y, hy, hxy⟩ := exists_mem_lt hlt
    exact ⟨x, hx, y, hy, decide_eq_true hxy⟩
  · intro hnot
    obtain ⟨y, hy, x, hx, hyx⟩ := exists_mem_le (Decidable.not_not.1 hnot)
    exact ⟨x, hx, y, hy, decide_eq_false (by omega)⟩

theorem isHull_atMost (a b : Interval) : (a.atMost b).IsHull
    {z | ∃ x ∈ a, ∃ y ∈ b, some (decide (x ≤ y)).toInt = some z} := by
  refine isHull_predicate (fun x hx y hy => mem_atMost hx hy) ?_ ?_
  · intro hnot
    obtain ⟨x, hx, y, hy, hxy⟩ := exists_mem_le (Decidable.not_not.1 hnot)
    exact ⟨x, hx, y, hy, decide_eq_true hxy⟩
  · intro hlt
    obtain ⟨y, hy, x, hx, hyx⟩ := exists_mem_lt hlt
    exact ⟨x, hx, y, hy, decide_eq_false (by omega)⟩

/-- Two intervals have different members unless they are one and the same integer. -/
theorem exists_mem_ne (h : ¬ (a.isSingleton ∧ a = b)) : ∃ x ∈ a, ∃ y ∈ b, x ≠ y := by
  refine Classical.byContradiction fun hnone => h ?_
  have hall : ∀ x ∈ a, ∀ y ∈ b, x = y := by
    intro x hx y hy
    exact Classical.byContradiction fun hxy => hnone ⟨x, hx, y, hy, hxy⟩
  obtain ⟨x, hx⟩ := a.exists_mem
  obtain ⟨y, hy⟩ := b.exists_mem
  have hsingle (n : Int) : (singleton n).isSingleton := by
    simp [singleton, isSingleton, Bound.isFinite]
  have ha : a ≤ singleton x := by
    refine le_iff_forall_mem.2 fun z hz => mem_singleton.2 ?_
    exact (hall z hz y hy).trans (hall x hx y hy).symm
  have hb : b ≤ singleton x :=
    le_iff_forall_mem.2 fun z hz => mem_singleton.2 (hall x hx z hz).symm
  rw [eq_of_le_singleton ha (hsingle x), eq_of_le_singleton hb (hsingle x)]
  exact ⟨hsingle x, rfl⟩

/-- Intervals that meet have a common member. -/
theorem exists_mem_of_inter? (h : ¬ a.inter? b = none) : ∃ x, x ∈ a ∧ x ∈ b := by
  obtain ⟨c, hc⟩ := Option.ne_none_iff_exists'.1 h
  obtain ⟨x, hx⟩ := c.exists_mem
  exact ⟨x, mem_of_inter? hc hx⟩

theorem isHull_equal (a b : Interval) : (a.equal b).IsHull
    {z | ∃ x ∈ a, ∃ y ∈ b, some (decide (x = y)).toInt = some z} := by
  refine isHull_predicate (fun x hx y hy => mem_equal hx hy) ?_ ?_
  · intro hmeet
    obtain ⟨x, ha, hb⟩ := exists_mem_of_inter? hmeet
    exact ⟨x, ha, x, hb, decide_eq_true rfl⟩
  · intro hnot
    obtain ⟨x, hx, y, hy, hxy⟩ := exists_mem_ne hnot
    exact ⟨x, hx, y, hy, decide_eq_false hxy⟩

theorem notEqual_eq (a b : Interval) : a.notEqual b =
    if a.inter? b = none then ofBool true
    else if a.isSingleton ∧ a = b then ofBool false else boolean := by
  unfold notEqual equal
  by_cases hsame : a.isSingleton ∧ a = b
  · have hself := hsame
    obtain ⟨-, rfl⟩ := hself
    have hmeet : a.inter? a ≠ none := by simp [inter?_of_le (Interval.le_refl a)]
    rw [if_pos hsame, if_neg hmeet, if_pos hsame]
    rfl
  · rw [if_neg hsame, if_neg hsame]
    split <;> rfl

theorem isHull_notEqual (a b : Interval) : (a.notEqual b).IsHull
    {z | ∃ x ∈ a, ∃ y ∈ b, some (decide (x ≠ y)).toInt = some z} := by
  rw [notEqual_eq]
  refine isHull_predicate ?_ ?_ ?_
  · intro x hx y hy
    rw [← notEqual_eq]
    exact mem_notEqual hx hy
  · intro hnot
    obtain ⟨x, hx, y, hy, hxy⟩ := exists_mem_ne hnot
    exact ⟨x, hx, y, hy, decide_eq_true hxy⟩
  · intro hmeet
    obtain ⟨x, ha, hb⟩ := exists_mem_of_inter? hmeet
    exact ⟨x, ha, x, hb, decide_eq_false (not_not_intro rfl)⟩

/-! ### Logic -/

theorem zero_mem_of_truth? (h : a.truth? ≠ some true) : (0 : Int) ∈ a := by
  refine Decidable.byContradiction fun hzero => h ?_
  rw [truth?, if_pos hzero]

theorem exists_ne_zero_of_truth? (h : a.truth? ≠ some false) : ∃ x ∈ a, x ≠ 0 := by
  have hne : ¬ (a.isSingleton ∧ a = singleton 0) := by
    rintro ⟨-, rfl⟩
    exact h rfl
  obtain ⟨x, hx, y, hy, hxy⟩ := exists_mem_ne hne
  rw [mem_singleton.1 hy] at hxy
  exact ⟨x, hx, hxy⟩

theorem isHull_logicalNot (a : Interval) :
    a.logicalNot.IsHull {z | ∃ x ∈ a, (decide (x = 0)).toInt = z} := by
  obtain ⟨x, hx⟩ := a.exists_mem
  rw [logicalNot_eq]
  refine isHull_decided ⟨_, x, hx, rfl⟩ ?_ ?_ ?_
  · rintro z ⟨x, hx, rfl⟩
    rw [← logicalNot_eq]
    exact mem_logicalNot hx
  · intro hopen
    exact ⟨0, zero_mem_of_truth? hopen, rfl⟩
  · intro hopen
    obtain ⟨x, hx, hne⟩ := exists_ne_zero_of_truth? hopen
    exact ⟨x, hx, by rw [decide_eq_false hne]; rfl⟩

theorem isHull_logicalAnd (a b : Interval) : (a.logicalAnd b).IsHull
    {z | ∃ x ∈ a, ∃ y ∈ b, some (decide (x ≠ 0 ∧ y ≠ 0)).toInt = some z} := by
  rw [logicalAnd_eq]
  refine isHull_predicate ?_ ?_ ?_
  · intro x hx y hy
    rw [← logicalAnd_eq]
    exact mem_logicalAnd hx hy
  · intro hopen
    obtain ⟨x, hx, hx0⟩ := exists_ne_zero_of_truth? fun h => hopen (Or.inl h)
    obtain ⟨y, hy, hy0⟩ := exists_ne_zero_of_truth? fun h => hopen (Or.inr h)
    exact ⟨x, hx, y, hy, decide_eq_true ⟨hx0, hy0⟩⟩
  · intro hopen
    obtain ⟨x, hx⟩ := a.exists_mem
    obtain ⟨y, hy⟩ := b.exists_mem
    by_cases ha : a.truth? = some true
    · have hzero := zero_mem_of_truth? fun hb => hopen ⟨ha, hb⟩
      exact ⟨x, hx, 0, hzero, decide_eq_false fun h => h.2 rfl⟩
    · exact ⟨0, zero_mem_of_truth? ha, y, hy, decide_eq_false fun h => h.1 rfl⟩

theorem isHull_logicalOr (a b : Interval) : (a.logicalOr b).IsHull
    {z | ∃ x ∈ a, ∃ y ∈ b, some (decide (x ≠ 0 ∨ y ≠ 0)).toInt = some z} := by
  rw [logicalOr_eq]
  refine isHull_predicate ?_ ?_ ?_
  · intro x hx y hy
    rw [← logicalOr_eq]
    exact mem_logicalOr hx hy
  · intro hopen
    obtain ⟨x, hx⟩ := a.exists_mem
    obtain ⟨y, hy⟩ := b.exists_mem
    by_cases ha : a.truth? = some false
    · obtain ⟨y, hy, hy0⟩ := exists_ne_zero_of_truth? fun hb => hopen ⟨ha, hb⟩
      exact ⟨x, hx, y, hy, decide_eq_true (Or.inr hy0)⟩
    · obtain ⟨x, hx, hx0⟩ := exists_ne_zero_of_truth? ha
      exact ⟨x, hx, y, hy, decide_eq_true (Or.inl hx0)⟩
  · intro hopen
    have ha := zero_mem_of_truth? fun h => hopen (Or.inl h)
    have hb := zero_mem_of_truth? fun h => hopen (Or.inr h)
    exact ⟨0, ha, 0, hb, decide_eq_false (by simp)⟩

theorem isHull_join (a b : Interval) : (a.join b).IsHull {z | z ∈ a ∨ z ∈ b} where
  mem z hz := hz.elim mem_join_left mem_join_right
  low := by
    show (min a.low b.low).Reached _
    rcases Bound.min_eq_or a.low b.low with h | h <;> rw [h]
    · exact a.low_reached.mono fun x => Or.inl
    · exact b.low_reached.mono fun x => Or.inr
  high := by
    show (max a.high b.high).Reached _
    rcases Bound.max_eq_or a.high b.high with h | h <;> rw [h]
    · exact a.isHull_members.high.mono fun x => Or.inl
    · exact b.isHull_members.high.mono fun x => Or.inr

theorem isHull_select (a yes no : Interval) : (a.select yes no).IsHull
    {z | ∃ c ∈ a, ∃ x ∈ yes, ∃ y ∈ no, (if c = 0 then y else x) = z} := by
  obtain ⟨x₀, hx₀⟩ := yes.exists_mem
  obtain ⟨y₀, hy₀⟩ := no.exists_mem
  have hyes {c x : Int} (hc : c ∈ a) (hne : c ≠ 0) (hx : x ∈ yes) :
      x ∈ {z | ∃ c ∈ a, ∃ x ∈ yes, ∃ y ∈ no, (if c = 0 then y else x) = z} :=
    ⟨c, hc, x, hx, y₀, hy₀, if_neg hne⟩
  have hno {y : Int} (hc : (0 : Int) ∈ a) (hy : y ∈ no) :
      y ∈ {z | ∃ c ∈ a, ∃ x ∈ yes, ∃ y ∈ no, (if c = 0 then y else x) = z} :=
    ⟨0, hc, x₀, hx₀, y, hy, if_pos rfl⟩
  have hmem : ∀ z ∈ {z | ∃ c ∈ a, ∃ x ∈ yes, ∃ y ∈ no, (if c = 0 then y else x) = z},
      z ∈ a.select yes no := by
    rintro z ⟨c, hc, x, hx, y, hy, rfl⟩
    exact mem_select hc hx hy
  cases htruth : a.truth? with
  | some value =>
    cases value with
    | true =>
      have hselect : a.select yes no = yes := by simp only [select, htruth]
      obtain ⟨c, hc, hne⟩ := exists_ne_zero_of_truth? (a := a) (by simp [htruth])
      rw [hselect] at hmem ⊢
      exact yes.isHull_members.of_subset (fun x => hyes hc hne) hmem
    | false =>
      have hselect : a.select yes no = no := by simp only [select, htruth]
      have hc := zero_mem_of_truth? (a := a) (by simp [htruth])
      rw [hselect] at hmem ⊢
      exact no.isHull_members.of_subset (fun y => hno hc) hmem
  | none =>
    -- the condition has a member that is zero and one that is not, so both branches are taken
    have hselect : a.select yes no = yes.join no := by simp only [select, htruth]
    obtain ⟨c, hc, hne⟩ := exists_ne_zero_of_truth? (a := a) (by simp [htruth])
    have hc0 := zero_mem_of_truth? (a := a) (by simp [htruth])
    rw [hselect] at hmem ⊢
    exact (isHull_join yes no).of_subset (fun z hz => hz.elim (hyes hc hne) (hno hc0)) hmem

end Interval

/-! ### All operations -/

theorem Unary.isHull_range (op : Unary) (a : Interval) :
    (op.range a).IsHull {z | ∃ x ∈ a, op.eval x = z} := by
  have hmem : ∀ z ∈ {z | ∃ x ∈ a, op.eval x = z}, z ∈ op.range a := by
    rintro z ⟨x, hx, rfl⟩
    exact op.mem_range hx
  cases op with
  | identity => exact a.isHull_members.of_subset (fun x hx => ⟨x, hx, rfl⟩) hmem
  | neg => exact a.isHull_members.neg.of_subset (fun x hx => ⟨-x, hx, Int.neg_neg x⟩) hmem
  | abs => exact a.isHull_abs
  | square => exact a.isHull_square
  | not => exact a.isHull_logicalNot

theorem Relation.isHull_range (rel : Relation) (a b : Interval) : (rel.range a b).IsHull
    {z | ∃ x ∈ a, ∃ y ∈ b, some (rel.holds x y).toInt = some z} := by
  have hmem : ∀ z ∈ {z | ∃ x ∈ a, ∃ y ∈ b, some (rel.holds x y).toInt = some z},
      z ∈ rel.range a b := by
    rintro z ⟨x, hx, y, hy, hz⟩
    cases hz
    exact rel.mem_range hx hy
  cases rel with
  | lt => exact a.isHull_lessThan b
  | le => exact a.isHull_atMost b
  | gt =>
    refine (b.isHull_lessThan a).of_subset ?_ hmem
    rintro z ⟨y, hy, x, hx, hz⟩
    exact ⟨x, hx, y, hy, hz⟩
  | ge =>
    refine (b.isHull_atMost a).of_subset ?_ hmem
    rintro z ⟨y, hy, x, hx, hz⟩
    exact ⟨x, hx, y, hy, hz⟩
  | eq => exact a.isHull_equal b
  | ne => exact a.isHull_notEqual b

theorem Binary.isHull_range {op : Binary} {a b : Interval} (hmod : op ≠ .arith .mod)
    (hdivisor : op = .arith .floorDiv → b.IsDivisor) :
    (op.range a b).IsHull {z | ∃ x ∈ a, ∃ y ∈ b, op.eval x y = some z} := by
  cases op with
  | arith op =>
    exact Arith.isHull_range (fun h => hmod (congrArg _ h)) (fun h => hdivisor (congrArg _ h))
      a.isHull_members b.isHull_members
  | compare rel => exact rel.isHull_range a b
  | and => exact a.isHull_logicalAnd b
  | or => exact a.isHull_logicalOr b

theorem Binary.exists_eval {op : Binary} {b : Interval} {y : Int} (x : Int)
    (hmod : op ≠ .arith .mod) (hdivisor : op = .arith .floorDiv → b.IsDivisor) (hy : y ∈ b) :
    ∃ z, op.eval x y = some z := by
  cases op with
  | arith op =>
    exact Arith.exists_eval x (fun h => hmod (congrArg _ h)) (fun h => hdivisor (congrArg _ h)) hy
  | compare rel => exact ⟨_, rfl⟩
  | and => exact ⟨_, rfl⟩
  | or => exact ⟨_, rfl⟩

/-- **Ranges are the best ones.** The range of an operation is the least interval around its exact
results on the members of its operands: for every operation but remainders, with a quotient by a
divisor that has finite ends and excludes zero. -/
theorem ranges_least :
    (∀ (op : Unary) (a : Interval),
      IsLeast {around : Interval | ∀ x ∈ a, op.eval x ∈ around} (op.range a)) ∧
    (∀ (op : Binary) (a b : Interval), op ≠ .arith .mod →
      (op = .arith .floorDiv → b.IsDivisor) →
      IsLeast {around : Interval | ∀ x ∈ a, ∀ y ∈ b, ∃ z ∈ around, op.eval x y = some z}
        (op.range a b)) ∧
    (∀ condition yes no : Interval,
      IsLeast {around : Interval | ∀ c ∈ condition, ∀ x ∈ yes, ∀ y ∈ no,
        (if c = 0 then y else x) ∈ around} (condition.select yes no)) := by
  refine ⟨fun op a => ?_, fun op a b hmod hdivisor => ?_, fun condition yes no => ?_⟩
  · refine ⟨fun x hx => op.mem_range hx, fun around haround => (op.isHull_range a).le ?_⟩
    rintro z ⟨x, hx, rfl⟩
    exact haround x hx
  · refine ⟨fun x hx y hy => ?_, fun around haround => (Binary.isHull_range hmod hdivisor).le ?_⟩
    · obtain ⟨z, hz⟩ := Binary.exists_eval x hmod hdivisor hy
      exact ⟨z, Binary.mem_range hx hy hz, hz⟩
    · rintro z ⟨x, hx, y, hy, hz⟩
      obtain ⟨w, hw, heval⟩ := haround x hx y hy
      rw [heval] at hz
      cases hz
      exact hw
  · refine ⟨fun c hc x hx y hy => Interval.mem_select hc hx hy, fun around haround =>
      (condition.isHull_select yes no).le ?_⟩
    rintro z ⟨c, hc, x, hx, y, hy, rfl⟩
    exact haround c hc x hx y hy

/-- The least quotient is that of `7` by `-2`; there is no greatest one. -/
theorem ranges_least_quotient :
    (Interval.between (.finite (-3)) (.finite (-2))).IsDivisor ∧
    Interval.floorDiv (.between .negInf 7) (.between (.finite (-3)) (.finite (-2))) =
      .between (.finite (-4)) .posInf ∧
    IsLeast {around : Interval | ∀ x ∈ Interval.between .negInf 7,
        ∀ y ∈ Interval.between (.finite (-3)) (.finite (-2)),
          ∃ z ∈ around, Arith.floorDiv.eval x y = some z}
      (.between (.finite (-4)) .posInf) := by
  have hdivisor : (Interval.between (.finite (-3)) (.finite (-2))).IsDivisor := by decide
  have hrange : Interval.floorDiv (.between .negInf 7) (.between (.finite (-3)) (.finite (-2))) =
      .between (.finite (-4)) .posInf := by decide
  refine ⟨hdivisor, hrange, ?_⟩
  rw [← hrange]
  exact ranges_least.2.1 (.arith .floorDiv) _ _ (by decide) fun _ => hdivisor

end LoopBounds
