/-
Ranges of loop variables.

A loop variable runs from zero to its upper bound. An analysis takes the range of
the upper bound for this and not its value, and the two need not agree
(`upper_end_missed`): the range of `7 % 5` is `[0, 4]` and not `[2, 2]`, and that of
`min(1 // 0, 5)` ends at `5` although there is no value at all.

They agree where every operation of the upper bound is faithful
(`Expr.range_of_isFaithful`): its range is a single integer if it has a value, and
unknown if it has none. A remainder is faithful if it is the dividend itself, or by
`1` or `-1`; a product, minimum or maximum is unless it gives an end to an operand
that has no value. The main statement is `loop_variable_range`.
-/
import LoopBounds.Proofs.Analysis.Start
import LoopBounds.Proofs.Exactness

namespace LoopBounds

namespace Interval

/-- All that an interval can tell about a value that may be missing. -/
def ofValue : Option Int → Interval
  | some n => .singleton n
  | none => .unknown

variable {s : Set Int} {n m : Int}

theorem isHull_unknown (hlow : Bound.negInf.Reached s) (hhigh : Bound.posInf.Reached s) :
    unknown.IsHull s :=
  ⟨fun _ _ => mem_unknown _, hlow, hhigh⟩

/-! ### Products and quotients of unknown values -/

theorem mul_comm_le (a b : Interval) : a * b ≤ b * a := by
  refine (Arith.isHull_mul a.isHull_members b.isHull_members).le ?_
  rintro z ⟨x, hx, y, hy, hz⟩
  cases hz
  rw [Int.mul_comm]
  exact mem_mul hy hx

protected theorem mul_comm (a b : Interval) : a * b = b * a :=
  Interval.le_antisymm (mul_comm_le a b) (mul_comm_le b a)

theorem unknown_mul (hm : m ≠ 0) : unknown * singleton m = unknown := by
  -- the multiples of `m` next to `n` on either side, whatever the sign of `m`
  refine (Arith.isHull_mul unknown.isHull_members (singleton m).isHull_members).eq
    (isHull_unknown ?_ ?_)
  · intro n
    exact ⟨n / m * m, ⟨n / m, mem_unknown _, m, mem_singleton.2 rfl, rfl⟩, Int.ediv_mul_le n hm⟩
  · intro n
    refine ⟨-(-n / m) * m, ⟨-(-n / m), mem_unknown _, m, mem_singleton.2 rfl, rfl⟩, ?_⟩
    have hle := Int.ediv_mul_le (-n) hm
    rw [Int.neg_mul]
    omega

theorem unknown_floorDiv (hm : m ≠ 0) : unknown.floorDiv (singleton m) = unknown := by
  have hdivisor : (singleton m).IsDivisor := ⟨rfl, rfl, fun h => hm (mem_singleton.1 h).symm⟩
  -- every integer is a quotient, that of its multiple
  have hall (n : Int) : n ∈ Arith.floorDiv.results {x | x ∈ unknown} {y | y ∈ singleton m} :=
    ⟨n * m, mem_unknown _, m, mem_singleton.2 rfl, by
      rw [Arith.eval, if_neg hm, Int.mul_fdiv_cancel n hm]⟩
  refine (Arith.isHull_floorDiv hdivisor unknown.isHull_members (singleton m).isHull_members).eq
    (isHull_unknown ?_ ?_)
  · exact fun n => ⟨n, hall n, Int.le_refl n⟩
  · exact fun n => ⟨n, hall n, Int.le_refl n⟩

/-! ### Remainders -/

/-- A remainder by a positive number is a single integer if it is the dividend, or by `1`. -/
theorem singleton_mod_of_pos (hm : 0 < m) (h : m = 1 ∨ n.fmod m = n) :
    (singleton n).mod (singleton m) = singleton (n.fmod m) := by
  have hnonneg := Int.fmod_nonneg_of_pos n hm
  have hlt := Int.fmod_lt_of_pos n hm
  rw [mod_of_pos (singleton n) rfl rfl hm]
  rcases h with rfl | h
  · rw [Int.fmod_one]
    split
    · -- the dividend is kept only if it is zero itself
      rename_i hkept
      have hlow : 0 ≤ n := Bound.finite_le_finite.1 hkept.1
      have hhigh : n < 1 := Bound.finite_lt_finite.1 hkept.2
      rw [show n = 0 by omega]
    · rfl
  · rw [h] at hnonneg hlt ⊢
    exact if_pos ⟨Bound.finite_le_finite.2 hnonneg, Bound.finite_lt_finite.2 hlt⟩

theorem singleton_mod (hm : m ≠ 0) (h : m.natAbs = 1 ∨ n.fmod m = n) :
    (singleton n).mod (singleton m) = singleton (n.fmod m) := by
  rcases Int.lt_or_gt_of_ne hm with hneg | hpos
  · have hopposite : (-n).fmod (-m) = -n.fmod m := Int.neg_fmod_neg n m
    have hkept : -m = 1 ∨ (-n).fmod (-m) = -n :=
      h.imp (fun h => by omega) (fun h => by rw [hopposite, h])
    rw [mod_eq_neg_mod_neg (singleton n) rfl rfl hneg]
    show -(singleton (-n)).mod (singleton (-m)) = singleton (n.fmod m)
    rw [singleton_mod_of_pos (by omega) hkept, hopposite]
    show singleton (- -n.fmod m) = singleton (n.fmod m)
    rw [Int.neg_neg]
  · exact singleton_mod_of_pos hpos (h.imp_left fun h => by omega)

end Interval

/-! ### Faithful operations -/

namespace Arith

/-- Whether the range on operands that are known exactly, or not at all if they have no value, is
all that is to say about the result. -/
def isFaithful : Arith → Option Int → Option Int → Bool
  | .add, _, _ => true
  | .sub, _, _ => true
  | .floorDiv, _, _ => true
  -- zero times anything is zero
  | .mul, some n, none => n ≠ 0
  | .mul, none, some m => m ≠ 0
  | .mul, _, _ => true
  -- a remainder is at least known to lie between zero and the modulus
  | .mod, some n, some m => m = 0 ∨ m.natAbs = 1 ∨ n.fmod m = n
  | .mod, none, some m => m = 0
  | .mod, _, none => true
  -- one operand is enough for one end
  | .min, x, y => x.isSome = y.isSome
  | .max, x, y => x.isSome = y.isSome

variable {op : Arith} {n m z : Int} {x y : Option Int}

theorem range_singleton (hmod : op ≠ .mod) (hz : op.eval n m = some z) :
    op.range (.singleton n) (.singleton m) = .singleton z := by
  have hdivisor : op = .floorDiv → (Interval.singleton m).IsDivisor := by
    rintro rfl
    refine ⟨rfl, rfl, fun hzero => ?_⟩
    rw [← Interval.mem_singleton.1 hzero] at hz
    cases hz
  refine (isHull_range hmod hdivisor (Interval.isHull_members _) (Interval.isHull_members _)).eq
    (Interval.isHull_singleton ?_ ?_)
  · exact ⟨n, Interval.mem_singleton.2 rfl, m, Interval.mem_singleton.2 rfl, hz⟩
  · rintro w ⟨x, hx, y, hy, hw⟩
    rw [Interval.mem_singleton.1 hx, Interval.mem_singleton.1 hy, hz] at hw
    exact (Option.some.inj hw).symm

theorem range_of_values (h : op.isFaithful (some n) (some m)) :
    op.range (.singleton n) (.singleton m) = .ofValue (op.eval n m) := by
  by_cases hmod : op = .mod
  · subst hmod
    simp only [isFaithful, decide_eq_true_eq] at h
    by_cases hm : m = 0
    · subst hm
      rfl
    · rw [eval, if_neg hm]
      exact Interval.singleton_mod hm (h.resolve_left hm)
  · cases hz : op.eval n m with
    | some z => exact range_singleton hmod hz
    | none =>
      have hnone : (Binary.arith op).eval n m = none := hz
      obtain ⟨hop, rfl⟩ := Binary.eval_eq_none hnone
      obtain rfl : op = .floorDiv := by simpa [hmod] using hop
      rfl

/-- A faithful operation with a missing operand says nothing about the result. -/
theorem range_of_none_left (h : op.isFaithful none y) :
    op.range .unknown (.ofValue y) = .unknown := by
  cases y with
  | none => cases op <;> rfl
  | some m =>
    cases op with
    | add => rfl
    | sub => rfl
    | mul => exact Interval.unknown_mul (of_decide_eq_true h)
    | floorDiv =>
      by_cases hm : m = 0
      · subst hm
        rfl
      · exact Interval.unknown_floorDiv hm
    | mod =>
      obtain rfl : m = 0 := of_decide_eq_true h
      rfl
    | min => cases h
    | max => cases h

theorem range_of_none_right (h : op.isFaithful (some n) none) :
    op.range (.singleton n) .unknown = .unknown := by
  cases op with
  | add => rfl
  | sub => rfl
  | mul => exact (Interval.mul_comm _ _).trans (Interval.unknown_mul (of_decide_eq_true h))
  | floorDiv => rfl
  | mod => rfl
  | min => cases h
  | max => cases h

theorem range_of_isFaithful (h : op.isFaithful x y) :
    op.range (.ofValue x) (.ofValue y) =
      .ofValue (x.bind fun n => y.bind fun m => op.eval n m) := by
  cases x with
  | none => exact range_of_none_left h
  | some n =>
    cases y with
    | none => exact range_of_none_right h
    | some m => exact range_of_values h

end Arith

namespace Expr

variable {e : Expr}

/-- The value of an expression that mentions no symbol. -/
def value? (e : Expr) : Option Int :=
  e.eval? fun _ => none

/-- Whether all operations are faithful on the values that they are applied to. -/
def isFaithful : Expr → Bool
  | .sym _ => true
  | .const _ => true
  | .neg e => e.isFaithful
  | .binary op a b => a.isFaithful && b.isFaithful && op.isFaithful a.value? b.value?
  | .modIndex e d m => e.isFaithful && d.isFaithful && m.isFaithful &&
    Arith.mod.isFaithful (binary .floorDiv e d).value? m.value?

theorem value?_binary (op : Arith) (a b : Expr) : (binary op a b).value? =
    a.value?.bind fun n => b.value?.bind fun m => op.eval n m := rfl

theorem value?_modIndex (e d m : Expr) :
    (modIndex e d m).value? = (binary .mod (binary .floorDiv e d) m).value? := by
  rw [value?, value?, eval?, eval?, eval?]
  cases e.eval? fun _ => none with
  | none => rfl
  | some n => cases d.eval? fun _ => none <;> rfl

/-- If all operations are faithful, then the range is as exact as the value. -/
theorem range_of_isFaithful (h : e.isFaithful) : e.range ∅ = .ofValue e.value? := by
  induction e with
  | sym name => simp [range, Scope.range, value?, eval?, Interval.ofValue]
  | const n => rfl
  | neg e ih =>
    rw [range, ih h, value?, value?, eval?]
    cases e.eval? fun _ => none <;> rfl
  | binary op a b iha ihb =>
    simp only [isFaithful, Bool.and_eq_true] at h
    obtain ⟨⟨ha, hb⟩, hop⟩ := h
    rw [range, iha ha, ihb hb, value?_binary]
    exact Arith.range_of_isFaithful hop
  | modIndex e d m ihe ihd ihm =>
    simp only [isFaithful, Bool.and_eq_true] at h
    obtain ⟨⟨⟨he, hd⟩, hm⟩, hmod⟩ := h
    have hdiv : Arith.floorDiv.isFaithful e.value? d.value? := rfl
    have hquotient : (e.range ∅).floorDiv (d.range ∅) =
        .ofValue (binary .floorDiv e d).value? := by
      rw [ihe he, ihd hd, value?_binary]
      exact Arith.range_of_isFaithful hdiv
    rw [range, hquotient, ihm hm, value?_modIndex, value?_binary .mod]
    exact Arith.range_of_isFaithful hmod

/-! ### Loop variables -/

variable {upper : Expr}

theorem loopRange_of_isConcrete (h : upper.isConcrete) :
    upper.loopRange.low = 0 ∧ upper.loopRange.high = max (upper.range ∅).high 0 := by
  have hends : (0 : Bound) ≤ max (upper.range ∅).high 0 ∧ (0 : Bound) ≠ .posInf ∧
      max (upper.range ∅).high 0 ≠ .negInf :=
    ⟨Bound.le_max_right _ _, Bound.noConfusion,
      Bound.max_ne (upper.range ∅).high_ne_negInf Bound.noConfusion⟩
  rw [loopRange, if_pos h, Interval.between, Interval.ofBounds?, dif_pos hends]
  exact ⟨rfl, rfl⟩

theorem loopRange_low (upper : Expr) : upper.loopRange.low = 0 := by
  by_cases h : upper.isConcrete
  · exact (loopRange_of_isConcrete h).1
  · rw [loopRange, if_neg h]
    rfl

/-- The value of an upper bound is never above the range. -/
theorem le_loopRange_high {U : Int} (hconcrete : upper.isConcrete) (hU : upper.value? = some U) :
    .finite (max U 0) ≤ upper.loopRange.high := by
  have hmem : U ∈ upper.range ∅ := by
    refine Expr.mem_range ?_ hU
    intro name _ x hx
    cases hx
  rw [(loopRange_of_isConcrete hconcrete).2, ← Bound.max_finite]
  exact Bound.max_le_max hmem.2 (Bound.le_refl _)

theorem loopRange_of_isFaithful (hconcrete : upper.isConcrete) (h : upper.isFaithful) :
    upper.loopRange =
      match upper.value? with
      | some U => .between 0 (.finite (max U 0))
      | none => .nonnegative := by
  rw [loopRange, if_pos hconcrete, range_of_isFaithful h]
  cases upper.value? with
  | none => rfl
  | some U =>
    show Interval.between 0 (max (.finite U) (.finite 0)) = _
    rw [Bound.max_finite]

end Expr

namespace Body

variable {body : Body}

theorem getElem?_foldl_loopRange {name : Symbol} (decls : List (Symbol × Expr)) (scope : Scope)
    (h : name ∉ decls.map Prod.fst) :
    (decls.foldl (fun scope decl => scope.insert decl.1 decl.2.loopRange) scope)[name]? =
      scope[name]? := by
  induction decls generalizing scope with
  | nil => rfl
  | cons decl rest ih =>
    rw [List.map_cons, List.mem_cons, not_or] at h
    rw [List.foldl_cons, ih _ h.2]
    simp [Std.ExtTreeMap.getElem?_insert, Ne.symm h.1]

/-- A variable that is declared once has the range of its upper bound. -/
theorem getElem?_initialScope_of_mem {var : Symbol} {upper : Expr}
    (hdistinct : (body.varRanges.map Prod.fst).Nodup) (hdecl : (var, upper) ∈ body.varRanges) :
    body.initialScope[var]? = some upper.loopRange := by
  have hfold : ∀ (decls : List (Symbol × Expr)) (scope : Scope), (decls.map Prod.fst).Nodup →
      (var, upper) ∈ decls →
        (decls.foldl (fun scope decl => scope.insert decl.1 decl.2.loopRange) scope)[var]? =
          some upper.loopRange := by
    intro decls
    induction decls with
    | nil =>
      intro _ _ hmem
      cases hmem
    | cons decl rest ih =>
      intro scope hnodup hmem
      rw [List.map_cons, List.nodup_cons] at hnodup
      rw [List.foldl_cons]
      rcases List.mem_cons.1 hmem with rfl | hmem
      · -- no later declaration is of this variable
        rw [getElem?_foldl_loopRange rest _ hnodup.1]
        simp
      · exact ih _ hnodup.2 hmem
  exact hfold body.varRanges ∅ hdistinct hdecl

end Body

/-- **Loop variables run up to their upper bounds.** Each of a number of distinct variables starts
at zero, and its range reaches up to the value of the upper bound at least. If the operations of the
upper bound are faithful, or it is symbolic, then the range ends at that value, or at zero if this
is above it, and without a value the range has no upper end. -/
theorem loop_variable_range {body : Body} {var : Symbol} {upper : Expr}
    (hdistinct : (body.varRanges.map Prod.fst).Nodup) (hdecl : (var, upper) ∈ body.varRanges) :
    ∃ range, body.initialScope[var]? = some range ∧ range.low = 0 ∧
      (∀ U, upper.isConcrete → upper.value? = some U → .finite (max U 0) ≤ range.high) ∧
      ((upper.isConcrete → upper.isFaithful) →
        (∀ U, upper.isConcrete → upper.value? = some U →
          range = .between 0 (.finite (max U 0))) ∧
        (¬ upper.isConcrete ∨ upper.value? = none → range = .nonnegative)) := by
  refine ⟨upper.loopRange, Body.getElem?_initialScope_of_mem hdistinct hdecl,
    upper.loopRange_low, fun U => Expr.le_loopRange_high, fun hfaithful => ⟨?_, ?_⟩⟩
  · intro U hconcrete hU
    rw [Expr.loopRange_of_isFaithful hconcrete (hfaithful hconcrete), hU]
  · intro hother
    by_cases hconcrete : upper.isConcrete
    · rw [Expr.loopRange_of_isFaithful hconcrete (hfaithful hconcrete),
        hother.resolve_left (not_not_intro hconcrete)]
    · rw [Expr.loopRange, if_neg hconcrete]

/-- Upper bounds with a value, without one, and with a symbol. -/
def tiled : Body :=
  (Builder.afterAll [
    .varRange "i" (min (17 % 20) (9 / 2) * 3), .varRange "j" (3 - 1 / 0),
    .varRange "k" (.sym "n" * 0)]).body

theorem loop_variable_range_tiled :
    (tiled.varRanges.map Prod.fst).Nodup ∧
    (min (17 % 20) (9 / 2) * 3 : Expr).value? = some 12 ∧
    tiled.initialScope["i"]? = some (.between 0 (.finite 12)) ∧
    (3 - 1 / 0 : Expr).value? = none ∧ tiled.initialScope["j"]? = some .nonnegative ∧
    tiled.initialScope["k"]? = some .nonnegative := by
  have hdistinct : (tiled.varRanges.map Prod.fst).Nodup := by decide
  have hi : ("i", min (17 % 20) (9 / 2) * 3) ∈ tiled.varRanges := .head _
  have hj : ("j", 3 - 1 / 0) ∈ tiled.varRanges := .tail _ (.head _)
  have hk : ("k", .sym "n" * 0) ∈ tiled.varRanges := .tail _ (.tail _ (.head _))
  obtain ⟨i, hi, -, -, hvalue⟩ := loop_variable_range hdistinct hi
  obtain ⟨j, hj, -, -, hnone⟩ := loop_variable_range hdistinct hj
  obtain ⟨k, hk, -, -, hsymbol⟩ := loop_variable_range hdistinct hk
  rw [hi, hj, hk, (hvalue (by decide)).1 12 (by decide) (by decide),
    (hnone (by decide)).2 (by decide), (hsymbol (by decide)).2 (by decide)]
  exact ⟨hdistinct, by decide, rfl, by decide, rfl, rfl⟩

/-- Upper bounds whose range is not just their value. -/
def overestimated : Body :=
  (Builder.afterAll [.varRange "i0" (7 % 5), .varRange "i1" (min (1 / 0) 5)]).body

/-- The value `2` of the one upper bound is exceeded by the range, and the other one ends although
it has no value. -/
theorem upper_end_missed :
    overestimated.varRanges = [("i0", 7 % 5), ("i1", min (1 / 0) 5)] ∧
    (overestimated.varRanges.map Prod.fst).Nodup ∧
    (7 % 5 : Expr).isConcrete ∧ (7 % 5 : Expr).value? = some 2 ∧
    overestimated.initialScope["i0"]? = some (.between 0 (.finite 4)) ∧
    (min (1 / 0) 5 : Expr).isConcrete ∧ (min (1 / 0) 5 : Expr).value? = none ∧
    overestimated.initialScope["i1"]? = some (.between 0 (.finite 5)) := by
  refine ⟨rfl, by decide, by decide, by decide, by decide, by decide, by decide, by decide⟩

end LoopBounds
