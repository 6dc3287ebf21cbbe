/-
Operations are monotone in their operands.

`Monotone` treats the arithmetic of index expressions; here are the other
operations. A predicate that is decided for some operands is decided in the same
way for narrower ones (`truth?_of_le`), so it can only go from `boolean` to an
answer. For a choice this means that a narrower condition picks one of the
branches that were joined. Absolute values and squares are described by their
ends first, as their definitions switch between cases (`abs_low`, `abs_high`,
`square_ends`).

The main statement is about calls (`Handler.valueRange_call_le`);
`operations_monotone` is this and the same of index expressions.
-/
import LoopBounds.Proofs.Monotone
import LoopBounds.Proofs.Transfer

namespace LoopBounds

namespace Interval

variable {a b c d : Interval}

/-! ### Absolute values and squares -/

theorem abs_low (a : Interval) : a.abs.low = max 0 (max a.low (-a.high)) := by
  have hle := a.low_le_high
  unfold abs
  split
  · rename_i hlow
    have hneg : -a.high ≤ a.low := by
      refine Bound.le_trans (b := 0) ?_ hlow
      exact Bound.neg_le_neg.2 (Bound.le_trans hlow hle)
    exact Bound.le_antisymm (Bound.le_trans (Bound.le_max_left _ _) (Bound.le_max_right _ _))
      (Bound.max_le hlow (Bound.max_le (Bound.le_refl _) hneg))
  · rename_i hlow
    have hneg : a.low ≤ 0 := (Bound.le_total 0 a.low).resolve_left hlow
    split
    · rename_i hhigh
      have hpos : 0 ≤ -a.high := Bound.neg_le_neg.2 hhigh
      exact Bound.le_antisymm (Bound.le_trans (Bound.le_max_right _ _) (Bound.le_max_right _ _))
        (Bound.max_le hpos (Bound.max_le (Bound.le_trans hneg hpos) (Bound.le_refl _)))
    · rename_i hhigh
      have hpos : -a.high ≤ 0 := Bound.neg_le_neg.2 ((Bound.le_total a.high 0).resolve_left hhigh)
      exact Bound.le_antisymm (Bound.le_max_left _ _)
        (Bound.max_le (Bound.le_refl _) (Bound.max_le hneg hpos))

theorem abs_high (a : Interval) : a.abs.high = max (-a.low) a.high := by
  have hle := a.low_le_high
  unfold abs
  split
  · rename_i hlow
    have hneg : -a.low ≤ a.high :=
      Bound.le_trans (Bound.neg_le_neg.2 hlow) (Bound.le_trans hlow hle)
    exact Bound.le_antisymm (Bound.le_max_right _ _) (Bound.max_le hneg (Bound.le_refl _))
  · split
    · rename_i hhigh
      have hpos : a.high ≤ -a.low :=
        Bound.le_trans hhigh (Bound.neg_le_neg.2 (Bound.le_trans hle hhigh))
      exact Bound.le_antisymm (Bound.le_max_left _ _) (Bound.max_le (Bound.le_refl _) hpos)
    · rfl

theorem abs_le_abs (h : a ≤ b) : a.abs ≤ b.abs := by
  rw [le_def, abs_low, abs_low, abs_high, abs_high]
  constructor
  · exact Bound.max_le_max (Bound.le_refl _) (Bound.max_le_max h.1 (Bound.neg_le_neg.2 h.2))
  · exact Bound.max_le_max (Bound.neg_le_neg.2 h.1) h.2

/-- The square of an integer is not negative, so the products that are not are never none. -/
theorem square_ends (a : Interval) :
    a.square.low = max (a * a).low 0 ∧ a.square.high = (a * a).high := by
  obtain ⟨x, hx⟩ := a.exists_mem
  have hsquare : x * x ∈ nonnegative := by
    rw [mem_nonnegative, ← Int.natAbs_mul_self' x]
    exact Int.mul_nonneg (Int.natCast_nonneg _) (Int.natCast_nonneg _)
  obtain ⟨c, hc, -⟩ := exists_inter? (mem_mul hx hx) hsquare
  obtain ⟨hlow, hhigh⟩ := ofBounds?_eq_some_iff.1 hc
  rw [square, hc, Option.getD_some, hlow, hhigh]
  refine ⟨rfl, Bound.le_antisymm (Bound.min_le_left _ _) ?_⟩
  exact Bound.le_min (Bound.le_refl _) (Bound.le_posInf _)

theorem square_le_square (h : a ≤ b) : a.square ≤ b.square := by
  have hproduct := mul_le_mul h h
  rw [le_def, (square_ends a).1, (square_ends a).2, (square_ends b).1, (square_ends b).2]
  exact ⟨Bound.max_le_max hproduct.1 (Bound.le_refl _), hproduct.2⟩

/-! ### Comparisons -/

/-- A question with at most one of two answers gets the same answer or a definite one, if both of
them are still given where they were given before. -/
theorem decided_le {yes no yes' no' : Prop} [Decidable yes] [Decidable no] [Decidable yes']
    [Decidable no'] (hyes : yes' → yes) (hno : no' → no) (hone : yes → ¬ no) :
    (if yes then ofBool true else if no then ofBool false else boolean) ≤
      (if yes' then ofBool true else if no' then ofBool false else boolean) := by
  have hle (p : Bool) : ofBool p ≤ boolean := by
    cases p <;> decide
  by_cases h : yes'
  · rw [if_pos h, if_pos (hyes h)]
    exact Interval.le_refl _
  · by_cases h' : no'
    · rw [if_neg h, if_pos h', if_neg (fun hy => hone hy (hno h')), if_pos (hno h')]
      exact Interval.le_refl _
    · rw [if_neg h, if_neg h']
      split
      · exact hle true
      · split
        · exact hle false
        · exact Interval.le_refl _

theorem lessThan_le_lessThan (hac : a ≤ c) (hbd : b ≤ d) : a.lessThan b ≤ c.lessThan d := by
  refine decided_le ?_ ?_ ?_
  · intro hlt hle
    exact hlt (Bound.le_trans hbd.1 (Bound.le_trans hle hac.2))
  · intro hle
    exact Bound.le_trans hbd.2 (Bound.le_trans hle hac.1)
  · intro hlt hle
    exact hlt (Bound.le_trans b.low_le_high (Bound.le_trans hle a.low_le_high))

theorem atMost_le_atMost (hac : a ≤ c) (hbd : b ≤ d) : a.atMost b ≤ c.atMost d := by
  refine decided_le ?_ ?_ ?_
  · intro hle
    exact Bound.le_trans hac.2 (Bound.le_trans hle hbd.1)
  · intro hlt hle
    exact hlt (Bound.le_trans hac.1 (Bound.le_trans hle hbd.2))
  · intro hle hlt
    exact hlt (Bound.le_trans a.low_le_high (Bound.le_trans hle b.low_le_high))

/-- Nothing else lies within a singleton. -/
theorem eq_of_le_singleton (h : a ≤ b) (hsingle : b.isSingleton) : a = b := by
  simp only [isSingleton, Bool.and_eq_true, decide_eq_true_eq] at hsingle
  have hlow : a.low ≤ b.low := by
    rw [hsingle.2]
    exact Bound.le_trans a.low_le_high h.2
  have hhigh : b.high ≤ a.high := by
    rw [← hsingle.2]
    exact Bound.le_trans h.1 a.low_le_high
  exact Interval.ext (Bound.le_antisymm hlow h.1) (Bound.le_antisymm h.2 hhigh)

/-- Parts of disjoint intervals are disjoint. -/
theorem inter?_eq_none_of_le (hac : a ≤ c) (hbd : b ≤ d) (h : c.inter? d = none) :
    a.inter? b = none := by
  cases hinter : a.inter? b with
  | none => rfl
  | some e =>
    obtain ⟨x, hx⟩ := e.exists_mem
    obtain ⟨hxa, hxb⟩ := mem_of_inter? hinter hx
    obtain ⟨f, hf, -⟩ := exists_inter? (mem_of_le hac hxa) (mem_of_le hbd hxb)
    rw [h] at hf
    cases hf

theorem equal_le_equal (hac : a ≤ c) (hbd : b ≤ d) : a.equal b ≤ c.equal d := by
  refine decided_le ?_ (inter?_eq_none_of_le hac hbd) ?_
  · rintro ⟨hsingle, rfl⟩
    obtain rfl := eq_of_le_singleton hac hsingle
    exact ⟨hsingle, (eq_of_le_singleton hbd hsingle).symm⟩
  · rintro ⟨-, rfl⟩ hnone
    rw [inter?_of_le (Interval.le_refl a)] at hnone
    cases hnone

/-! ### Logic -/

/-- A truth value is that of every part. -/
theorem truth?_of_le {value : Bool} (h : a ≤ b) (hb : b.truth? = some value) :
    a.truth? = some value := by
  unfold truth? at hb
  split at hb
  · rename_i hzero
    cases hb
    rw [truth?, if_pos (fun h0 => hzero (mem_of_le h h0))]
  · rename_i hzero
    split at hb
    · rename_i hsingle
      cases hb
      rw [eq_of_le_singleton h hsingle, truth?, if_neg hzero, if_pos hsingle]
    · cases hb

theorem logicalNot_eq (a : Interval) : a.logicalNot =
    if a.truth? = some false then ofBool true
    else if a.truth? = some true then ofBool false else boolean := by
  unfold logicalNot
  rcases a.truth? with _ | _ | _ <;> rfl

theorem logicalAnd_eq (a b : Interval) : a.logicalAnd b =
    if a.truth? = some true ∧ b.truth? = some true then ofBool true
    else if a.truth? = some false ∨ b.truth? = some false then ofBool false else boolean := by
  unfold logicalAnd
  rcases a.truth? with _ | _ | _ <;> rcases b.truth? with _ | _ | _ <;> rfl

theorem logicalOr_eq (a b : Interval) : a.logicalOr b =
    if a.truth? = some true ∨ b.truth? = some true then ofBool true
    else if a.truth? = some false ∧ b.truth? = some false then ofBool false else boolean := by
  unfold logicalOr
  rcases a.truth? with _ | _ | _ <;> rcases b.truth? with _ | _ | _ <;> rfl

theorem logicalNot_le_logicalNot (h : a ≤ b) : a.logicalNot ≤ b.logicalNot := by
  rw [logicalNot_eq, logicalNot_eq]
  refine decided_le (truth?_of_le h) (truth?_of_le h) ?_
  intro hfalse htrue
  rw [hfalse] at htrue
  cases htrue

theorem notEqual_le_notEqual (hac : a ≤ c) (hbd : b ≤ d) : a.notEqual b ≤ c.notEqual d :=
  logicalNot_le_logicalNot (equal_le_equal hac hbd)

theorem logicalAnd_le_logicalAnd (hac : a ≤ c) (hbd : b ≤ d) :
    a.logicalAnd b ≤ c.logicalAnd d := by
  rw [logicalAnd_eq, logicalAnd_eq]
  refine decided_le (And.imp (truth?_of_le hac) (truth?_of_le hbd))
    (Or.imp (truth?_of_le hac) (truth?_of_le hbd)) ?_
  rintro ⟨ha, hb⟩ (hfalse | hfalse)
  · rw [ha] at hfalse
    cases hfalse
  · rw [hb] at hfalse
    cases hfalse

theorem logicalOr_le_logicalOr (hac : a ≤ c) (hbd : b ≤ d) : a.logicalOr b ≤ c.logicalOr d := by
  rw [logicalOr_eq, logicalOr_eq]
  refine decided_le (Or.imp (truth?_of_le hac) (truth?_of_le hbd))
    (And.imp (truth?_of_le hac) (truth?_of_le hbd)) ?_
  rintro (htrue | htrue) ⟨ha, hb⟩
  · rw [ha] at htrue
    cases htrue
  · rw [hb] at htrue
    cases htrue

theorem le_join_left (a b : Interval) : a ≤ a.join b :=
  ⟨Bound.min_le_left _ _, Bound.le_max_left _ _⟩

theorem le_join_right (a b : Interval) : b ≤ a.join b :=
  ⟨Bound.min_le_right _ _, Bound.le_max_right _ _⟩

theorem join_le_join (hac : a ≤ c) (hbd : b ≤ d) : a.join b ≤ c.join d :=
  ⟨Bound.min_le_min hac.1 hbd.1, Bound.max_le_max hac.2 hbd.2⟩

/-- A choice of a decided condition is a branch, and of an open one lies between the branches. -/
theorem select_le_join (a yes no : Interval) : a.select yes no ≤ yes.join no := by
  unfold select
  split
  · exact le_join_left yes no
  · exact le_join_right yes no
  · exact Interval.le_refl _

theorem select_le_select {yes yes' no no' : Interval} (h : a ≤ b) (hyes : yes ≤ yes')
    (hno : no ≤ no') : a.select yes no ≤ b.select yes' no' := by
  cases hb : b.truth? with
  | some value =>
    have ha := truth?_of_le h hb
    cases value with
    | true =>
      simp only [select, ha, hb]
      exact hyes
    | false =>
      simp only [select, ha, hb]
      exact hno
  | none =>
    have hwide : b.select yes' no' = yes'.join no' := by simp only [select, hb]
    rw [hwide]
    exact Interval.le_trans (select_le_join a yes no) (join_le_join hyes hno)

end Interval

/-! ### Calls -/

theorem Unary.range_le_range (op : Unary) {a b : Interval} (h : a ≤ b) :
    op.range a ≤ op.range b := by
  cases op with
  | identity => exact h
  | neg => exact Interval.neg_le_neg h
  | abs => exact Interval.abs_le_abs h
  | square => exact Interval.square_le_square h
  | not => exact Interval.logicalNot_le_logicalNot h

theorem Relation.range_le_range (rel : Relation) {a b c d : Interval} (hac : a ≤ c)
    (hbd : b ≤ d) : rel.range a b ≤ rel.range c d := by
  cases rel with
  | lt => exact Interval.lessThan_le_lessThan hac hbd
  | le => exact Interval.atMost_le_atMost hac hbd
  | gt => exact Interval.lessThan_le_lessThan hbd hac
  | ge => exact Interval.atMost_le_atMost hbd hac
  | eq => exact Interval.equal_le_equal hac hbd
  | ne => exact Interval.notEqual_le_notEqual hac hbd

theorem Binary.range_le_range (op : Binary) {a b c d : Interval} (hac : a ≤ c) (hbd : b ≤ d) :
    op.range a b ≤ op.range c d := by
  cases op with
  | arith op => exact op.range_le_range hac hbd
  | compare rel => exact rel.range_le_range hac hbd
  | and => exact Interval.logicalAnd_le_logicalAnd hac hbd
  | or => exact Interval.logicalOr_le_logicalOr hac hbd

/-- The values are alike, and where they are intervals the first lies within the second. -/
inductive Value.Narrows : Value → Value → Prop where
  | range {a b : Interval} : a ≤ b → Narrows (.range a) (.range b)
  | name {text : String} : Narrows (.name text) (.name text)
  | int {value : Int} : Narrows (.int value) (.int value)

namespace Operation

variable {name : String} {narrow wide : List Value}

theorem operand_le {position : Nat} {a b : Interval} (h : List.Forall₂ Value.Narrows narrow wide)
    (ha : operand name narrow position = .ok a) (hb : operand name wide position = .ok b) :
    a ≤ b := by
  have hnarrow := operand_eq_ok ha
  have hwide := operand_eq_ok hb
  clear ha hb
  induction h generalizing position with
  | nil => cases hnarrow
  | cons hhead _ ih =>
    cases position with
    | zero =>
      cases hnarrow
      cases hwide
      cases hhead with
      | range hle => exact hle
    | succ position => exact ih hnarrow hwide

theorem apply_le {op : Operation} {r s : Interval}
    (h : List.Forall₂ Value.Narrows narrow wide) (hr : op.apply name narrow = .ok r)
    (hs : op.apply name wide = .ok s) : r ≤ s := by
  cases op with
  | constant =>
    cases h with
    | nil => cases hr
    | cons hhead _ =>
      cases hhead with
      | range hle =>
        cases hr
        cases hs
        exact hle
      | name => cases hr
      | int =>
        cases hr
        cases hs
        exact Interval.le_refl _
  | unary f =>
    obtain ⟨a, ha, hr⟩ := exists_of_bind_eq_ok hr
    obtain ⟨b, hb, hs⟩ := exists_of_bind_eq_ok hs
    cases hr
    cases hs
    exact f.range_le_range (operand_le h ha hb)
  | binary f =>
    obtain ⟨a, ha, hr⟩ := exists_of_bind_eq_ok hr
    obtain ⟨b, hb, hr⟩ := exists_of_bind_eq_ok hr
    obtain ⟨c, hc, hs⟩ := exists_of_bind_eq_ok hs
    obtain ⟨d, hd, hs⟩ := exists_of_bind_eq_ok hs
    cases hr
    cases hs
    exact f.range_le_range (operand_le h ha hc) (operand_le h hb hd)
  | select =>
    obtain ⟨a, ha, hr⟩ := exists_of_bind_eq_ok hr
    obtain ⟨yes, hyes, hr⟩ := exists_of_bind_eq_ok hr
    obtain ⟨no, hno, hr⟩ := exists_of_bind_eq_ok hr
    obtain ⟨b, hb, hs⟩ := exists_of_bind_eq_ok hs
    obtain ⟨yes', hyes', hs⟩ := exists_of_bind_eq_ok hs
    obtain ⟨no', hno', hs⟩ := exists_of_bind_eq_ok hs
    cases hr
    cases hs
    exact Interval.select_le_select (operand_le h ha hb) (operand_le h hyes hyes')
      (operand_le h hno hno')

end Operation

/-- A call on narrower values has a narrower answer. -/
theorem Handler.valueRange_call_le {name : String} {narrow wide : List Value} {r s : Interval}
    (h : List.Forall₂ Value.Narrows narrow wide) (hr : valueRange.call name narrow = .ok r)
    (hs : valueRange.call name wide = .ok s) : r ≤ s := by
  cases hop : Operation.ofName? name with
  | some op =>
    rw [valueRange_call_some _ hop] at hr hs
    exact Operation.apply_le h hr hs
  | none =>
    rw [valueRange_call_none _ hop] at hs
    cases hs
    exact Interval.le_unknown r

/-- **Ranges are monotone.** Two calls on alike values, the first ones narrower, have answers of
which the first lies within the second if both are answered; and an expression has a narrower range
in a narrower scope. -/
theorem operations_monotone :
    (∀ (name : String) (narrow wide : List Value) (r s : Interval),
      List.Forall₂ Value.Narrows narrow wide → Handler.valueRange.call name narrow = .ok r →
        Handler.valueRange.call name wide = .ok s → r ≤ s) ∧
    (∀ (e : Expr) (scope other : Scope), scope.Narrows other → e.range scope ≤ e.range other) :=
  ⟨fun _ _ _ _ _ h hr hs => Handler.valueRange_call_le h hr hs,
    fun e _ _ h => Expr.range_le_range h e⟩

/-- The narrower dividend is its own remainder, and the wider divisor may be zero. -/
theorem operations_monotone_switching :
    let narrow : List Value := [.range (.between 3 5), .range (.between 8 9)]
    let wide : List Value := [.range (.between 0 20), .range (.between 6 9)]
    let scope : Scope := (∅ : Scope).insert "d" (.between 2 3)
    let other : Scope := (∅ : Scope).insert "d" (.between 0 4)
    List.Forall₂ Value.Narrows narrow wide ∧
      Handler.valueRange.call "mod" narrow = .ok (.between 3 5) ∧
      Handler.valueRange.call "mod" wide = .ok (.between 0 8) ∧
      Interval.between 3 5 ≤ Interval.between 0 8 ∧
    scope.Narrows other ∧ (12 / .sym "d" : Expr).range scope = .between 4 6 ∧
      (12 / .sym "d" : Expr).range other = .unknown ∧
      (12 / .sym "d" : Expr).range scope ≤ (12 / .sym "d" : Expr).range other := by
  intro narrow wide scope other
  have hvalues : List.Forall₂ Value.Narrows narrow wide :=
    .cons (.range (by decide)) (.cons (.range (by decide)) .nil)
  have hnarrow : Handler.valueRange.call "mod" narrow = .ok (.between 3 5) := by decide
  have hwide : Handler.valueRange.call "mod" wide = .ok (.between 0 8) := by decide
  have hscope : scope.Narrows other := by
    intro name
    by_cases hd : name = "d"
    · subst hd
      decide
    · simp [scope, other, Scope.range, Ne.symm hd, Interval.le_refl]
  exact ⟨hvalues, hnarrow, hwide, operations_monotone.1 _ _ _ _ _ hvalues hnarrow hwide, hscope,
    by decide, by decide, operations_monotone.2 _ _ _ hscope⟩

end LoopBounds
