/-
Operations take members of intervals to members of their ranges.

`Value.Admits` says which integers a resolved operand stands for. The main
statement, `valueRange_call_mem`, is about any call that the handler of the
analysis answers: whatever integers the operands stand for, the operation has an
exact result in the answered interval, unless it divides by zero. An operation
that the analysis does not understand may have any result.

`Expr.mem_range` is the same for index expressions, by induction on them, as far
as the symbols that occur are concerned. `Expr.value_mem_range` is its form for a
scope and an assignment that agree on the symbols they both know.
-/
import LoopBounds.Expr.Range
import LoopBounds.Handler
import LoopBounds.Proofs.Bounds
import LoopBounds.Proofs.Interval

namespace LoopBounds

/-! ### Arithmetic, comparisons and logic -/

theorem Arith.mem_range {op : Arith} {x y z : Int} {a b : Interval} (hx : x ∈ a) (hy : y ∈ b)
    (hz : op.eval x y = some z) : z ∈ op.range a b := by
  cases op with
  | add =>
    cases hz
    exact Interval.mem_add hx hy
  | sub =>
    cases hz
    exact Interval.mem_sub hx hy
  | mul =>
    cases hz
    exact Interval.mem_mul hx hy
  | floorDiv =>
    rw [Arith.eval] at hz
    split at hz
    · cases hz
    · cases hz
      exact Interval.mem_floorDiv hx hy
  | mod =>
    rw [Arith.eval] at hz
    split at hz
    · cases hz
    · cases hz
      exact Interval.mem_mod hx hy
  | min =>
    cases hz
    exact Interval.mem_minimum hx hy
  | max =>
    cases hz
    exact Interval.mem_maximum hx hy

theorem Unary.mem_range (op : Unary) {x : Int} {a : Interval} (hx : x ∈ a) :
    op.eval x ∈ op.range a := by
  cases op with
  | identity => exact hx
  | neg => exact Interval.mem_neg hx
  | abs => exact Interval.mem_abs hx
  | square => exact Interval.mem_square hx
  | not => exact Interval.mem_logicalNot hx

theorem Relation.mem_range (rel : Relation) {x y : Int} {a b : Interval} (hx : x ∈ a)
    (hy : y ∈ b) : (rel.holds x y).toInt ∈ rel.range a b := by
  cases rel with
  | lt => exact Interval.mem_lessThan hx hy
  | le => exact Interval.mem_atMost hx hy
  | gt => exact Interval.mem_lessThan hy hx
  | ge => exact Interval.mem_atMost hy hx
  | eq => exact Interval.mem_equal hx hy
  | ne => exact Interval.mem_notEqual hx hy

theorem Binary.mem_range {op : Binary} {x y z : Int} {a b : Interval} (hx : x ∈ a) (hy : y ∈ b)
    (hz : op.eval x y = some z) : z ∈ op.range a b := by
  cases op with
  | arith op => exact Arith.mem_range hx hy hz
  | compare rel =>
    cases hz
    exact rel.mem_range hx hy
  | and =>
    cases hz
    exact Interval.mem_logicalAnd hx hy
  | or =>
    cases hz
    exact Interval.mem_logicalOr hx hy

/-- The result of a binary operation is missing only for a zero divisor. -/
theorem Binary.eval_eq_none {op : Binary} {x y : Int} (h : op.eval x y = none) :
    (op = .arith .floorDiv ∨ op = .arith .mod) ∧ y = 0 := by
  cases op with
  | arith op =>
    cases op with
    | floorDiv => exact ⟨Or.inl rfl, by simpa [Binary.eval, Arith.eval] using h⟩
    | mod => exact ⟨Or.inr rfl, by simpa [Binary.eval, Arith.eval] using h⟩
    | add => cases h
    | sub => cases h
    | mul => cases h
    | min => cases h
    | max => cases h
  | compare rel => cases h
  | and => cases h
  | or => cases h

/-! ### Calls -/

/-- The integers that a resolved operand stands for; a name stands for no particular one. -/
def Value.Admits : Value → Int → Prop
  | .range interval, x => x ∈ interval
  | .int value, x => x = value
  | .name _, _ => True

namespace Operation

/-- The operation is a quotient or a remainder, and its divisor is zero. -/
def DividesByZero (op : Operation) (inputs : List Int) : Prop :=
  (op = .binary (.arith .floorDiv) ∨ op = .binary (.arith .mod)) ∧ inputs[1]? = some 0

theorem operand_eq_ok {name : String} {args : List Value} {position : Nat} {a : Interval}
    (h : operand name args position = .ok a) : args[position]? = some (.range a) := by
  unfold operand at h
  split at h
  · rename_i interval heq
    cases h
    exact heq
  · cases h

/-- The integer chosen for an operand that is an interval. -/
theorem exists_input {args : List Value} {inputs : List Int} {position : Nat} {a : Interval}
    (hargs : List.Forall₂ Value.Admits args inputs) (h : args[position]? = some (.range a)) :
    ∃ x, inputs[position]? = some x ∧ x ∈ a := by
  induction hargs generalizing position with
  | nil => simp at h
  | cons hhead _ ih =>
    cases position with
    | zero =>
      rw [List.getElem?_cons_zero, Option.some_inj] at h
      subst h
      exact ⟨_, List.getElem?_cons_zero, hhead⟩
    | succ position =>
      rw [List.getElem?_cons_succ] at h ⊢
      exact ih h

theorem exists_operand {name : String} {args : List Value} {inputs : List Int} {position : Nat}
    {a : Interval} (h : operand name args position = .ok a)
    (hargs : List.Forall₂ Value.Admits args inputs) :
    ∃ x, inputs[position]? = some x ∧ x ∈ a :=
  exists_input hargs (operand_eq_ok h)

theorem eval?_unary {op : Unary} {inputs : List Int} {x : Int} (hx : inputs[0]? = some x) :
    (unary op).eval? inputs = some (op.eval x) := by
  obtain ⟨rest, rfl⟩ : ∃ rest, inputs = x :: rest := by
    cases inputs with
    | nil => simp at hx
    | cons y rest => exact ⟨rest, by simpa using hx⟩
  rfl

theorem eval?_binary {op : Binary} {inputs : List Int} {x y : Int} (hx : inputs[0]? = some x)
    (hy : inputs[1]? = some y) : (binary op).eval? inputs = op.eval x y := by
  match inputs with
  | [] => simp at hx
  | [_] => simp at hy
  | x' :: y' :: rest =>
    cases hx
    cases hy
    rfl

theorem eval?_select {inputs : List Int} {c x y : Int} (hc : inputs[0]? = some c)
    (hx : inputs[1]? = some x) (hy : inputs[2]? = some y) :
    select.eval? inputs = some (if c = 0 then y else x) := by
  match inputs with
  | [] => simp at hc
  | [_] => simp at hx
  | [_, _] => simp at hy
  | c' :: x' :: y' :: rest =>
    cases hc
    cases hx
    cases hy
    rfl

/-- Where the range of an operation is answered, its exact result on any integers of the
operands exists and lies in there, a zero divisor apart. -/
theorem apply_mem {op : Operation} {name : String} {args : List Value} {inputs : List Int}
    {r : Interval} (h : op.apply name args = .ok r)
    (hargs : List.Forall₂ Value.Admits args inputs) :
    op.DividesByZero inputs ∨ ∃ v, op.eval? inputs = some v ∧ v ∈ r := by
  cases op with
  | constant =>
    right
    cases hargs with
    | nil => cases h
    | cons hhead _ =>
      rename_i value x _ _ _
      refine ⟨x, rfl, ?_⟩
      cases value with
      | range a =>
        cases h
        exact hhead
      | int n =>
        cases h
        exact Interval.mem_singleton.2 hhead
      | name s => cases h
  | unary f =>
    right
    obtain ⟨a, ha, hr⟩ := exists_of_bind_eq_ok h
    cases hr
    obtain ⟨x, hx, hmem⟩ := exists_operand ha hargs
    exact ⟨_, eval?_unary hx, f.mem_range hmem⟩
  | binary f =>
    obtain ⟨a, ha, h⟩ := exists_of_bind_eq_ok h
    obtain ⟨b, hb, hr⟩ := exists_of_bind_eq_ok h
    cases hr
    obtain ⟨x, hx, hxa⟩ := exists_operand ha hargs
    obtain ⟨y, hy, hyb⟩ := exists_operand hb hargs
    cases hv : f.eval x y with
    | none =>
      obtain ⟨hop, rfl⟩ := Binary.eval_eq_none hv
      exact Or.inl ⟨hop.imp (congrArg _) (congrArg _), hy⟩
    | some v => exact Or.inr ⟨v, (eval?_binary hx hy).trans hv, Binary.mem_range hxa hyb hv⟩
  | select =>
    right
    obtain ⟨a, ha, h⟩ := exists_of_bind_eq_ok h
    obtain ⟨b, hb, h⟩ := exists_of_bind_eq_ok h
    obtain ⟨d, hd, hr⟩ := exists_of_bind_eq_ok h
    cases hr
    obtain ⟨c, hc, hca⟩ := exists_operand ha hargs
    obtain ⟨x, hx, hxb⟩ := exists_operand hb hargs
    obtain ⟨y, hy, hyd⟩ := exists_operand hd hargs
    exact ⟨_, eval?_select hc hx hy, Interval.mem_select hca hxb hyd⟩

theorem eval?_of_dividesByZero {op : Operation} {inputs : List Int} (h : op.DividesByZero inputs) :
    op.eval? inputs = none := by
  obtain ⟨hop, hzero⟩ := h
  match inputs with
  | [] => cases hzero
  | [_] => cases hzero
  | _ :: y :: rest =>
    cases hzero
    rcases hop with rfl | rfl <;> rfl

end Operation

theorem Handler.valueRange_call_some {name : String} {op : Operation} (args : List Value)
    (h : Operation.ofName? name = some op) :
    Handler.valueRange.call name args = op.apply name args := by
  simp [Handler.valueRange, h]

theorem Handler.valueRange_call_none {name : String} (args : List Value)
    (h : Operation.ofName? name = none) : Handler.valueRange.call name args = .ok .unknown := by
  simp [Handler.valueRange, h]

/-- **Transfer functions are sound.** Whatever integers the operands of an answered call stand
for, the exact result of the operation is in the answer, and it exists but for a zero divisor;
an operation that is not understood is answered with all integers. -/
theorem valueRange_call_mem {name : String} {args : List Value} {inputs : List Int}
    {r : Interval} (hcall : Handler.valueRange.call name args = .ok r)
    (hargs : List.Forall₂ Value.Admits args inputs) :
    (∀ op, Operation.ofName? name = some op →
      op.DividesByZero inputs ∨ ∃ v, op.eval? inputs = some v ∧ v ∈ r) ∧
    (Operation.ofName? name = none → ∀ v, v ∈ r) := by
  constructor
  · intro op hop
    rw [Handler.valueRange_call_some args hop] at hcall
    exact Operation.apply_mem hcall hargs
  · intro hop v
    rw [Handler.valueRange_call_none args hop] at hcall
    cases hcall
    exact Interval.mem_unknown v

/-- A dividend without an upper end and a negative divisor. -/
theorem valueRange_call_mem_floordiv :
    Handler.valueRange.call "floordiv" [.range .nonnegative, .range (.singleton (-2))] =
      .ok (.between .negInf 0) ∧
    List.Forall₂ Value.Admits [.range .nonnegative, .range (.singleton (-2))] [5, -2] ∧
    ∃ v, (Operation.binary (.arith .floorDiv)).eval? [5, -2] = some v ∧
      v ∈ Interval.between .negInf 0 := by
  have hcall : Handler.valueRange.call "floordiv"
      [.range .nonnegative, .range (.singleton (-2))] = .ok (.between .negInf 0) := by decide
  have hargs : List.Forall₂ Value.Admits
      [.range .nonnegative, .range (.singleton (-2))] [5, -2] :=
    .cons (Interval.mem_nonnegative.2 (by decide)) (.cons (Interval.mem_singleton.2 rfl) .nil)
  refine ⟨hcall, hargs, ((valueRange_call_mem hcall hargs).1 _ rfl).resolve_left ?_⟩
  rintro ⟨-, hzero⟩
  cases hzero

/-! ### Index expressions -/

theorem Expr.mem_range {scope : Scope} {values : Symbol → Option Int} {e : Expr} {v : Int}
    (hsymbols : ∀ s ∈ e.occurrences, ∀ x, values s = some x → x ∈ scope.range s)
    (hv : e.eval? values = some v) : v ∈ e.range scope := by
  induction e generalizing v with
  | sym name => exact hsymbols name (List.mem_singleton.2 rfl) v hv
  | const n =>
    cases hv
    exact Interval.mem_singleton.2 rfl
  | neg e ih =>
    obtain ⟨x, hx, hxv⟩ := Option.bind_eq_some_iff.1 hv
    cases hxv
    exact Interval.mem_neg (ih hsymbols hx)
  | binary op a b iha ihb =>
    obtain ⟨x, hx, hv⟩ := Option.bind_eq_some_iff.1 hv
    obtain ⟨y, hy, hv⟩ := Option.bind_eq_some_iff.1 hv
    refine Arith.mem_range (iha ?_ hx) (ihb ?_ hy) hv
    · exact fun s hs => hsymbols s (List.mem_append_left _ hs)
    · exact fun s hs => hsymbols s (List.mem_append_right _ hs)
  | modIndex e d m ihe ihd ihm =>
    obtain ⟨x, hx, hv⟩ := Option.bind_eq_some_iff.1 hv
    obtain ⟨y, hy, hv⟩ := Option.bind_eq_some_iff.1 hv
    obtain ⟨q, hq, hv⟩ := Option.bind_eq_some_iff.1 hv
    obtain ⟨z, hz, hv⟩ := Option.bind_eq_some_iff.1 hv
    have hxe := ihe (fun s hs => hsymbols s (by simp [occurrences, hs])) hx
    have hyd := ihd (fun s hs => hsymbols s (by simp [occurrences, hs])) hy
    have hzm := ihm (fun s hs => hsymbols s (by simp [occurrences, hs])) hz
    have hquotient : q ∈ Arith.floorDiv.range (e.range scope) (d.range scope) :=
      Arith.mem_range hxe hyd hq
    have hremainder : v ∈ Arith.mod.range _ (m.range scope) := Arith.mem_range hquotient hzm hv
    exact hremainder

/-- **Ranges of index expressions are sound.** Where every symbol with a value and a range has the
value in the range, an expression that has a value has it in its range. -/
theorem Expr.value_mem_range {scope : Scope} {values : Symbol → Option Int} {e : Expr} {v : Int}
    (hagree : ∀ name x range, values name = some x → scope[name]? = some range → x ∈ range)
    (hv : e.eval? values = some v) : v ∈ e.range scope := by
  refine Expr.mem_range ?_ hv
  intro name _ x hx
  rw [Scope.range]
  cases hrange : scope[name]? with
  | none => exact Interval.mem_unknown x
  | some range => exact hagree name x range hx hrange

/-- The quotient is unknown, as `d` may be zero and `j` has no range; the remainder is not. -/
theorem Expr.value_mem_range_modIndex :
    let scope := ((∅ : Scope).insert "i" (.between 0 9)).insert "d" (.between 0 4)
    let values := fun name : Symbol =>
      if name = "i" then some 5 else if name = "j" then some (-30) else
      if name = "d" then some 4 else none
    let e : Expr := .modIndex (.sym "i" - .sym "j") (.sym "d") 8
    e.eval? values = some 0 ∧ e.range scope = .between 0 7 ∧ 0 ∈ e.range scope := by
  intro scope values e
  have hv : e.eval? values = some 0 := by decide
  refine ⟨hv, by decide, Expr.value_mem_range ?_ hv⟩
  intro name x range hx hrange
  by_cases hi : name = "i"
  · subst hi
    cases hx
    cases hrange
    decide
  · by_cases hd : name = "d"
    · subst hd
      cases hx
      cases hrange
      decide
    · simp [scope, Ne.symm hi, Ne.symm hd] at hrange

end LoopBounds
