/-
Arithmetic on ends, with nothing known about them.

An `Interval` cannot be built without a proof that its ends are in order, so an
analysis has no invalid intervals to begin with. This module takes the proofs
away. `Ends` are two bounds, whatever they are, and the operations on them follow
those on intervals end by end. They fail (`Fault`) where ends are handed to the
checked constructor or to a hull and no interval has them, and where an end is
divided by zero; nowhere is there all integers to fall back to.

On the ends of intervals nothing fails, and the result is the ends of the
operation on intervals: for products and quotients because an integer lies
between their corners (`mul_ends`, `floorDiv_ends`), and for quotients and
remainders because the divisor has a fixed sign, so that neither of its ends is
zero (`floorDiv_ends`, `mod_ends`). So this holds of every operation
(`Operation.ends_eq`), of index expressions, by recursion (`Expr.ends_eq`), and of
the ranges of loop variables (`Expr.loopEnds_eq`). `analysis_never_misuses` puts
these together with the intervals that an analysis leaves.
-/
import LoopBounds.Analysis.Engine
import LoopBounds.Proofs.Monotone

namespace LoopBounds

/-- What arithmetic on ends can fail with: ends that no interval has, or a division by zero. -/
inductive Fault where
  | misuse (misuse : Misuse)
  | zeroDivisor
deriving DecidableEq, Repr

/-- Two bounds that need not be the ends of an interval. -/
structure Ends where
  low : Bound
  high : Bound
deriving DecidableEq, Repr

/-- What is asked of the ends of an interval. -/
structure Ends.Valid (ends : Ends) : Prop where
  low_le_high : ends.low ≤ ends.high
  low_ne_posInf : ends.low ≠ .posInf
  high_ne_negInf : ends.high ≠ .negInf

namespace Interval

/-- The ends alone. -/
def ends (a : Interval) : Ends where
  low := a.low
  high := a.high

theorem valid_ends (a : Interval) : a.ends.Valid where
  low_le_high := a.low_le_high
  low_ne_posInf := a.low_ne_posInf
  high_ne_negInf := a.high_ne_negInf

theorem ends_inj {a b : Interval} : a.ends = b.ends ↔ a = b := by
  rw [ends, ends, Ends.mk.injEq]
  exact ⟨fun h => Interval.ext h.1 h.2, fun h => by rw [h]; exact ⟨rfl, rfl⟩⟩

end Interval

/-! ### Operations

Each does with two bounds what the operation of the same name does with an
interval. Sums and the like put new ends together and look at nothing. -/

namespace Ends

/-- The integer lies between the ends. -/
def Contains (a : Ends) (n : Int) : Prop :=
  a.low ≤ .finite n ∧ .finite n ≤ a.high

instance (a : Ends) (n : Int) : Decidable (a.Contains n) :=
  inferInstanceAs (Decidable (_ ∧ _))

/-- These ends, if an interval has them; else a misuse. -/
def checked (low high : Bound) : Except Fault Ends :=
  ((Interval.ofBounds low high).map Interval.ends).mapError .misuse

/-- The ends around some bounds; a misuse if they are those of no interval. -/
def hull (corner : Bound) (corners : List Bound) : Except Fault Ends :=
  checked (corners.foldl min corner) (corners.foldl max corner)

/-- The ends of the common part; none if there is none. -/
def inter? (a b : Ends) : Option Ends :=
  (Interval.ofBounds? (max a.low b.low) (min a.high b.high)).map Interval.ends

def join (a b : Ends) : Ends where
  low := min a.low b.low
  high := max a.high b.high

def add (a b : Ends) : Ends where
  low := a.low + b.low
  high := a.high + b.high

def neg (a : Ends) : Ends where
  low := -a.high
  high := -a.low

def sub (a b : Ends) : Ends where
  low := a.low - b.high
  high := a.high - b.low

def mul (a b : Ends) : Except Fault Ends :=
  hull (a.low * b.low) [a.low * b.high, a.high * b.low, a.high * b.high]

def square (a : Ends) : Except Fault Ends := do
  let product ← a.mul a
  return (product.inter? ⟨0, .posInf⟩).getD product

def abs (a : Ends) : Ends :=
  if 0 ≤ a.low then a
  else if a.high ≤ 0 then a.neg
  else ⟨0, max (-a.low) a.high⟩

/-- An end divided by an integer, which must not be zero. -/
def quotient (bound : Bound) (d : Int) : Except Fault Bound :=
  if d = 0 then .error .zeroDivisor else .ok (bound.floorDiv d)

/-- The ends around the quotients by two integers. -/
def quotients (a : Ends) (p q : Int) : Except Fault Ends := do
  hull (← quotient a.low p) [← quotient a.low q, ← quotient a.high p, ← quotient a.high q]

def floorDiv (a d : Ends) : Except Fault Ends :=
  match d.low, d.high with
  | .finite p, .finite q =>
    if d.Contains 0 then .ok ⟨.negInf, .posInf⟩
    else a.quotients p q
  | _, _ => .ok ⟨.negInf, .posInf⟩

def mod (a d : Ends) : Except Fault Ends :=
  match d.low, d.high with
  | .finite p, .finite q =>
    if 0 < p then
      if 0 ≤ a.low ∧ a.high < .finite p then .ok a else checked 0 (.finite (q - 1))
    else if q < 0 then
      if a.high ≤ 0 ∧ .finite q < a.low then .ok a else checked (.finite (p + 1)) 0
    else .ok ⟨.negInf, .posInf⟩
  | _, _ => .ok ⟨.negInf, .posInf⟩

def minimum (a b : Ends) : Ends where
  low := min a.low b.low
  high := min a.high b.high

def maximum (a b : Ends) : Ends where
  low := max a.low b.low
  high := max a.high b.high

/-- The ends of a truth value. Those of an open one are checked. -/
def ofBool? : Option Bool → Except Fault Ends
  | some value => .ok ⟨.finite value.toInt, .finite value.toInt⟩
  | none => checked 0 1

def lessThan (a b : Ends) : Except Fault Ends :=
  ofBool? (if a.high < b.low then some true else if b.high ≤ a.low then some false else none)

def atMost (a b : Ends) : Except Fault Ends :=
  ofBool? (if a.high ≤ b.low then some true else if b.high < a.low then some false else none)

def isSingleton (a : Ends) : Bool :=
  a.low.isFinite && a.low = a.high

def equal (a b : Ends) : Except Fault Ends :=
  ofBool? (if a.isSingleton ∧ a = b then some true
    else if a.inter? b = none then some false
    else none)

def truth? (a : Ends) : Option Bool :=
  if ¬ a.Contains 0 then some true
  else if a.isSingleton then some false
  else none

def logicalNot (a : Ends) : Except Fault Ends :=
  ofBool? (a.truth?.map not)

def logicalAnd (a b : Ends) : Except Fault Ends :=
  ofBool? (match a.truth?, b.truth? with
    | some false, _ => some false
    | _, some false => some false
    | some true, some true => some true
    | _, _ => none)

def logicalOr (a b : Ends) : Except Fault Ends :=
  ofBool? (match a.truth?, b.truth? with
    | some true, _ => some true
    | _, some true => some true
    | some false, some false => some false
    | _, _ => none)

def select (condition yes no : Ends) : Ends :=
  match condition.truth? with
  | some true => yes
  | some false => no
  | none => yes.join no

/-! ### Ends of intervals -/

theorem checked_ends {x : Int} {low high : Bound} (hlow : low ≤ .finite x)
    (hhigh : .finite x ≤ high) : checked low high = .ok (Interval.between low high).ends := by
  obtain ⟨a, ha, -⟩ := Interval.exists_ofBounds? hlow hhigh
  rw [checked, Interval.ofBounds, Interval.between, ha]
  rfl

/-- A hull with an integer between its corners is no misuse. -/
theorem hull_ends {x : Int} {p q corner : Bound} {corners : List Bound}
    (hp : p ∈ corner :: corners) (hq : q ∈ corner :: corners) (hpx : p ≤ .finite x)
    (hxq : .finite x ≤ q) : hull corner corners = .ok (Interval.hull corner corners).ends :=
  checked_ends (Bound.le_trans (Bound.foldl_min_le hp) hpx)
    (Bound.le_trans hxq (Bound.le_foldl_max hq))

theorem inter?_ends (a b : Interval) : a.ends.inter? b.ends = (a.inter? b).map Interval.ends :=
  rfl

theorem mul_ends (a b : Interval) : a.ends.mul b.ends = .ok (a * b).ends := by
  obtain ⟨x, hx⟩ := a.exists_mem
  obtain ⟨y, hy⟩ := b.exists_mem
  obtain ⟨p, hp, hpx⟩ := Interval.mul_corner_le hx hy
  obtain ⟨q, hq, hxq⟩ := Interval.le_mul_corner hx hy
  exact hull_ends hp hq hpx hxq

theorem square_ends (a : Interval) : a.ends.square = .ok a.square.ends := by
  have hinter : (a * a).ends.inter? ⟨0, .posInf⟩ =
      ((a * a).inter? .nonnegative).map Interval.ends := rfl
  rw [square, mul_ends]
  show Except.ok (((a * a).ends.inter? ⟨0, .posInf⟩).getD (a * a).ends) = _
  rw [hinter, Option.getD_map]
  rfl

theorem abs_ends (a : Interval) : a.ends.abs = a.abs.ends := by
  unfold abs Interval.abs
  by_cases hlow : 0 ≤ a.low
  · rw [if_pos hlow, if_pos (show 0 ≤ a.ends.low from hlow)]
  · rw [if_neg hlow, if_neg (show ¬ 0 ≤ a.ends.low from hlow)]
    by_cases hhigh : a.high ≤ 0
    · rw [dif_pos hhigh, if_pos (show a.ends.high ≤ 0 from hhigh)]
      rfl
    · rw [dif_neg hhigh, if_neg (show ¬ a.ends.high ≤ 0 from hhigh)]
      rfl

theorem quotient_eq (bound : Bound) {d : Int} (hd : d ≠ 0) :
    quotient bound d = .ok (bound.floorDiv d) :=
  if_neg hd

theorem quotients_eq (a : Ends) {p q : Int} (hp : p ≠ 0) (hq : q ≠ 0) : a.quotients p q =
    hull (a.low.floorDiv p) [a.low.floorDiv q, a.high.floorDiv p, a.high.floorDiv q] := by
  rw [quotients, quotient_eq a.low hp, quotient_eq a.low hq, quotient_eq a.high hp,
    quotient_eq a.high hq]
  rfl

theorem floorDiv_ends (a d : Interval) : a.ends.floorDiv d.ends = .ok (a.floorDiv d).ends := by
  unfold Interval.floorDiv
  split
  · rename_i p q hlow hhigh
    have hraw : a.ends.floorDiv d.ends = if d.ends.Contains 0 then .ok Interval.unknown.ends
        else a.ends.quotients p q := by
      have hlow' : d.ends.low = .finite p := hlow
      have hhigh' : d.ends.high = .finite q := hhigh
      simp only [floorDiv, hlow', hhigh']
      rfl
    rw [hraw]
    split
    · rename_i hzero
      rw [if_pos (show (0 : Int) ∈ d from hzero)]
    · rename_i hzero
      rw [if_neg (show (0 : Int) ∉ d from hzero)]
      obtain ⟨x, hx⟩ := a.exists_mem
      have hsign := Interval.sign_of_zero_not_mem hlow hhigh hzero
      have hpq : p ≤ q := Interval.finite_low_le_high hlow hhigh
      rw [quotients_eq a.ends (show p ≠ 0 by omega) (show q ≠ 0 by omega)]
      obtain ⟨l, hl, hlx⟩ := Interval.floorDiv_corner_le hx (Int.le_refl p) hpq hsign
      obtain ⟨r, hr, hxr⟩ := Interval.le_floorDiv_corner hx (Int.le_refl p) hpq hsign
      exact hull_ends hl hr hlx hxr
  · rename_i hends
    unfold floorDiv
    split
    · rename_i p q hlow hhigh
      exact absurd hhigh (hends p q hlow)
    · rfl

/-- With ends that are out of order, zero can be an end of a divisor that does not contain it. -/
example : floorDiv ⟨0, 5⟩ ⟨1, 0⟩ = .error .zeroDivisor := rfl

theorem mod_ends (a d : Interval) : a.ends.mod d.ends = .ok (a.mod d).ends := by
  unfold Interval.mod
  split
  · rename_i p q hlow hhigh
    have hraw : a.ends.mod d.ends =
        if 0 < p then
          if 0 ≤ a.low ∧ a.high < .finite p then .ok a.ends else checked 0 (.finite (q - 1))
        else if q < 0 then
          if a.high ≤ 0 ∧ .finite q < a.low then .ok a.ends else checked (.finite (p + 1)) 0
        else .ok Interval.unknown.ends := by
      simp only [mod, Interval.ends, hlow, hhigh]
      rfl
    have hpq : p ≤ q := Interval.finite_low_le_high hlow hhigh
    rw [hraw]
    split
    · split
      · rfl
      · exact checked_ends (x := 0) (Bound.le_refl _) (Bound.finite_le_finite.2 (by omega))
    · split
      · split
        · rfl
        · exact checked_ends (x := 0) (Bound.finite_le_finite.2 (by omega)) (Bound.le_refl _)
      · rfl
  · rename_i hends
    unfold mod
    split
    · rename_i p q hlow hhigh
      exact absurd hhigh (hends p q hlow)
    · rfl

/-- On ends that are out of order a remainder is a misuse. -/
example : mod ⟨0, 5⟩ ⟨2, 0⟩ = .error (.misuse .invalidBounds) := rfl

theorem decided_ends (yes no : Prop) [Decidable yes] [Decidable no] :
    ofBool? (if yes then some true else if no then some false else none) =
      .ok (if yes then Interval.ofBool true else if no then .ofBool false else .boolean).ends := by
  split
  · rfl
  · split <;> rfl

theorem lessThan_ends (a b : Interval) : a.ends.lessThan b.ends = .ok (a.lessThan b).ends :=
  decided_ends (a.high < b.low) (b.high ≤ a.low)

theorem atMost_ends (a b : Interval) : a.ends.atMost b.ends = .ok (a.atMost b).ends :=
  decided_ends (a.high ≤ b.low) (b.high < a.low)

theorem equal_ends (a b : Interval) : a.ends.equal b.ends = .ok (a.equal b).ends := by
  have hyes : (a.ends.isSingleton ∧ a.ends = b.ends) ↔ (a.isSingleton ∧ a = b) :=
    and_congr Iff.rfl Interval.ends_inj
  have hno : a.ends.inter? b.ends = none ↔ a.inter? b = none := by
    rw [inter?_ends, Option.map_eq_none_iff]
  simp only [equal, Interval.equal, hyes, hno]
  exact decided_ends _ _

theorem logicalNot_ends (a : Interval) : a.ends.logicalNot = .ok a.logicalNot.ends := by
  show ofBool? (a.truth?.map not) = _
  unfold Interval.logicalNot
  cases a.truth? <;> rfl

theorem logicalAnd_ends (a b : Interval) :
    a.ends.logicalAnd b.ends = .ok (a.logicalAnd b).ends := by
  have ha : a.ends.truth? = a.truth? := rfl
  have hb : b.ends.truth? = b.truth? := rfl
  rw [logicalAnd, Interval.logicalAnd, ha, hb]
  rcases a.truth? with _ | _ | _ <;> rcases b.truth? with _ | _ | _ <;> rfl

theorem logicalOr_ends (a b : Interval) :
    a.ends.logicalOr b.ends = .ok (a.logicalOr b).ends := by
  have ha : a.ends.truth? = a.truth? := rfl
  have hb : b.ends.truth? = b.truth? := rfl
  rw [logicalOr, Interval.logicalOr, ha, hb]
  rcases a.truth? with _ | _ | _ <;> rcases b.truth? with _ | _ | _ <;> rfl

theorem select_ends (a yes no : Interval) :
    a.ends.select yes.ends no.ends = (a.select yes no).ends := by
  have ha : a.ends.truth? = a.truth? := rfl
  rw [select, Interval.select, ha]
  rcases a.truth? with _ | _ | _ <;> rfl

end Ends

/-! ### Calls and expressions -/

/-- The ends that the operation computes. -/
def Unary.ends : Unary → Ends → Except Fault Ends
  | .identity, a => .ok a
  | .neg, a => .ok a.neg
  | .abs, a => .ok a.abs
  | .square, a => a.square
  | .not, a => a.logicalNot

theorem Unary.ends_eq (op : Unary) (a : Interval) : op.ends a.ends = .ok (op.range a).ends := by
  cases op with
  | identity => rfl
  | neg => rfl
  | abs => exact congrArg Except.ok (Ends.abs_ends a)
  | square => exact Ends.square_ends a
  | not => exact Ends.logicalNot_ends a

/-- The ends that the operation computes. -/
def Arith.ends : Arith → Ends → Ends → Except Fault Ends
  | .add, a, b => .ok (a.add b)
  | .sub, a, b => .ok (a.sub b)
  | .mul, a, b => a.mul b
  | .floorDiv, a, b => a.floorDiv b
  | .mod, a, b => a.mod b
  | .min, a, b => .ok (a.minimum b)
  | .max, a, b => .ok (a.maximum b)

theorem Arith.ends_eq (op : Arith) (a b : Interval) :
    op.ends a.ends b.ends = .ok (op.range a b).ends := by
  cases op with
  | add => rfl
  | sub => rfl
  | mul => exact Ends.mul_ends a b
  | floorDiv => exact Ends.floorDiv_ends a b
  | mod => exact Ends.mod_ends a b
  | min => rfl
  | max => rfl

/-- The ends that the comparison computes. -/
def Relation.ends : Relation → Ends → Ends → Except Fault Ends
  | .lt, a, b => a.lessThan b
  | .le, a, b => a.atMost b
  | .gt, a, b => b.lessThan a
  | .ge, a, b => b.atMost a
  | .eq, a, b => a.equal b
  | .ne, a, b => a.equal b >>= Ends.logicalNot

theorem Relation.ends_eq (rel : Relation) (a b : Interval) :
    rel.ends a.ends b.ends = .ok (rel.range a b).ends := by
  cases rel with
  | lt => exact Ends.lessThan_ends a b
  | le => exact Ends.atMost_ends a b
  | gt => exact Ends.lessThan_ends b a
  | ge => exact Ends.atMost_ends b a
  | eq => exact Ends.equal_ends a b
  | ne =>
    rw [ends, Ends.equal_ends]
    exact Ends.logicalNot_ends (a.equal b)

/-- The ends that the operation computes. -/
def Binary.ends : Binary → Ends → Ends → Except Fault Ends
  | .arith op, a, b => op.ends a b
  | .compare rel, a, b => rel.ends a b
  | .and, a, b => a.logicalAnd b
  | .or, a, b => a.logicalOr b

theorem Binary.ends_eq (op : Binary) (a b : Interval) :
    op.ends a.ends b.ends = .ok (op.range a b).ends := by
  cases op with
  | arith op => exact op.ends_eq a b
  | compare rel => exact rel.ends_eq a b
  | and => exact Ends.logicalAnd_ends a b
  | or => exact Ends.logicalOr_ends a b

/-- The ends that the operation, invoked under a name, computes from its arguments, unless one of
them is refused. -/
def Operation.ends (op : Operation) (name : String) (args : List Value) :
    Except Error (Except Fault Ends) :=
  match op with
  | .constant =>
    match args with
    | .int value :: _ => .ok (.ok ⟨.finite value, .finite value⟩)
    | .range interval :: _ => .ok (.ok interval.ends)
    | _ => .error (.invalidOperand name 0)
  | .unary f => do
    return f.ends (← operand name args 0).ends
  | .binary f => do
    return f.ends (← operand name args 0).ends (← operand name args 1).ends
  | .select => do
    return .ok ((← operand name args 0).ends.select (← operand name args 1).ends
      (← operand name args 2).ends)

theorem Operation.ends_eq (op : Operation) (name : String) (args : List Value) :
    op.ends name args = (op.apply name args).map fun range => .ok range.ends := by
  cases op with
  | constant =>
    cases args with
    | nil => rfl
    | cons value rest => cases value <;> rfl
  | unary f =>
    rw [ends, apply]
    cases operand name args 0 with
    | error e => rfl
    | ok a => exact congrArg Except.ok (f.ends_eq a)
  | binary f =>
    rw [ends, apply]
    cases operand name args 0 with
    | error e => rfl
    | ok a =>
      cases operand name args 1 with
      | error e => rfl
      | ok b => exact congrArg Except.ok (f.ends_eq a b)
  | select =>
    rw [ends, apply]
    cases operand name args 0 with
    | error e => rfl
    | ok a =>
      cases operand name args 1 with
      | error e => rfl
      | ok yes =>
        cases operand name args 2 with
        | error e => rfl
        | ok no => exact congrArg (Except.ok ∘ Except.ok) (Ends.select_ends a yes no)

namespace Expr

/-- The ends that the expression gets in a scope. -/
def ends (scope : Scope) : Expr → Except Fault Ends
  | .sym name => .ok (scope.range name).ends
  | .const n => .ok ⟨.finite n, .finite n⟩
  | .neg e => do return (← e.ends scope).neg
  | .binary op a b => do op.ends (← a.ends scope) (← b.ends scope)
  | .modIndex e d m => do
    let quotient ← (← e.ends scope).floorDiv (← d.ends scope)
    quotient.mod (← m.ends scope)

theorem ends_eq (scope : Scope) (e : Expr) : e.ends scope = .ok (e.range scope).ends := by
  induction e with
  | sym name => rfl
  | const n => rfl
  | neg e ih =>
    rw [ends, ih]
    rfl
  | binary op a b iha ihb =>
    rw [ends, iha, ihb]
    exact op.ends_eq (a.range scope) (b.range scope)
  | modIndex e d m ihe ihd ihm =>
    rw [ends, ihe, ihd, ihm]
    show ((e.range scope).ends.floorDiv (d.range scope).ends >>= fun quotient =>
      quotient.mod (m.range scope).ends) = _
    rw [Ends.floorDiv_ends]
    exact Ends.mod_ends ((e.range scope).floorDiv (d.range scope)) (m.range scope)

/-- The ends of the range of a loop variable with this upper bound. -/
def loopEnds (upper : Expr) : Except Fault Ends :=
  if upper.isConcrete then do Ends.checked 0 (max (← upper.ends ∅).high 0)
  else .ok ⟨0, .posInf⟩

theorem loopEnds_eq (upper : Expr) : upper.loopEnds = .ok upper.loopRange.ends := by
  unfold loopEnds loopRange
  split
  · rw [ends_eq]
    exact Ends.checked_ends (x := 0) (Bound.le_refl _) (Bound.le_max_right _ _)
  · rfl

end Expr

/-- **No misuse in an analysis.** Let a body be well-formed or not, and let its analysis succeed or
fail. The intervals recorded for nodes, those of the symbols in the scope, and those that a refused
index is reported with have ends in order. Of the intervals that are computed on the way, the ranges
of loop variables, the ranges of indices in any scope, and the results of operations on any
arguments, each has the ends that arithmetic without any such knowledge gives: no ends are handed to
the checked constructor that it refuses, no hull has to be replaced by all integers, and no end is
divided by zero. -/
theorem analysis_never_misuses (body : Body) (config : Config) :
    (∀ (id : NodeId) (range : Interval), (body.run config).2.bounds[id]? = some range →
      range.ends.Valid) ∧
    (∀ (name : Symbol) (range : Interval),
      (Engine.new body config).bounds.engine.context.scope[name]? = some range →
      range.ends.Valid) ∧
    (∀ name previous current, (Engine.new body config).bounds.answer =
      .error (.reresolutionMismatch name previous current) →
      previous.ends.Valid ∧ current.ends.Valid) ∧
    (∀ decl ∈ body.varRanges, decl.2.loopEnds = .ok decl.2.loopRange.ends) ∧
    (∀ (scope : Scope) (name : String) (expr : Expr), body.indexExprs[name]? = some expr →
      expr.ends scope = .ok (expr.range scope).ends) ∧
    ∀ (op : Operation) (name : String) (args : List Value),
      op.ends name args = (op.apply name args).map fun range => .ok range.ends := by
  refine ⟨?_, ?_, ?_, ?_, ?_, ?_⟩
  · intro _ range _
    exact range.valid_ends
  · intro _ range _
    exact range.valid_ends
  · intro _ previous current _
    exact ⟨previous.valid_ends, current.valid_ends⟩
  · intro decl _
    exact decl.2.loopEnds_eq
  · intro scope _ expr _
    exact expr.ends_eq scope
  · intro op name args
    exact op.ends_eq name args

end LoopBounds
