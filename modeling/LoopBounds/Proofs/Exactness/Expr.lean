/-
Ranges of expressions that mention each symbol once.

`Expr.range` bounds each operation on its own, so it is too wide where operands
depend on each other. Where no symbol stands at two places they do not, and the
range is the least interval around the values (`Expr.range_least`), remainders
apart and as long as divisors are bounded and exclude zero (`Expr.Separable`).

The values of an operand may have gaps, as those of `2 * i` have, so the statement
that goes through by induction is about hulls of sets of values
(`Separable.isHull_range`). Two operands have no symbol in common, so an assignment
for each of them gives one for both (`Separable.results_subset`).
-/
import LoopBounds.Proofs.Exactness

namespace LoopBounds

/-- Every symbol has a value that the scope allows. -/
def Scope.Allows (scope : Scope) (values : Symbol → Int) : Prop :=
  ∀ name, values name ∈ scope.range name

namespace Scope

theorem exists_allowed (scope : Scope) : ∃ values, scope.Allows values :=
  ⟨fun name => (scope.range name).exists_mem.choose,
    fun name => (scope.range name).exists_mem.choose_spec⟩

/-- Some symbols may take their values from one assignment and the others from another. -/
theorem Allows.either {scope : Scope} {f g : Symbol → Int} (hf : scope.Allows f)
    (hg : scope.Allows g) (names : List Symbol) :
    scope.Allows fun name => if name ∈ names then f name else g name := by
  intro name
  show (if name ∈ names then f name else g name) ∈ scope.range name
  split
  · exact hf name
  · exact hg name

/-- One symbol may have any value of its range. -/
theorem exists_allowed_at {scope : Scope} {name : Symbol} {x : Int} (hx : x ∈ scope.range name) :
    ∃ values, scope.Allows values ∧ values name = x := by
  obtain ⟨values, hvalues⟩ := scope.exists_allowed
  refine ⟨fun other => if other = name then x else values other, fun other => ?_, if_pos rfl⟩
  show (if other = name then x else values other) ∈ scope.range other
  split
  · rename_i h
    rw [h]
    exact hx
  · exact hvalues other

end Scope

namespace Expr

variable {scope : Scope} {e : Expr} {values : Symbol → Int}

/-- The expression itself and all expressions that it is made of. -/
def subexprs : Expr → List Expr
  | .sym name => [.sym name]
  | .const n => [.const n]
  | .neg e => .neg e :: e.subexprs
  | .binary op a b => .binary op a b :: (a.subexprs ++ b.subexprs)
  | .modIndex e d m => .modIndex e d m :: (e.subexprs ++ d.subexprs ++ m.subexprs)

/-- Each symbol stands at one place, there are no remainders, and the divisors have finite ends and
exclude zero. -/
structure Separable (scope : Scope) (e : Expr) : Prop where
  once : e.occurrences.Nodup
  no_mod : ∀ a b, binary .mod a b ∉ e.subexprs
  no_modIndex : ∀ a d m, modIndex a d m ∉ e.subexprs
  divisors : ∀ a d, binary .floorDiv a d ∈ e.subexprs → (d.range scope).IsDivisor

namespace Separable

theorem of_subset {part : Expr} (h : e.Separable scope) (honce : part.occurrences.Nodup)
    (hpart : ∀ f ∈ part.subexprs, f ∈ e.subexprs) : part.Separable scope where
  once := honce
  no_mod a b hmem := h.no_mod a b (hpart _ hmem)
  no_modIndex a d m hmem := h.no_modIndex a d m (hpart _ hmem)
  divisors a d hmem := h.divisors a d (hpart _ hmem)

theorem of_neg (h : (neg e).Separable scope) : e.Separable scope :=
  h.of_subset h.once fun _ hf => List.mem_cons_of_mem _ hf

variable {op : Arith} {a b : Expr}

theorem left (h : (binary op a b).Separable scope) : a.Separable scope :=
  h.of_subset (List.nodup_append.1 h.once).1
    fun _ hf => List.mem_cons_of_mem _ (List.mem_append_left _ hf)

theorem right (h : (binary op a b).Separable scope) : b.Separable scope :=
  h.of_subset (List.nodup_append.1 h.once).2.1
    fun _ hf => List.mem_cons_of_mem _ (List.mem_append_right _ hf)

theorem ne_mod (h : (binary op a b).Separable scope) : op ≠ .mod := by
  rintro rfl
  exact h.no_mod a b List.mem_cons_self

theorem isDivisor (h : (binary op a b).Separable scope) (hop : op = .floorDiv) :
    (b.range scope).IsDivisor := by
  subst hop
  exact h.divisors a b List.mem_cons_self

theorem not_mem_left (h : (binary op a b).Separable scope) {name : Symbol}
    (hname : name ∈ b.occurrences) : name ∉ a.occurrences :=
  fun hleft => (List.nodup_append.1 h.once).2.2 name hleft name hname rfl

end Separable

/-! ### Values -/

/-- The value depends on the symbols that occur only. -/
theorem eval?_congr {f g : Symbol → Option Int} (h : ∀ name ∈ e.occurrences, f name = g name) :
    e.eval? f = e.eval? g := by
  induction e with
  | sym name => exact h name (List.mem_singleton.2 rfl)
  | const n => rfl
  | neg e ih => rw [eval?, eval?, ih h]
  | binary op a b iha ihb =>
    rw [eval?, eval?, iha fun name hname => h name (List.mem_append_left _ hname),
      ihb fun name hname => h name (List.mem_append_right _ hname)]
  | modIndex e d m ihe ihd ihm =>
    rw [eval?, eval?, ihe fun name hname => h name (by simp [occurrences, hname]),
      ihd fun name hname => h name (by simp [occurrences, hname]),
      ihm fun name hname => h name (by simp [occurrences, hname])]

theorem eval?_binary {f : Symbol → Option Int} {op : Arith} {a b : Expr} {x y : Int}
    (hx : a.eval? f = some x) (hy : b.eval? f = some y) :
    (binary op a b).eval? f = op.eval x y := by
  rw [eval?, hx, hy]
  rfl

/-- The values under the assignments that the scope allows. -/
def possible (scope : Scope) (e : Expr) : Set Int :=
  {v | ∃ values, scope.Allows values ∧ e.eval? (fun name => some (values name)) = some v}

theorem mem_range_of_allows {v : Int} (hvalues : scope.Allows values)
    (hv : e.eval? (fun name => some (values name)) = some v) : v ∈ e.range scope := by
  refine Expr.mem_range ?_ hv
  intro name _ x hx
  cases hx
  exact hvalues name

/-- With divisors that exclude zero there always is a value. -/
theorem Separable.exists_eval? (h : e.Separable scope) (hvalues : scope.Allows values) :
    ∃ v, e.eval? (fun name => some (values name)) = some v := by
  induction e with
  | sym name => exact ⟨values name, rfl⟩
  | const n => exact ⟨n, rfl⟩
  | neg e ih =>
    obtain ⟨x, hx⟩ := ih h.of_neg
    exact ⟨-x, by rw [eval?, hx]; rfl⟩
  | binary op a b iha ihb =>
    obtain ⟨x, hx⟩ := iha h.left
    obtain ⟨y, hy⟩ := ihb h.right
    rw [eval?_binary hx hy]
    exact Arith.exists_eval x h.ne_mod h.isDivisor (mem_range_of_allows hvalues hy)
  | modIndex e d m => exact absurd List.mem_cons_self (h.no_modIndex e d m)

/-- Operands without a common symbol take their values independently: one assignment for the
symbols of the left operand and another one for the rest are one assignment. -/
theorem Separable.results_subset {op : Arith} {a b : Expr}
    (h : (binary op a b).Separable scope) :
    ∀ v ∈ op.results (a.possible scope) (b.possible scope), v ∈ (binary op a b).possible scope := by
  rintro v ⟨x, ⟨f, hf, hx⟩, y, ⟨g, hg, hy⟩, hv⟩
  have hleft : a.eval? (fun name => some (if name ∈ a.occurrences then f name else g name)) =
      some x := by
    rw [← hx]
    exact eval?_congr fun name hname => by rw [if_pos hname]
  have hright : b.eval? (fun name => some (if name ∈ a.occurrences then f name else g name)) =
      some y := by
    rw [← hy]
    exact eval?_congr fun name hname => by rw [if_neg (h.not_mem_left hname)]
  exact ⟨_, hf.either hg a.occurrences, (eval?_binary hleft hright).trans hv⟩

/-- The range of an expression is the hull of its values. -/
theorem Separable.isHull_range (h : e.Separable scope) :
    (e.range scope).IsHull (e.possible scope) := by
  have hmem {e : Expr} : ∀ v ∈ e.possible scope, v ∈ e.range scope := by
    rintro v ⟨values, hvalues, hv⟩
    exact mem_range_of_allows hvalues hv
  induction e with
  | sym name =>
    refine (scope.range name).isHull_members.of_subset ?_ hmem
    intro x hx
    obtain ⟨values, hvalues, rfl⟩ := Scope.exists_allowed_at hx
    exact ⟨values, hvalues, rfl⟩
  | const n =>
    obtain ⟨values, hvalues⟩ := scope.exists_allowed
    refine Interval.isHull_singleton ⟨values, hvalues, rfl⟩ ?_
    rintro v ⟨_, _, hv⟩
    cases hv
    rfl
  | neg e ih =>
    refine (ih h.of_neg).neg.of_subset ?_ hmem
    rintro v ⟨values, hvalues, hv⟩
    exact ⟨values, hvalues, by rw [eval?, hv]; exact congrArg some (Int.neg_neg v)⟩
  | binary op a b iha ihb =>
    refine (Arith.isHull_range h.ne_mod h.isDivisor (iha h.left) (ihb h.right)).of_subset ?_ hmem
    exact h.results_subset
  | modIndex e d m => exact absurd List.mem_cons_self (h.no_modIndex e d m)

/-- **Ranges without repeated symbols are exact.** Where no symbol stands twice, nothing is a
remainder, and divisors are bounded and exclude zero, the range of an expression is the least
interval around its values: every assignment that the scope allows has one. -/
theorem range_least (h : e.Separable scope) :
    IsLeast {around : Interval | ∀ values : Symbol → Int,
      (∀ name, values name ∈ scope.range name) →
        ∃ v ∈ around, e.eval? (fun name => some (values name)) = some v} (e.range scope) := by
  constructor
  · intro values hvalues
    obtain ⟨v, hv⟩ := h.exists_eval? hvalues
    exact ⟨v, mem_range_of_allows hvalues hv, hv⟩
  · intro around haround
    refine h.isHull_range.le ?_
    rintro v ⟨values, hvalues, hv⟩
    obtain ⟨w, hw, heval⟩ := haround values hvalues
    rw [heval] at hv
    cases hv
    exact hw

/-- The dividend `2 * i` has gaps and no upper end, and the divisor is negative. -/
theorem range_least_quotient :
    let scope : Scope := ((∅ : Scope).insert "i" .nonnegative).insert "d"
      (.between (.finite (-3)) (.finite (-2))) |>.insert "k" (.between 0 5)
    let e : Expr := .binary .mul (max (2 * .sym "i" / .sym "d") (-7)) (.sym "k")
    e.Separable scope ∧ e.range scope = .between (.finite (-35)) 0 ∧
      IsLeast {around : Interval | ∀ values : Symbol → Int,
        (∀ name, values name ∈ scope.range name) →
          ∃ v ∈ around, e.eval? (fun name => some (values name)) = some v}
        (.between (.finite (-35)) 0) := by
  intro scope e
  have hparts : e.subexprs = [e, .binary .max (2 * .sym "i" / .sym "d") (-7),
      .binary .floorDiv (2 * .sym "i") (.sym "d"), .binary .mul 2 (.sym "i"), .const 2, .sym "i",
      .sym "d", .neg 7, .const 7, .sym "k"] := rfl
  have hseparable : e.Separable scope := by
    refine ⟨by decide, ?_, ?_, ?_⟩
    · intro a b hmem
      simp [hparts, e] at hmem
    · intro a d m hmem
      simp [hparts, e] at hmem
    · intro a d hmem
      obtain ⟨-, rfl⟩ : a = 2 * .sym "i" ∧ d = .sym "d" := by simpa [hparts, e] using hmem
      decide
  have hrange : e.range scope = .between (.finite (-35)) 0 := by decide
  refine ⟨hseparable, hrange, ?_⟩
  rw [← hrange]
  exact range_least hseparable

end Expr

end LoopBounds
