/-
What an expression depends on.

The symbols of an expression are all that it asks of its surroundings
(`Expr.determined_by_symbols`):

* it has a value exactly if all of them have one and no divisor in it is zero
  (`Expr.isSome_eval?_iff`), whichever operand is looked at first;
* assignments and scopes that agree on them give the same value and the same
  range (`Expr.eval?_congr`, `Expr.range_congr`), so neither matters to an
  expression without symbols.
-/
import LoopBounds.Proofs.Exactness.Expr

namespace LoopBounds

/-- Whether the operation divides by its right operand. -/
def Arith.isDivision : Arith → Bool
  | .floorDiv | .mod => true
  | _ => false

theorem Arith.isSome_eval_iff {op : Arith} {x y : Int} :
    (op.eval x y).isSome ↔ (op.isDivision → y ≠ 0) := by
  cases op <;> simp [eval, isDivision]

namespace Expr

variable {e : Expr} {values : Symbol → Option Int}

theorem mem_symbols {name : Symbol} : name ∈ e.symbols ↔ name ∈ e.occurrences := by
  rw [symbols, Std.ExtTreeSet.mem_ofList, List.contains_iff_mem]

theorem occurrences_eq_nil (h : e.isConcrete) : e.occurrences = [] := by
  refine List.eq_nil_iff_forall_not_mem.2 fun name hname => ?_
  rw [isConcrete, Std.ExtTreeSet.isEmpty_iff] at h
  rw [← mem_symbols, h] at hname
  exact Std.ExtTreeSet.not_mem_empty hname

/-- What the outermost operation divides by: a divisor, or a divisor and a modulus. -/
def divisors : Expr → List Expr
  | .binary op _ b => if op.isDivision then [b] else []
  | .modIndex _ d m => [d, m]
  | _ => []

/-- All symbols have values, and nothing in the expression is divided by zero. -/
structure Supplied (values : Symbol → Option Int) (e : Expr) : Prop where
  assigned : ∀ name ∈ e.occurrences, (values name).isSome
  divides : ∀ f ∈ e.subexprs, ∀ d ∈ f.divisors, d.eval? values ≠ some 0

/-! ### When there is a value -/

theorem supplied_sym {name : Symbol} : (sym name).Supplied values ↔ (values name).isSome :=
  ⟨fun h => h.assigned name (List.mem_singleton_self name),
    fun h => ⟨by simpa [occurrences] using h, by simp [subexprs, divisors]⟩⟩

theorem supplied_const (n : Int) : (const n).Supplied values :=
  ⟨by simp [occurrences], by simp [subexprs, divisors]⟩

theorem supplied_neg : (neg e).Supplied values ↔ e.Supplied values := by
  constructor
  · intro h
    exact ⟨h.assigned, (List.forall_mem_cons.1 h.divides).2⟩
  · intro h
    exact ⟨h.assigned, List.forall_mem_cons.2 ⟨by simp [divisors], h.divides⟩⟩

theorem supplied_binary {op : Arith} {a b : Expr} : (binary op a b).Supplied values ↔
    a.Supplied values ∧ b.Supplied values ∧ (op.isDivision → b.eval? values ≠ some 0) := by
  have hown : (∀ d ∈ (binary op a b).divisors, d.eval? values ≠ some 0) ↔
      (op.isDivision → b.eval? values ≠ some 0) := by
    cases hop : op.isDivision <;> simp [divisors, hop]
  constructor
  · rintro ⟨hassigned, hdivides⟩
    obtain ⟨ha, hb⟩ := List.forall_mem_append.1 hassigned
    obtain ⟨hself, hparts⟩ := List.forall_mem_cons.1 hdivides
    obtain ⟨hda, hdb⟩ := List.forall_mem_append.1 hparts
    exact ⟨⟨ha, hda⟩, ⟨hb, hdb⟩, hown.1 hself⟩
  · rintro ⟨ha, hb, hself⟩
    exact ⟨List.forall_mem_append.2 ⟨ha.assigned, hb.assigned⟩,
      List.forall_mem_cons.2 ⟨hown.2 hself, List.forall_mem_append.2 ⟨ha.divides, hb.divides⟩⟩⟩

/-- An index with a modulus is the remainder of a quotient. -/
theorem supplied_modIndex {e d m : Expr} : (modIndex e d m).Supplied values ↔
    (binary .mod (binary .floorDiv e d) m).Supplied values := by
  have hdivides : (∀ f ∈ (modIndex e d m).subexprs, ∀ g ∈ f.divisors, g.eval? values ≠ some 0) ↔
      ∀ f ∈ (binary .mod (binary .floorDiv e d) m).subexprs, ∀ g ∈ f.divisors,
        g.eval? values ≠ some 0 := by
    simp only [subexprs, List.cons_append, List.forall_mem_cons, List.forall_mem_append, divisors,
      Arith.isDivision, if_true]
    tauto
  exact ⟨fun h => ⟨h.assigned, hdivides.1 h.divides⟩, fun h => ⟨h.assigned, hdivides.2 h.divides⟩⟩

theorem eval?_modIndex {e d m : Expr} : (modIndex e d m).eval? values =
    (binary .mod (binary .floorDiv e d) m).eval? values := by
  simp [eval?, Option.bind_assoc]

/-- A pair of operands gives a value if both have one and the right one is not a zero that the
operation divides by. -/
theorem isSome_eval?_binary {op : Arith} {a b : Expr}
    (ha : (a.eval? values).isSome ↔ a.Supplied values)
    (hb : (b.eval? values).isSome ↔ b.Supplied values) :
    ((binary op a b).eval? values).isSome ↔ (binary op a b).Supplied values := by
  rw [supplied_binary, ← ha, ← hb, eval?]
  cases a.eval? values with
  | none => simp
  | some x =>
    cases b.eval? values with
    | none => simp
    | some y => simpa using Arith.isSome_eval_iff

theorem isSome_eval?_iff : (e.eval? values).isSome ↔ e.Supplied values := by
  induction e with
  | sym name => exact supplied_sym.symm
  | const n => exact iff_of_true rfl (supplied_const n)
  | neg e ih =>
    rw [supplied_neg, ← ih, eval?]
    cases e.eval? values <;> simp
  | binary op a b iha ihb => exact isSome_eval?_binary iha ihb
  | modIndex e d m ihe ihd ihm =>
    rw [eval?_modIndex, supplied_modIndex]
    exact isSome_eval?_binary (isSome_eval?_binary ihe ihd) ihm

/-! ### What does not matter -/

/-- The range depends on what is known of the symbols that occur only. -/
theorem range_congr {scope other : Scope}
    (h : ∀ name ∈ e.occurrences, scope.range name = other.range name) :
    e.range scope = e.range other := by
  induction e with
  | sym name => exact h name (List.mem_singleton_self name)
  | const n => rfl
  | neg e ih => rw [range, range, ih h]
  | binary op a b iha ihb =>
    obtain ⟨ha, hb⟩ := List.forall_mem_append.1 h
    rw [range, range, iha ha, ihb hb]
  | modIndex e d m ihe ihd ihm =>
    obtain ⟨hed, hm⟩ := List.forall_mem_append.1 h
    obtain ⟨he, hd⟩ := List.forall_mem_append.1 hed
    rw [range, range, ihe he, ihd hd, ihm hm]

/-- **An expression depends on its symbols alone.** It has a value exactly if every symbol of it has
one and no divisor or modulus in it is zero. Its value is the same under all assignments that agree
on its symbols, and its range in all scopes that do; if it has no symbols, it is always the same. -/
theorem determined_by_symbols (e : Expr) :
    (∀ values, (e.eval? values).isSome ↔ (∀ name ∈ e.symbols, (values name).isSome) ∧
      ∀ f ∈ e.subexprs, ∀ d ∈ f.divisors, d.eval? values ≠ some 0) ∧
    (∀ values others, (∀ name ∈ e.symbols, values name = others name) →
      e.eval? values = e.eval? others) ∧
    (∀ scope other : Scope, (∀ name ∈ e.symbols, scope.range name = other.range name) →
      e.range scope = e.range other) ∧
    (e.isConcrete → (∀ values others, e.eval? values = e.eval? others) ∧
      ∀ scope other, e.range scope = e.range other) := by
  simp only [mem_symbols]
  refine ⟨fun values => ?_, fun _ _ => eval?_congr, fun _ _ => range_congr, fun h => ?_⟩
  · rw [isSome_eval?_iff]
    exact ⟨fun h => ⟨h.assigned, h.divides⟩, fun h => ⟨h.1, h.2⟩⟩
  · have hnone := occurrences_eq_nil h
    exact ⟨fun _ _ => eval?_congr (by simp [hnone]), fun _ _ => range_congr (by simp [hnone])⟩

/-- The modulus is zero where `i` is three, also if another symbol has no value or an unknown
range. -/
theorem determined_by_symbols_modIndex :
    let e : Expr := .modIndex (.sym "i") (.sym "d") (.sym "i" - 3)
    let values : Symbol → Option Int := fun name => if name = "i" then some 3 else some 2
    let others : Symbol → Option Int := fun name =>
      if name = "i" then some 3 else if name = "d" then some 2 else none
    let scope : Scope := ((∅ : Scope).insert "i" (.between 4 9)).insert "d" (.singleton 2)
    (∀ name ∈ e.symbols, values name = others name) ∧ e.eval? values = e.eval? others ∧
      ¬ (e.eval? values).isSome ∧ e.range (scope.insert "k" .boolean) = e.range scope ∧
      (7 % 0 : Expr).eval? values = (7 % 0 : Expr).eval? others := by
  intro e values others scope
  have hnames : ∀ name ∈ e.symbols, name = "i" ∨ name = "d" := by
    intro name hname
    have hmem : name ∈ ["i", "d", "i"] := mem_symbols.1 hname
    simp only [List.mem_cons, List.not_mem_nil] at hmem
    tauto
  have hagree : ∀ name ∈ e.symbols, values name = others name := by
    intro name hname
    rcases hnames name hname with rfl | rfl <;> rfl
  have hscopes : ∀ name ∈ e.symbols,
      Scope.range (scope.insert "k" .boolean) name = scope.range name := by
    intro name hname
    rcases hnames name hname with rfl | rfl <;> decide
  have hmodulus : (Expr.sym "i" - 3).eval? values = some 0 := rfl
  obtain ⟨hvalue, heval, hrange, -⟩ := determined_by_symbols e
  refine ⟨hagree, heval _ _ hagree, fun hsome => ?_, hrange _ _ hscopes, ?_⟩
  · exact ((hvalue values).1 hsome).2 e List.mem_cons_self _ (List.mem_cons_of_mem _
      List.mem_cons_self) hmodulus
  · exact ((determined_by_symbols (7 % 0)).2.2.2 (by decide)).1 _ _

end Expr

end LoopBounds
