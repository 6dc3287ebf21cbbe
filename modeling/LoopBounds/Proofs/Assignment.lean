/-
What nodes do to symbols.

A node assigns at most one symbol, an index its own name and a binding its
indirect variable (`Node.assigned?`). This is the whole effect of a node that
runs no subblock, on an execution (`Computes.after_eq`) and on the scope of an
analysis (`Yields.scope_eq`). An index that is resolved again gets the range of
its expression as if it were resolved for the first time: what the check of the
previous range lets through is not changed by it (`scope_of_resolve`).

A symbol is `Stable` if a body gives it a meaning only once.
-/
import LoopBounds.Execution
import LoopBounds.Proofs.Analysis.Completion
import LoopBounds.Proofs.Interval

namespace LoopBounds

/-- The symbol that a node gives a value. -/
def Node.assigned? (body : Body) (node : Node) : Option Symbol :=
  match node.target, node.args with
  | .getIndex, .name name :: _ => some name
  | .setIndirect index, _ => body.indirectVars[index]?
  | _, _ => none

/-- The node resolves an index, and this is the expression of it. -/
def Node.Resolves (body : Body) (node : Node) (expr : Expr) : Prop :=
  ∃ name rest, node.target = .getIndex ∧ node.args = .name name :: rest ∧
    body.indexExprs[name]? = some expr

/-- At most one node assigns the symbol, and none does if it is a loop variable. -/
structure Body.Stable (body : Body) (name : Symbol) : Prop where
  once : ∀ m ∈ body.nodes, ∀ n ∈ body.nodes, m.assigned? body = some name →
    n.assigned? body = some name → m = n
  notLoop : ∀ n ∈ body.nodes, n.assigned? body = some name →
    name ∉ body.varRanges.map Prod.fst

theorem Node.target_of_assigned? {body : Body} {node : Node} {name : Symbol}
    (h : node.assigned? body = some name) :
    node.target = .getIndex ∨ ∃ index, node.target = .setIndirect index := by
  unfold assigned? at h
  split at h
  · rename_i htarget _
    exact Or.inl htarget
  · rename_i index htarget
    exact Or.inr ⟨index, htarget⟩
  · cases h

/-! ### In an execution -/

namespace Execution

/-- The state with a value for the symbol, if there is one to assign. -/
def State.assign? (state : State) (name? : Option Symbol) (value : Int) : State :=
  match name? with
  | some name => state.assign name value
  | none => state

variable {body : Body} {state after : State} {node : Node} {value : Int}

theorem Computes.after_eq (h : Computes body state node value after) :
    after = state.assign? (node.assigned? body) value := by
  cases h with
  | setIndirect hvar _ => simp only [Node.assigned?, hvar, State.assign?]
  | _ => rfl

theorem Computes.values_eq (h : Computes body state node value after) :
    after.values = state.values := by
  cases h <;> rfl

theorem Computes.target_ne (h : Computes body state node value after) (index : Nat) :
    node.target ≠ .maskedSubblock index := by
  cases h <;> exact Target.noConfusion

end Execution

/-! ### In an analysis -/

/-- The scope with an entry for the symbol, if there is one to assign. -/
def Scope.insert? (scope : Scope) (name? : Option Symbol) (range : Interval) : Scope :=
  match name? with
  | some name => scope.insert name range
  | none => scope

namespace Scope

variable {scope : Scope} {range : Interval}

theorem getElem?_insert?_of_ne {name : Symbol} {name? : Option Symbol} (h : name? ≠ some name) :
    (scope.insert? name? range)[name]? = scope[name]? := by
  cases name? with
  | none => rfl
  | some other =>
    have hne : other ≠ name := fun heq => h (congrArg some heq)
    simp [Scope.insert?, Std.ExtTreeMap.getElem?_insert, hne]

theorem getElem?_insert?_self {name : Symbol} :
    (scope.insert? (some name) range)[name]? = some range := by
  simp [Scope.insert?]

end Scope

namespace Analysis

variable {body : Body} {config : Config} {ctx after : Context} {args : List Value}
  {range : Interval}

theorem scope_of_resolve {recheck : Recheck} {name : String} {expr : Expr}
    (h : ctx.resolve recheck name expr = (.ok range, after)) :
    range = expr.range ctx.scope ∧ after.scope = ctx.scope.insert name range := by
  simp only [Context.resolve] at h
  split at h
  · cases h
    exact ⟨rfl, rfl⟩
  · rename_i previous _
    split at h
    · rename_i haccepts
      rw [Interval.inter?_of_le (le_of_accepts haccepts)] at h
      cases h
      exact ⟨rfl, rfl⟩
    · cases h

theorem Yields.scope_eq {node : Node} {bounds : Bounds}
    (h : Yields body config ctx node.target args range after)
    (hargs : bounds.values node.args = .ok args) :
    after.scope = ctx.scope.insert? (node.assigned? body) range := by
  obtain ⟨id, target, operands⟩ := node
  cases h with
  | getIndex _ hresolve =>
    obtain ⟨tail, rfl⟩ := Bounds.head_of_name hargs
    exact (scope_of_resolve hresolve).2
  | setIndirect hvar =>
    simp only [Node.assigned?, hvar]
    rfl
  | _ => rfl

/-- An index is given the range of its expression in the scope. -/
theorem Yields.eq_range {node : Node} {bounds : Bounds} {expr : Expr}
    (h : Yields body config ctx node.target args range after)
    (hargs : bounds.values node.args = .ok args) (hexpr : node.Resolves body expr) :
    range = expr.range ctx.scope := by
  obtain ⟨name, rest, htarget, hoperands, hexpr⟩ := hexpr
  rw [htarget] at h
  cases h with
  | getIndex hexpr' hresolve =>
    obtain ⟨tail, htail⟩ := Bounds.head_of_name hargs
    rw [hoperands] at htail
    cases htail
    rw [hexpr', Option.some_inj] at hexpr
    rw [← hexpr]
    exact (scope_of_resolve hresolve).1

end Analysis

end LoopBounds
