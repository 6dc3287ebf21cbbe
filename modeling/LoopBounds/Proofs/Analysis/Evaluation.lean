/-
What the evaluation of a single target can do.

* `Yields`: a target that runs no graph gives an interval;
* `Refuses`: it gives an error, and the same for a masked one that is not entered;
* `Enters`: a masked target runs its subblock and goes on from how that ended.

There is no other way (`eval_cases`). What runs do is proved from these three, and
not from the submodules themselves.
-/
import LoopBounds.Analysis.Submodules
import LoopBounds.Proofs.Bounds
import LoopBounds.Proofs.Interval

namespace LoopBounds

/-- An operation is refused only for one of its operands. -/
theorem Operation.exists_of_apply_error {op : Operation} {name : String} {args : List Value}
    {e : Error} (h : op.apply name args = .error e) :
    ∃ position, e = .invalidOperand name position := by
  have hoperand : ∀ {position : Nat}, operand name args position = .error e →
      ∃ position, e = .invalidOperand name position := by
    intro position h
    unfold operand at h
    split at h <;> cases h
    exact ⟨position, rfl⟩
  cases op with
  | constant =>
    simp only [apply] at h
    split at h <;> cases h
    exact ⟨0, rfl⟩
  | unary f =>
    rcases exists_of_bind_eq_error h with h | ⟨_, -, h⟩
    · exact hoperand h
    · cases h
  | binary f =>
    rcases exists_of_bind_eq_error h with h | ⟨_, -, h⟩
    · exact hoperand h
    · rcases exists_of_bind_eq_error h with h | ⟨_, -, h⟩
      · exact hoperand h
      · cases h
  | select =>
    rcases exists_of_bind_eq_error h with h | ⟨_, -, h⟩
    · exact hoperand h
    · rcases exists_of_bind_eq_error h with h | ⟨_, -, h⟩
      · exact hoperand h
      · rcases exists_of_bind_eq_error h with h | ⟨_, -, h⟩
        · exact hoperand h
        · cases h

theorem Handler.exists_of_valueRange_error {name : String} {args : List Value} {e : Error}
    (h : valueRange.call name args = .error e) : ∃ position, e = .invalidOperand name position := by
  simp only [valueRange] at h
  split at h
  · exact Operation.exists_of_apply_error h
  · cases h

namespace Analysis

/-- The evaluation of a target other than a masked one gives an interval and a new context. -/
inductive Yields (body : Body) (config : Config) (ctx : Context) :
    Target → List Value → Interval → Context → Prop where
  | operation {name args range} : Handler.valueRange.call name args = .ok range →
      Yields body config ctx (.op name) args range ctx
  | load {args} : Yields body config ctx .load args .unknown ctx
  | reduction {args} : Yields body config ctx .reduction args .unknown ctx
  | output {args} : Yields body config ctx .output args
      ((args.head?.bind Value.range?).getD .unknown) ctx
  | getIndex {name rest expr range after} : body.indexExprs[name]? = some expr →
      ctx.resolve config.recheck name expr = (.ok range, after) →
      Yields body config ctx .getIndex (.name name :: rest) range after
  | setIndirect {index var range rest} : body.indirectVars[index]? = some var →
      Yields body config ctx (.setIndirect index) (.range range :: rest) range
        (ctx.bind var range)

/-- The evaluation of a target gives an error at once, and leaves a context. -/
inductive Refuses (body : Body) (config : Config) (ctx : Context) :
    Target → List Value → Error → Context → Prop where
  | operation {name args position} :
      Handler.valueRange.call name args = .error (.invalidOperand name position) →
      Refuses body config ctx (.op name) args (.invalidOperand name position) ctx
  | unnamed {args} : (∀ name rest, args ≠ .name name :: rest) →
      Refuses body config ctx .getIndex args (.invalidOperand Target.getIndex.text 0) ctx
  | unknownIndex {name rest} : body.indexExprs[name]? = none →
      Refuses body config ctx .getIndex (.name name :: rest) (.unknownIndex name) ctx
  | unresolved {name rest expr previous} : body.indexExprs[name]? = some expr →
      ctx.scope[name]? = some previous →
      config.recheck.accepts (expr.range ctx.scope) previous = false →
      Refuses body config ctx .getIndex (.name name :: rest)
        (.reresolutionMismatch name previous (expr.range ctx.scope)) ctx.countResolution
  | unbound {index var args} : body.indirectVars[index]? = some var →
      (∀ range rest, args ≠ .range range :: rest) →
      Refuses body config ctx (.setIndirect index) args
        (.notAnInterval ("set_indirect(" ++ var ++ ")")
          ((args.head?.map Value.text).getD "nothing")) ctx
  | undeclared {index args} : body.indirectVars[index]? = none →
      Refuses body config ctx (.setIndirect index) args
        (.unregisteredSubmodule (Target.setIndirect index).text) ctx
  | unopened {index args} : body.subblocks[index]? = none →
      Refuses body config ctx (.maskedSubblock index) args
        (.unregisteredSubmodule (Target.maskedSubblock index).text) ctx
  | tooDeep {index args graph} : body.subblocks[index]? = some graph →
      config.maxDepth ≤ ctx.depth →
      Refuses body config ctx (.maskedSubblock index) args (.nestingTooDeep config.maxDepth) ctx

/-- The second store is the first with another state and further notes, none of which tells that a
node was evaluated. -/
structure Noted (store after : Store Context) : Prop where
  bounds : after.bounds = store.bounds
  log : ∃ events : List Event, after.log.toList = store.log.toList ++ events ∧
    ∀ event ∈ events, ∀ node range, event ≠ .evaluated node range

/-- The store in which a subblock is run. -/
def entering (store : Store Context) (index : Nat) : Store Context :=
  { store.note (.entered index (store.state.depth + 1)) with state := store.state.enter }

/-- The evaluation of a masked target runs its subblock, and gives what follows from how that
ended. -/
inductive Enters (body : Body) (config : Config)
    (runGraph : Graph → Store Context → Outcome Context Unit) (store : Store Context)
    (index : Nat) : Except Error Interval → Store Context → Prop where
  | failed {graph e inner} : body.subblocks[index]? = some graph →
      store.state.depth < config.maxDepth →
      runGraph graph (entering store index) = some (.error e, inner) →
      Enters body config runGraph store index (.error e) { inner with state := inner.state.leave }
  | completed {graph inner output range} : body.subblocks[index]? = some graph →
      store.state.depth < config.maxDepth →
      runGraph graph (entering store index) = some (.ok (), inner) → graph.outputs = [output] →
      inner.bounds[output.id]? = some range →
      Enters body config runGraph store index (.ok range)
        { inner.note (.left index range) with state := inner.state.leave.countSubblock }
  | malformed {graph inner} : body.subblocks[index]? = some graph →
      store.state.depth < config.maxDepth →
      runGraph graph (entering store index) = some (.ok (), inner) →
      (∀ output, graph.outputs ≠ [output]) →
      Enters body config runGraph store index
        (.error (.malformedSubblock index graph.outputs.length))
        { inner with state := inner.state.leave.countSubblock }
  | unrecorded {graph inner output} : body.subblocks[index]? = some graph →
      store.state.depth < config.maxDepth →
      runGraph graph (entering store index) = some (.ok (), inner) → graph.outputs = [output] →
      inner.bounds[output.id]? = none →
      Enters body config runGraph store index (.error (.undefinedNode output.id))
        { inner with state := inner.state.leave.countSubblock }

variable {body : Body} {config : Config} {args : List Value} {store after : Store Context}
  {runGraph : Graph → Store Context → Outcome Context Unit} {result : Except Error Interval}

/-- No further note. -/
theorem noted_none (store : Store Context) (ctx : Context) :
    Noted store { store with state := ctx } :=
  ⟨rfl, [], by simp, by simp⟩

/-- One further note. -/
theorem noted_one (store : Store Context) (ctx : Context) {event : Event}
    (hevent : ∀ node range, event ≠ .evaluated node range) :
    Noted store { store.note event with state := ctx } :=
  ⟨rfl, [event], by simp [Store.note], by simpa using hevent⟩

/-- The notes on a call of an operation. -/
theorem noted_notes (store : Store Context) (name : String) :
    Noted store (store.noteAll (Handler.valueRange.notes name)) := by
  refine ⟨rfl, Handler.valueRange.notes name, by simp [Store.noteAll], ?_⟩
  intro event hevent
  simp only [Handler.valueRange] at hevent
  split at hevent
  · cases hevent
  · rw [List.mem_singleton.1 hevent]
    exact fun _ _ => Event.noConfusion

theorem le_of_accepts {recheck : Recheck} {current previous : Interval}
    (h : recheck.accepts current previous = true) : current ≤ previous := by
  cases recheck with
  | subset => simpa [Recheck.accepts] using h
  | equal =>
    have heq : current = previous := by simpa [Recheck.accepts] using h
    rw [heq]
    exact Interval.le_refl _

/-- An index is refused only for a previous range, and then nothing but the attempt is kept. -/
theorem exists_of_resolve_error {ctx ctx' : Context} {recheck : Recheck} {name : String}
    {expr : Expr} {e : Error} (h : ctx.resolve recheck name expr = (.error e, ctx')) :
    ∃ previous, ctx.scope[name]? = some previous ∧
      recheck.accepts (expr.range ctx.scope) previous = false ∧
      e = .reresolutionMismatch name previous (expr.range ctx.scope) ∧
      ctx' = ctx.countResolution := by
  simp only [Context.resolve] at h
  split at h
  · cases h
  · rename_i previous hprevious
    split at h
    · -- what the check lets through lies within the previous range, so they are not disjoint
      rename_i haccepts
      rw [Interval.inter?_of_le (le_of_accepts haccepts)] at h
      cases h
    · rename_i haccepts
      cases h
      exact ⟨previous, hprevious, by simpa using haccepts, rfl, rfl⟩

theorem getIndex_cases
    (h : (getIndex body config.recheck store.state args).perform runGraph store =
      some (result, after)) :
    (∃ range, result = .ok range ∧
      Yields body config store.state .getIndex args range after.state ∧ Noted store after) ∨
    ∃ e, result = .error e ∧
      Refuses body config store.state .getIndex args e after.state ∧ Noted store after := by
  unfold getIndex at h
  split at h
  · split at h
    · rename_i hexpr
      cases h
      exact Or.inr ⟨_, rfl, .unknownIndex hexpr, noted_none _ _⟩
    · rename_i expr hexpr
      split at h <;> rename_i hresolve <;> cases h
      · exact Or.inl ⟨_, rfl, .getIndex hexpr hresolve, noted_one _ _ fun _ _ => Event.noConfusion⟩
      · obtain ⟨previous, hprevious, haccepts, rfl, rfl⟩ := exists_of_resolve_error hresolve
        exact Or.inr ⟨_, rfl, .unresolved hexpr hprevious haccepts, noted_none _ _⟩
  · rename_i hunnamed
    cases h
    exact Or.inr ⟨_, rfl, .unnamed hunnamed, noted_none _ _⟩

theorem setIndirect_cases {index : Nat} {var : Symbol}
    (hvar : body.indirectVars[index]? = some var)
    (h : (setIndirect var store.state args).perform runGraph store = some (result, after)) :
    (∃ range, result = .ok range ∧
      Yields body config store.state (.setIndirect index) args range after.state ∧
      Noted store after) ∨
    ∃ e, result = .error e ∧
      Refuses body config store.state (.setIndirect index) args e after.state ∧
      Noted store after := by
  unfold setIndirect at h
  split at h
  · cases h
    exact Or.inl ⟨_, rfl, .setIndirect hvar, noted_one _ _ fun _ _ => Event.noConfusion⟩
  · rename_i hunbound
    cases h
    exact Or.inr ⟨_, rfl, .unbound hvar hunbound, noted_none _ _⟩

theorem maskedSubblock_cases {index : Nat} {graph : Graph}
    (hgraph : body.subblocks[index]? = some graph)
    (h : (maskedSubblock config.maxDepth index graph store.state).perform runGraph store =
      some (result, after)) :
    (∃ e, result = .error e ∧
      Refuses body config store.state (.maskedSubblock index) args e after.state ∧
      Noted store after) ∨
    Enters body config runGraph store index result after := by
  unfold maskedSubblock at h
  split at h
  · rename_i hdepth
    right
    simp only [Procedure.perform] at h
    split at h
    · cases h
    · rename_i ran inner hrun
      split at h
      · cases h
        exact .failed hgraph hdepth hrun
      · rename_i output houtputs
        split at h <;> rename_i hrange <;> cases h
        · exact .completed hgraph hdepth hrun houtputs hrange
        · exact .unrecorded hgraph hdepth hrun houtputs hrange
      · rename_i houtputs
        cases h
        exact .malformed hgraph hdepth hrun houtputs
  · rename_i hdepth
    cases h
    exact Or.inl ⟨_, rfl, .tooDeep hgraph (Nat.le_of_not_lt hdepth), noted_none _ _⟩

/-- Every evaluation yields an interval or is refused at once, or runs a subblock. -/
theorem eval_cases {target : Target}
    (h : (interpreter body config).eval runGraph target args store = some (result, after)) :
    (∃ range, result = .ok range ∧ Yields body config store.state target args range after.state ∧
      Noted store after) ∨
    (∃ e, result = .error e ∧ Refuses body config store.state target args e after.state ∧
      Noted store after) ∨
    ∃ index, target = .maskedSubblock index ∧
      Enters body config runGraph store index result after := by
  cases target with
  | op name =>
    obtain ⟨hresult, rfl⟩ := Prod.mk.injEq _ _ _ _ ▸ Option.some.inj h
    cases result with
    | ok range => exact Or.inl ⟨range, rfl, .operation hresult, noted_notes _ _⟩
    | error e =>
      obtain ⟨position, rfl⟩ := Handler.exists_of_valueRange_error hresult
      exact Or.inr (Or.inl ⟨_, rfl, .operation hresult, noted_notes _ _⟩)
  | load =>
    cases h
    exact Or.inl ⟨_, rfl, .load, noted_notes _ _⟩
  | reduction =>
    cases h
    exact Or.inl ⟨_, rfl, .reduction, noted_notes _ _⟩
  | output =>
    cases h
    exact Or.inl ⟨_, rfl, .output, noted_none _ _⟩
  | getIndex => exact (getIndex_cases h).imp_right Or.inl
  | setIndirect index =>
    cases hvar : body.indirectVars[index]? with
    | none =>
      simp only [Interpreter.eval, interpreter, submodule?, hvar, Option.map_none] at h
      cases h
      exact Or.inr (Or.inl ⟨_, rfl, .undeclared hvar, noted_none _ _⟩)
    | some var =>
      simp only [Interpreter.eval, interpreter, submodule?, hvar, Option.map_some] at h
      exact (setIndirect_cases hvar h).imp_right Or.inl
  | maskedSubblock index =>
    cases hgraph : body.subblocks[index]? with
    | none =>
      simp only [Interpreter.eval, interpreter, submodule?, hgraph, Option.map_none] at h
      cases h
      exact Or.inr (Or.inl ⟨_, rfl, .unopened hgraph, noted_none _ _⟩)
    | some graph =>
      simp only [Interpreter.eval, interpreter, submodule?, hgraph, Option.map_some] at h
      exact Or.inr ((maskedSubblock_cases hgraph h).imp_right fun henters => ⟨index, rfl, henters⟩)

/-- Before the run of a subblock and after it, only notes are added. -/
theorem noted_entering (store : Store Context) (index : Nat) :
    Noted store (entering store index) :=
  noted_one store store.state.enter fun _ _ => Event.noConfusion

theorem Enters.exists_run {index : Nat}
    (h : Enters body config runGraph store index result after) :
    ∃ graph ran inner, runGraph graph (entering store index) = some (ran, inner) ∧
      Noted inner after ∧ after.state.scope = inner.state.scope := by
  cases h with
  | failed _ _ hrun => exact ⟨_, _, _, hrun, noted_none _ _, rfl⟩
  | completed _ _ hrun =>
    exact ⟨_, _, _, hrun, noted_one _ _ fun _ _ => Event.noConfusion, rfl⟩
  | malformed _ _ hrun => exact ⟨_, _, _, hrun, noted_none _ _, rfl⟩
  | unrecorded _ _ hrun => exact ⟨_, _, _, hrun, noted_none _ _, rfl⟩

theorem Yields.depth_eq {ctx ctx' : Context} {target : Target} {range : Interval}
    (h : Yields body config ctx target args range ctx') : ctx'.depth = ctx.depth := by
  cases h with
  | @getIndex name _ expr _ _ _ hresolve =>
    have hdepth := depth_resolve ctx config.recheck name expr
    rw [hresolve] at hdepth
    exact hdepth
  | _ => rfl

end Analysis

end LoopBounds
