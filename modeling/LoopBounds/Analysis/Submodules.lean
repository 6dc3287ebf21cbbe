/-
The submodules of the analysis.

Three targets need more than the intervals of their operands: an index is
resolved in the scope, an indirect variable is bound in the scope, and a masked
subblock is run in the same store, which gives it the interval of its output.
The literal that a masked node has for where its mask does not hold plays no
part.

A subblock is entered only below the depth limit, so nested runs end whatever
the subblocks refer to (`run_endsAt`).
-/
import LoopBounds.Analysis.Context
import LoopBounds.Body
import LoopBounds.Interpreter.Basic

namespace LoopBounds.Analysis

/-- Resolves the index named by the first operand. -/
def getIndex (body : Body) (recheck : Recheck) (ctx : Context) (args : List Value) :
    Procedure Context :=
  match args with
  | .name name :: _ =>
    match body.indexExprs[name]? with
    | none => .finish ctx (.error (.unknownIndex name))
    | some expr =>
      match ctx.resolve recheck name expr with
      | (.ok range, after) => .note (.resolved name expr range) (.finish after (.ok range))
      | (.error e, after) => .finish after (.error e)
  | _ => .finish ctx (.error (.invalidOperand Target.getIndex.text 0))

/-- Binds an indirect variable to the interval of the first operand. -/
def setIndirect (var : Symbol) (ctx : Context) (args : List Value) : Procedure Context :=
  match args with
  | .range range :: _ => .note (.bound var range) (.finish (ctx.bind var range) (.ok range))
  | _ =>
    .finish ctx (.error (.notAnInterval ("set_indirect(" ++ var ++ ")")
      ((args.head?.map Value.text).getD "nothing")))

/-- Runs a subblock, which has the interval of its only output. -/
def maskedSubblock (maxDepth : Nat) (index : Nat) (graph : Graph) (ctx : Context) :
    Procedure Context :=
  if ctx.depth < maxDepth then
    .note (.entered index (ctx.depth + 1)) <| .run graph ctx.enter fun result inner bounds =>
      match result, graph.outputs with
      | .error e, _ => .finish inner.leave (.error e)
      -- from here on the subblock was run to its end, which counts whatever its outputs are
      | .ok (), [output] =>
        match bounds[output.id]? with
        | some range => .note (.left index range) (.finish inner.leave.countSubblock (.ok range))
        | none => .finish inner.leave.countSubblock (.error (.undefinedNode output.id))
      | .ok (), outputs =>
        .finish inner.leave.countSubblock (.error (.malformedSubblock index outputs.length))
  else
    .finish ctx (.error (.nestingTooDeep maxDepth))

/-- The submodules for the indices, indirect variables and subblocks of a body. None of them looks
at the intervals it is given, and a masked one not at its operands either. -/
def submodule? (body : Body) (config : Config) : Target → Option (Submodule Context)
  | .getIndex => some fun ctx _ args => getIndex body config.recheck ctx args
  | .setIndirect index =>
    body.indirectVars[index]?.map fun var ctx _ args => setIndirect var ctx args
  | .maskedSubblock index =>
    body.subblocks[index]?.map fun graph ctx _ _ => maskedSubblock config.maxDepth index graph ctx
  | _ => none

/-- The interpreter of the analysis. -/
def interpreter (body : Body) (config : Config) : Interpreter Context where
  handler := .valueRange
  submodule? := submodule? body config

/-! ### Every run ends -/

/-- The levels sufficed, and the run came out at the depth `depth`. -/
def EndsAt (depth : Nat) (outcome : Outcome Context α) : Prop :=
  ∃ result store, outcome = some (result, store) ∧ store.state.depth = depth

@[simp] theorem depth_resolve (ctx : Context) (recheck : Recheck) (name : String) (expr : Expr) :
    (ctx.resolve recheck name expr).2.depth = ctx.depth := by
  rw [Context.resolve]
  split
  · rfl
  · split
    · split <;> rfl
    · rfl

theorem endsAt_getIndex (body : Body) (recheck : Recheck) (args : List Value)
    (runGraph : Graph → Store Context → Outcome Context Unit) (store : Store Context) :
    EndsAt store.state.depth ((getIndex body recheck store.state args).perform runGraph store) := by
  unfold getIndex
  split
  · rename_i name _
    split
    · exact ⟨_, _, rfl, rfl⟩
    · rename_i expr _
      have hdepth := depth_resolve store.state recheck name expr
      split <;> rename_i heq <;> rw [heq] at hdepth <;> exact ⟨_, _, rfl, hdepth⟩
  · exact ⟨_, _, rfl, rfl⟩

theorem endsAt_setIndirect (var : Symbol) (args : List Value)
    (runGraph : Graph → Store Context → Outcome Context Unit) (store : Store Context) :
    EndsAt store.state.depth ((setIndirect var store.state args).perform runGraph store) := by
  unfold setIndirect
  split <;> exact ⟨_, _, rfl, rfl⟩

theorem endsAt_maskedSubblock (maxDepth index : Nat) (graph : Graph)
    (runGraph : Graph → Store Context → Outcome Context Unit) (store : Store Context)
    (hrun : ∀ inner : Store Context, inner.state.depth = store.state.depth + 1 →
      inner.state.depth ≤ maxDepth → EndsAt inner.state.depth (runGraph graph inner)) :
    EndsAt store.state.depth
      ((maskedSubblock maxDepth index graph store.state).perform runGraph store) := by
  unfold maskedSubblock
  split
  · rename_i hlt
    obtain ⟨result, after, hafter, hdepth⟩ := hrun
      { store.note (.entered index (store.state.depth + 1)) with state := store.state.enter }
      rfl hlt
    have hleave : after.state.leave.depth = store.state.depth := by
      simp [Context.leave, hdepth, Context.enter]
    simp only [Procedure.perform, hafter]
    split
    · exact ⟨_, _, rfl, hleave⟩
    · split <;> exact ⟨_, _, rfl, hleave⟩
    · exact ⟨_, _, rfl, hleave⟩
  · exact ⟨_, _, rfl, rfl⟩

theorem endsAt_eval (body : Body) (config : Config) (target : Target) (args : List Value)
    (runGraph : Graph → Store Context → Outcome Context Unit) (store : Store Context)
    (hrun : ∀ (graph : Graph) (inner : Store Context),
      inner.state.depth = store.state.depth + 1 →
      inner.state.depth ≤ config.maxDepth → EndsAt inner.state.depth (runGraph graph inner)) :
    EndsAt store.state.depth ((interpreter body config).eval runGraph target args store) := by
  unfold Interpreter.eval
  split
  · rename_i submodule hsub
    cases target with
    | getIndex =>
      cases hsub
      exact endsAt_getIndex ..
    | setIndirect index =>
      obtain ⟨var, -, rfl⟩ := Option.map_eq_some_iff.1 hsub
      exact endsAt_setIndirect ..
    | maskedSubblock index =>
      obtain ⟨graph, -, rfl⟩ := Option.map_eq_some_iff.1 hsub
      exact endsAt_maskedSubblock _ _ _ _ _ (hrun graph)
    | op _ => cases hsub
    | load => cases hsub
    | reduction => cases hsub
    | output => cases hsub
  · split <;> exact ⟨_, _, rfl, rfl⟩

theorem endsAt_runNodes (body : Body) (config : Config)
    (runGraph : Graph → Store Context → Outcome Context Unit) (nodes : List Node)
    (store : Store Context)
    (hrun : ∀ (graph : Graph) (inner : Store Context),
      inner.state.depth = store.state.depth + 1 →
      inner.state.depth ≤ config.maxDepth → EndsAt inner.state.depth (runGraph graph inner)) :
    EndsAt store.state.depth ((interpreter body config).runNodes runGraph nodes store) := by
  induction nodes generalizing store with
  | nil => exact ⟨_, _, rfl, rfl⟩
  | cons node rest ih =>
    rw [Interpreter.runNodes]
    split
    · exact ih (store.note (.skipped node.id)) hrun
    · split
      · exact ⟨_, _, rfl, rfl⟩
      · rename_i args _
        obtain ⟨result, after, hafter, hdepth⟩ :=
          endsAt_eval body config node.target args runGraph store hrun
        rw [hafter]
        cases result with
        | error e => exact ⟨_, _, rfl, hdepth⟩
        | ok range =>
          have hrest := ih (after.record node range)
          rw [show (after.record node range).state.depth = store.state.depth from hdepth] at hrest
          exact hrest hrun

/-- The depth limit bounds the levels a run needs, and a run comes out at the depth it started
from, with or without an error. -/
theorem run_endsAt (body : Body) (config : Config) (levels : Nat) (graph : Graph)
    (store : Store Context) (hlow : store.state.depth ≤ config.maxDepth)
    (hhigh : config.maxDepth < store.state.depth + levels) :
    EndsAt store.state.depth ((interpreter body config).run levels graph store) := by
  induction levels generalizing graph store with
  | zero => omega
  | succ levels ih =>
    exact endsAt_runNodes body config _ graph.nodes store fun graph inner hdepth hle =>
      ih graph inner hle (by omega)

end LoopBounds.Analysis
