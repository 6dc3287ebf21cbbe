/-
The analysis of a loop body.

`Body.analyze` bounds the values of all nodes that the root graph evaluates. It
starts from

* the loop variables, each between `0` and its upper bound if that is a number;
* the nodes whose value nothing is known about, that is the loads, reductions
  and masked subblocks and everything computed from them. All of these are taken
  as unbounded and not evaluated, except those that have an effect of their own
  (`Target.isRecomputed`).
-/
import LoopBounds.Analysis.Submodules
import LoopBounds.Dependents

namespace LoopBounds

/-- The range of a loop variable with this upper bound. -/
def Expr.loopRange (upper : Expr) : Interval :=
  if upper.isConcrete then .between 0 (max (upper.range ∅).high 0)
  else .nonnegative

namespace Body

/-- What is known about the symbols before the body is run. -/
def initialScope (body : Body) : Scope :=
  body.varRanges.foldl (fun scope decl => scope.insert decl.1 decl.2.loopRange) ∅

/-- The nodes taken as unbounded: the seeds and all that is computed from them. -/
def unbounded (body : Body) : NodeSet :=
  body.users.dependents ((body.nodes.filter (·.target.isUnboundedSeed)).map Node.id)

/-- The unbounded nodes that are not evaluated. -/
def preseeded (body : Body) : List Node :=
  let unbounded := body.unbounded
  body.nodes.filter fun node => node.id ∈ unbounded && !node.target.isRecomputed

/-- The intervals known before the body is run. -/
def initialBounds (body : Body) : Bounds :=
  body.preseeded.foldl (fun bounds node => bounds.insert node.id .unknown) ∅

/-- What an analysis of the body starts from. -/
def initialStore (body : Body) : Store Context where
  state := { scope := body.initialScope }
  bounds := body.initialBounds
  log := #[.seeded body.initialBounds.size body.nodes.length]

/-- An analysis ends, at the depth where it started. -/
theorem endsAt_root (body : Body) (config : Config) :
    Analysis.EndsAt 0 ((Analysis.interpreter body config).run (config.maxDepth + 1)
      body.root body.initialStore) :=
  Analysis.run_endsAt body config _ _ body.initialStore (Nat.zero_le _) (by omega)

/-- Runs the root graph, and with it the subblocks it refers to. -/
def run (body : Body) (config : Config) : Except Error Unit × Store Context :=
  ((Analysis.interpreter body config).run (config.maxDepth + 1) body.root body.initialStore).get
    (by
      obtain ⟨_, _, h, _⟩ := body.endsAt_root config
      rw [h]
      rfl)

/-- The intervals of the nodes, or the error that ended the run; and what the run left. -/
def analyze (body : Body) (config : Config) : Except Error Bounds × Store Context :=
  let (result, store) := body.run config
  (result.map fun _ => store.bounds, store)

end Body

end LoopBounds
