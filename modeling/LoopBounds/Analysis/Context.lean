/-
The state of an analysis.

A `Context` is the scope of symbols known so far, the depth of the subblock
being run, and counts of the work done. `Context.resolve` finds the range of an
index and records it under the name of the index. An index that was resolved
before must fit what was recorded then, as the `Recheck` of the analysis asks.
-/
import LoopBounds.Error
import LoopBounds.Expr.Range

namespace LoopBounds

/-- What is asked of an index that is resolved again. -/
inductive Recheck where
  /-- The new range lies within the previous one. -/
  | subset
  /-- The new range is the previous one. -/
  | equal
deriving DecidableEq, Repr

/-- Whether the current range may follow the previous one. -/
def Recheck.accepts : Recheck → (current previous : Interval) → Bool
  | .subset, current, previous => current ≤ previous
  | .equal, current, previous => current = previous

/-- The settings of an analysis. -/
structure Config where
  recheck : Recheck := .subset
  /-- How deep subblocks may lie in each other. -/
  maxDepth : Nat := 16
deriving DecidableEq, Repr

/-- Counts of the work of an analysis. -/
structure Stats where
  /-- Indices resolved. -/
  resolutions : Nat := 0
  /-- Subblocks run. -/
  subblockRuns : Nat := 0
  /-- Indirect variables bound. -/
  indirectBindings : Nat := 0
  /-- Answers given again without a new run. -/
  cacheHits : Nat := 0
deriving DecidableEq, Repr

/-- What an analysis knows besides the intervals of nodes. -/
structure Context where
  scope : Scope
  depth : Nat := 0
  stats : Stats := {}

namespace Context

/-- Records the range of a symbol in place of any earlier one. -/
def assign (ctx : Context) (name : Symbol) (range : Interval) : Context :=
  { ctx with scope := ctx.scope.insert name range }

/-- Counts a resolution of an index. -/
def countResolution (ctx : Context) : Context :=
  { ctx with stats.resolutions := ctx.stats.resolutions + 1 }

/-- Counts a binding of an indirect variable. -/
def countBinding (ctx : Context) : Context :=
  { ctx with stats.indirectBindings := ctx.stats.indirectBindings + 1 }

/-- Counts a run of a subblock. -/
def countSubblock (ctx : Context) : Context :=
  { ctx with stats.subblockRuns := ctx.stats.subblockRuns + 1 }

/-- Goes into a subblock. -/
def enter (ctx : Context) : Context :=
  { ctx with depth := ctx.depth + 1 }

/-- Comes out of a subblock. -/
def leave (ctx : Context) : Context :=
  { ctx with depth := ctx.depth - 1 }

/-- The range of an index by its expression. It is recorded under the name, unless a previous
range of that name does not allow it. -/
def resolve (ctx : Context) (recheck : Recheck) (name : String) (expr : Expr) :
    Except Error Interval × Context :=
  let current := expr.range ctx.scope
  match ctx.scope[name]? with
  | none => (.ok current, ctx.countResolution.assign name current)
  | some previous =>
    -- an attempt counts as a resolution even if it is refused
    if recheck.accepts current previous then
      match current.inter? previous with
      | some range => (.ok range, ctx.countResolution.assign name range)
      | none => (.error (.disjointBounds name current previous), ctx.countResolution)
    else
      (.error (.reresolutionMismatch name previous current), ctx.countResolution)

/-- Binds an indirect variable to a range. -/
def bind (ctx : Context) (var : Symbol) (range : Interval) : Context :=
  ctx.countBinding.assign var range

end Context

end LoopBounds
