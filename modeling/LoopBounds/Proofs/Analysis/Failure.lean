/-
Why an analysis fails.

An error ends all runs it lies in and is passed on unchanged. So it can be traced
back to a single node: one that references from the root lead to, and that was
refused in a context as deep as the node lies (`exists_cause`). `Cause` lists what
can be wrong with such a node.

Two consequences: an analysis that finds its subblocks nested too deep has reached
a masked node at its depth limit (`exists_chain_of_nestingTooDeep`), and none ever
finds the ranges of an index disjoint (`answer_ne_disjointBounds`).
-/
import LoopBounds.Proofs.Analysis.Skipping
import LoopBounds.Proofs.Interpreter.Contract

namespace LoopBounds

namespace Analysis

variable {body : Body} {config : Config} {ctx after : Context}

/-- Whatever is refused leaves the scope as it was. -/
theorem Refuses.scope_eq {target : Target} {args : List Value} {e : Error}
    (h : Refuses body config ctx target args e after) : after.scope = ctx.scope := by
  cases h <;> rfl

/-! ### Causes -/

/-- What is wrong with a node that ends a run in this context with this error. -/
inductive Cause (body : Body) (config : Config) (ctx : Context) (node : Node) : Error → Prop where
  /-- It reads a node that has no interval yet. -/
  | unread {id} : .node id ∈ node.args → Cause body config ctx node (.undefinedNode id)
  /-- Its target cannot be evaluated on its operands. -/
  | refused {args e after} : Refuses body config ctx node.target args e after →
      Cause body config ctx node e
  /-- Its subblock has not exactly one output. -/
  | malformed {index graph} : node.target = .maskedSubblock index →
      body.subblocks[index]? = some graph → (∀ output, graph.outputs ≠ [output]) →
      Cause body config ctx node (.malformedSubblock index graph.outputs.length)
  /-- The output of its subblock has no interval. -/
  | unrecorded {index graph output} : node.target = .maskedSubblock index →
      body.subblocks[index]? = some graph → graph.outputs = [output] →
      Cause body config ctx node (.undefinedNode output.id)

/-- A node that references from the root lead to is the cause of the error, in a context as deep as
it lies. -/
def Caused (body : Body) (config : Config) (e : Error) : Prop :=
  ∃ links block node ctx, body.Chain .root links block ∧ body.Has block node ∧
    ctx.depth = links ∧ Cause body config ctx node e

/-- While a block is run, the depth is the length of a chain of references to it; what fails has a
cause. -/
def causes (body : Body) (config : Config) : Contract Context Nat where
  holds depth graph store := store.state.depth = depth ∧
    ∃ block, body.graph? block = some graph ∧ body.Chain .root depth block
  fails _ e _ := Caused body config e

theorem obeys_causes (body : Body) (config : Config) :
    (interpreter body config).Obeys (causes body config) where
  skip h _ := h
  unread := by
    rintro depth graph node store e hnode ⟨hdepth, block, hgraph, hchain⟩ hargs
    obtain ⟨id, hmem, -, rfl⟩ := Bounds.exists_of_values_error hargs
    exact ⟨depth, block, node, store.state, hchain, ⟨graph, hgraph, hnode⟩, hdepth, .unread hmem⟩
  evaluate := by
    rintro depth graph node store args runGraph result after hnode ⟨hdepth, block, hgraph, hchain⟩
      - - hkept heval
    have hhas : body.Has block node := ⟨graph, hgraph, hnode⟩
    have hcaused : ∀ {e}, Cause body config store.state node e → Caused body config e :=
      fun hcause => ⟨depth, block, node, store.state, hchain, hhas, hdepth, hcause⟩
    rcases eval_cases heval with ⟨range, rfl, hyields, -⟩ | ⟨e, rfl, hrefuses, -⟩ |
      ⟨index, htarget, henters⟩
    · exact ⟨hyields.depth_eq.trans hdepth, block, hgraph, hchain⟩
    · exact hcaused (.refused hrefuses)
    · -- the subblock is run one link further on
      have hsub : ∀ {sub : Graph}, body.subblocks[index]? = some sub →
          (causes body config).holds (depth + 1) sub (entering store index) :=
        fun hindex => ⟨congrArg (· + 1) hdepth, .subblock index, hindex,
          hchain.enter hhas htarget hindex⟩
      cases henters with
      | failed hindex _ hrun => exact hkept _ _ _ _ _ (hsub hindex) hrun
      | completed hindex _ hrun =>
        have hinner := (hkept _ _ _ _ _ (hsub hindex) hrun).1
        exact ⟨congrArg (· - 1) hinner, block, hgraph, hchain⟩
      | malformed hindex _ _ houtputs => exact hcaused (.malformed htarget hindex houtputs)
      | unrecorded hindex _ _ houtputs _ => exact hcaused (.unrecorded htarget hindex houtputs)

/-- Every error of an analysis has a cause. -/
theorem exists_cause {e : Error} (h : (Engine.new body config).bounds.answer = .error e) :
    Caused body config e := by
  obtain ⟨result, store, hrun, -, hreply⟩ := exists_run body config
  rw [hreply] at h
  cases result with
  | ok u => cases h
  | error e' =>
    cases h
    exact (obeys_causes body config).run _ 0 _ _ _ _ ⟨rfl, .root, rfl, .start⟩ hrun

/-- Subblocks are found to be nested too deep only where a chain of references is longer than the
limit. -/
theorem exists_chain_of_nestingTooDeep {limit : Nat}
    (h : (Engine.new body config).bounds.answer = .error (.nestingTooDeep limit)) :
    limit = config.maxDepth ∧ ∃ links block, body.Chain .root links block ∧
      config.maxDepth < links := by
  obtain ⟨links, block, node, ctx, hchain, hnode, rfl, hcause⟩ := exists_cause h
  cases hcause with
  | @refused args _ after hrefuses =>
    generalize htarget : node.target = target at hrefuses
    cases hrefuses with
    | tooDeep hindex hdepth =>
      exact ⟨rfl, _, _, hchain.enter hnode htarget hindex, Nat.lt_succ_of_le hdepth⟩

/-- The ranges of an index are never found disjoint. -/
theorem answer_ne_disjointBounds (name : String) (left right : Interval) :
    (Engine.new body config).bounds.answer ≠ .error (.disjointBounds name left right) := by
  intro h
  obtain ⟨_, _, node, ctx, -, -, -, hcause⟩ := exists_cause h
  cases hcause with
  | @refused args _ after hrefuses =>
    generalize node.target = target at hrefuses
    cases hrefuses

end Analysis

end LoopBounds
