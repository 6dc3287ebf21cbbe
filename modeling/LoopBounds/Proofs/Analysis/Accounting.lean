/-
The work of an analysis: what is evaluated, and what the counts say.

An engine that answers has evaluated every node of the root, and of the subblocks
that references lead to from there, exactly once, however often a subblock is
referred to; only the nodes taken as unbounded are left out
(`Completes.mem_evaluated`). The counts of its context are therefore the numbers
of indices, bindings and masked nodes among them (`Completes.stats_eq`).

An engine is asked again at the cost of a hit and nothing else
(`Engine.asked_of_answer`). `nodes_evaluated_once` puts the two together.
-/
import LoopBounds.Proofs.Analysis.Adequacy
import Mathlib.Data.Set.Card

namespace LoopBounds

/-! ### Counts -/

/-- The counts that the evaluation of the nodes leaves. -/
def Stats.of (nodes : List Node) : Stats where
  resolutions := nodes.countP (·.target = .getIndex)
  subblockRuns := nodes.countP (·.target matches .maskedSubblock _)
  indirectBindings := nodes.countP (·.target matches .setIndirect _)

theorem Stats.of_perm {nodes others : List Node} (h : nodes.Perm others) :
    Stats.of nodes = Stats.of others := by
  simp only [Stats.of, h.countP_eq]

variable {body : Body} {config : Config}

/-- The number of nodes of the root, and of the subblocks that references lead to from there, that
have the property. -/
noncomputable def Body.countBelow (body : Body) (property : Node → Prop) : Nat :=
  {node | body.Below .root node ∧ property node}.ncard

namespace Analysis

variable {skippable : Node → Prop} {ctx ctx' after : Context} {bounds bounds' : Bounds}
  {node : Node} {nodes : List Node} {args : List Value} {range : Interval}

theorem stats_of_resolve {recheck : Recheck} {name : String} {expr : Expr}
    (h : ctx.resolve recheck name expr = (.ok range, after)) :
    after.stats = { ctx.stats with resolutions := ctx.stats.resolutions + 1 } := by
  simp only [Context.resolve] at h
  split at h
  · cases h
    rfl
  · split at h
    · split at h <;> cases h
      rfl
    · cases h

/-- To evaluate a node counts it. -/
theorem Yields.stats_eq (h : Yields body config ctx node.target args range after)
    (hstats : ctx.stats = .of nodes) : after.stats = .of (node :: nodes) := by
  obtain ⟨id, target, operands⟩ := node
  cases h with
  | getIndex _ hresolve =>
    rw [stats_of_resolve hresolve, hstats]
    simp [Stats.of]
  | setIndirect =>
    show { ctx.stats with indirectBindings := ctx.stats.indirectBindings + 1 } = _
    rw [hstats]
    simp [Stats.of]
  | _ =>
    rw [hstats]
    simp [Stats.of]

theorem invariant_stats (hids : body.DistinctIds) (block : Block) :
    Invariant body config block fun ctx bounds =>
      body.initialBounds.Within bounds ∧ ctx.stats = .of (body.evaluated bounds) where
  evaluate {_ _ range _ _ _} hbelow hmem hargs hyields h := by
    refine ⟨h.1.trans (Bounds.within_insert hmem range), ?_⟩
    rw [hyields.stats_eq h.2]
    exact (Stats.of_perm (hids.evaluated_insert hbelow.mem_nodes hmem
      (fun hin => hmem (h.1.mem hin)) range)).symm
  enter h := h
  leave {node index _ _ range ctx _} hbelow htarget _ hmem _ _ _ h := by
    refine ⟨h.1.trans (Bounds.within_insert hmem range), ?_⟩
    rw [Stats.of_perm (hids.evaluated_insert hbelow.mem_nodes hmem
      (fun hin => hmem (h.1.mem hin)) range)]
    show { ctx.stats with subblockRuns := ctx.stats.subblockRuns + 1 } = _
    rw [h.2]
    simp [Stats.of, htarget]

/-- What was evaluated for an answer lies below the root and is not taken as unbounded. -/
theorem Completes.mem_evaluated (hids : body.DistinctIds)
    (h : Completes body config skippable body.root.nodes ctx body.initialBounds ctx' bounds') :
    node ∈ body.evaluated bounds' ↔ body.Below .root node ∧ node ∉ body.preseeded := by
  rw [Body.mem_evaluated, h.mem_iff hids]
  constructor
  · rintro ⟨hnode, hseeded | ⟨m, hbelow, hid⟩, hnew⟩
    · exact absurd hseeded hnew
    · rw [← hids.eq_of_id_eq hbelow.mem_nodes hnode hid] at hnew ⊢
      exact ⟨hbelow, mt (Body.mem_initialBounds_iff hids hbelow.mem_nodes).2 hnew⟩
  · rintro ⟨hbelow, hseeded⟩
    exact ⟨hbelow.mem_nodes, Or.inr ⟨node, hbelow, rfl⟩,
      mt (Body.mem_initialBounds_iff hids hbelow.mem_nodes).1 hseeded⟩

/-- To count among the evaluated nodes is to count among those below the root. -/
theorem Completes.countP_evaluated (hids : body.DistinctIds)
    (h : Completes body config skippable body.root.nodes ctx body.initialBounds ctx' bounds')
    {counted : Node → Bool} {property : Node → Prop}
    (hiff : ∀ node ∈ body.nodes, property node ↔ node ∉ body.preseeded ∧ counted node) :
    (body.evaluated bounds').countP counted = body.countBelow property := by
  have hnodup := (hids.nodup_evaluated bounds').filter counted
  rw [List.countP_eq_length_filter, ← List.toFinset_card_of_nodup hnodup, Body.countBelow,
    ← Set.ncard_coe_finset]
  congr 1
  ext node
  rw [Finset.mem_coe, List.mem_toFinset, List.mem_filter, h.mem_evaluated hids, and_assoc]
  exact and_congr_right fun hbelow => (hiff node hbelow.mem_nodes).symm

/-- The counts after a run of the root. -/
theorem Completes.stats_eq (hids : body.DistinctIds)
    (h : Completes body config skippable body.root.nodes { scope := body.initialScope }
      body.initialBounds ctx' bounds') :
    ctx'.stats =
      { resolutions := body.countBelow fun node =>
          node.target = .getIndex ∧ node.id ∉ body.unbounded
        subblockRuns := body.countBelow fun node => ∃ index, node.target = .maskedSubblock index
        indirectBindings := body.countBelow fun node =>
          ∃ index, node.target = .setIndirect index } := by
  have hstart : ({} : Stats) = .of (body.evaluated body.initialBounds) := by
    rw [Body.evaluated_initialBounds]
    rfl
  have hstats := (h.keeps Body.has_root (invariant_stats hids .root) ⟨.refl _, hstart⟩).2
  rw [hstats, Stats.of]
  congr 1
  -- of the targets that count, only an index can be taken as unbounded
  all_goals
    refine h.countP_evaluated hids fun node hnode => ?_
    rw [Body.mem_preseeded]
    cases htarget : node.target <;> simp [hnode, Target.isRecomputed]

end Analysis

/-! ### Engines that are asked again -/

/-- The engine after it was asked for the intervals so many times. -/
def Engine.asked (engine : Engine) : Nat → Engine
  | 0 => engine
  | calls + 1 => engine.bounds.engine.asked calls

/-- An engine with an answer only counts how often it is asked. -/
theorem Engine.asked_of_answer {engine : Engine} {answer : Except Error Bounds}
    (h : engine.answer? = some answer) (calls : Nat) :
    engine.asked calls =
      { engine with context.stats.cacheHits := engine.context.stats.cacheHits + calls } := by
  induction calls generalizing engine with
  | zero => rfl
  | succ calls ih =>
    have hbounds : engine.bounds.engine = engine.countHit := by simp only [Engine.bounds, h]
    have hkept : engine.countHit.answer? = some answer := h
    rw [asked, hbounds, ih hkept]
    simp only [countHit, Nat.add_right_comm, Nat.add_assoc]

/-- **Every node is evaluated once.** If a new engine answers, then its first reply tells each node
of the root, and of the subblocks that references lead to from there, to be evaluated exactly once,
but for those taken as unbounded. However often it is asked, the answer and the scope are those of
the first time, nothing is evaluated again, and the counts are the numbers of nodes evaluated. -/
theorem nodes_evaluated_once {answer : Bounds} (hbuilt : body.Built)
    (hanswer : (Engine.new body config).bounds.answer = .ok answer) :
    (∀ node, body.Below .root node → node ∉ body.preseeded →
      (evaluations (Engine.new body config).bounds.events).count node = 1) ∧
    ∀ calls, ((Engine.new body config).asked calls).bounds.answer = .ok answer ∧
      ((Engine.new body config).asked (calls + 1)).bounds.events = #[] ∧
      ((Engine.new body config).asked (calls + 1)).context.scope =
        (Engine.new body config).bounds.engine.context.scope ∧
      ((Engine.new body config).asked (calls + 1)).context.stats =
        { resolutions := body.countBelow fun node =>
            node.target = .getIndex ∧ node.id ∉ body.unbounded
          subblockRuns := body.countBelow fun node => ∃ index, node.target = .maskedSubblock index
          indirectBindings := body.countBelow fun node => ∃ index, node.target = .setIndirect index
          cacheHits := calls } := by
  have hids := hbuilt.distinctIds
  have hcompletes := Analysis.completes_root hids hanswer
  obtain ⟨log, hlog, hreply⟩ := Analysis.reply_of_completes hids hcompletes
  generalize (Engine.new body config).bounds.engine.context = ctx at hcompletes hreply
  -- from the second time on, the engine has its answer
  have hasked : ∀ calls, (Engine.new body config).asked (calls + 1) =
      { body, config, answer? := some (.ok answer)
        context := { ctx with stats.cacheHits := ctx.stats.cacheHits + calls } } := by
    intro calls
    rw [Engine.asked, hreply]
    exact Engine.asked_of_answer rfl calls
  constructor
  · intro node hbelow hseeded
    rw [hreply, hlog.count_eq]
    exact List.count_eq_one_of_mem (hids.nodup_evaluated answer)
      ((hcompletes.mem_evaluated hids).2 ⟨hbelow, hseeded⟩)
  · intro calls
    refine ⟨?_, ?_, ?_, ?_⟩
    · cases calls with
      | zero => exact hanswer
      | succ calls =>
        rw [hasked]
        rfl
    · rw [hasked]
      rfl
    · rw [hasked]
    · rw [hasked]
      show { ctx.stats with cacheHits := ctx.stats.cacheHits + calls } = _
      rw [hcompletes.stats_eq hids]
      simp only [Nat.zero_add]

theorem nodes_evaluated_once_layered : ∃ answer,
    (Engine.new layered {}).bounds.answer = .ok answer ∧
    (evaluations (Engine.new layered {}).bounds.events).count
      ⟨3, .maskedSubblock 0, [.node 2, .int 0]⟩ = 1 ∧
    ((Engine.new layered {}).asked 5).context.stats =
      { resolutions := 3, subblockRuns := 3, indirectBindings := 1, cacheHits := 4 } ∧
    layered.countBelow (fun node => ∃ index, node.target = .maskedSubblock index) = 3 := by
  obtain ⟨answer, hanswer⟩ := exists_answer_layered
  have hstats : ((Engine.new layered {}).asked 5).context.stats =
      { resolutions := 3, subblockRuns := 3, indirectBindings := 1, cacheHits := 4 } := by
    decide +kernel
  obtain ⟨honce, hasked⟩ := nodes_evaluated_once built_layered hanswer
  refine ⟨answer, hanswer, ?_, hstats, ?_⟩
  · exact honce _ below_layered (Body.not_preseeded rfl)
  · have hcounts := (hasked 4).2.2.2
    rw [hstats, Stats.mk.injEq] at hcounts
    exact hcounts.2.1.symm

end LoopBounds
