/-
Subblocks that refer to each other in a circle.

A body may hold references that lead back to where they started. The depth limit
cuts off the runs along them (`nesting_cut_off`):

* every analysis ends, at depth zero, with or without an error;
* it ends with an error if a cycle of references can be reached from the root;
* it finds its subblocks nested too deep only if a chain of references from the
  root is longer than the limit.

A node that has an interval is skipped, so the limit alone does not say that a
cycle is met: it could lie behind a node that is never entered. What rules this
out is that masked nodes get their intervals from the inside out. In a run without
an error every masked node that has an interval refers to a `Grounded` subblock,
one from which all chains of references end.
-/
import LoopBounds.Proofs.Analysis.Coverage
import LoopBounds.Proofs.Analysis.Failure

namespace LoopBounds

namespace Body

/-- References cannot be followed from the subblock without end. -/
def Grounded (body : Body) (index : Nat) : Prop :=
  Acc (fun inner outer => body.Refers (.subblock outer) inner) index

variable {body : Body} {index : Nat}

/-- A chain with a link starts with one. -/
theorem Chain.exists_first {start block : Block} {links : Nat}
    (h : body.Chain start (links + 1) block) :
    ∃ first, body.Refers start first ∧ body.Chain (.subblock first) links block := by
  induction links generalizing block with
  | zero =>
    cases h with
    | link hstart href =>
      cases hstart
      exact ⟨_, href, .start⟩
  | succ links ih =>
    cases h with
    | link hchain href =>
      obtain ⟨first, hfirst, hrest⟩ := ih hchain
      exact ⟨first, hfirst, hrest.link href⟩

/-- No chain leads from a grounded subblock back to it. -/
theorem Grounded.not_cyclic (h : body.Grounded index) (links : Nat) :
    ¬ body.Chain (.subblock index) (links + 1) (.subblock index) := by
  induction h with
  | intro index _ ih =>
    intro hcycle
    -- a cycle through a block is one through the next block on it
    obtain ⟨next, hnext, hrest⟩ := hcycle.exists_first
    exact ih next hnext (hrest.link hnext)

end Body

namespace Analysis

variable {body : Body} {config : Config}

/-- A subblock all nodes of which have intervals is grounded, if those it refers to are. -/
theorem grounded_of_allEntered {bounds : Bounds} {index : Nat} {graph : Graph}
    (hgraph : body.subblocks[index]? = some graph) (hsub : ∀ m ∈ graph.nodes, m.id ∈ bounds)
    (h : AllEntered body (fun inner _ _ => body.Grounded inner) bounds) : body.Grounded index := by
  refine Acc.intro _ ?_
  intro inner href
  obtain ⟨hinner, m, ⟨graph', hgraph', hmem⟩, htarget⟩ := Body.refers_iff.1 href
  rw [Body.graph?, hgraph, Option.some_inj] at hgraph'
  rw [← hgraph'] at hmem
  exact h m (subblock_mem_nodes hgraph m hmem) inner _ htarget (List.getElem?_eq_getElem hinner)
    (hsub m hmem)

/-- If the analysis of a body gives an answer, no block that the root leads to is on a cycle. -/
theorem not_cyclic_of_answer (hids : body.DistinctIds) {answer : Bounds}
    (hanswer : (Engine.new body config).bounds.answer = .ok answer) {block : Block}
    (hreach : body.Reachable block) (links : Nat) : ¬ body.Chain block (links + 1) block := by
  intro hcycle
  have hcompletes := completes_root hids hanswer
  have hgrounded : AllEntered body (fun index _ _ => body.Grounded index) answer :=
    hcompletes.keeps Body.has_root
      (invariant_allEntered hids (fun _ _ h => h) grounded_of_allEntered .root)
      (allEntered_initialBounds hids)
  obtain ⟨k, hchain⟩ := hreach
  cases id hcycle with
  | @link _ last index hrest href =>
    -- the node that closes the cycle lies below the root, so it has an interval
    obtain ⟨hindex, node, hnode, htarget⟩ := Body.refers_iff.1 href
    have hbelow : body.Below .root node := ⟨_, last, hchain.trans hrest, hnode⟩
    have hsub := hgrounded node hbelow.mem_nodes index _ htarget (List.getElem?_eq_getElem hindex)
      (hcompletes.mem_of_below hids hbelow)
    exact hsub.not_cyclic links hcycle

end Analysis

/-- **Nesting is cut off.** The root is run to an end, which is the same for any number of levels
above the depth limit. A cycle of references that the root leads to makes the analysis fail; it
fails for its nesting only where a chain of references from the root is longer than the limit; and
whatever comes of it, the depth is zero again. -/
theorem nesting_cut_off {body : Body} (hbuilt : body.Built) (config : Config) :
    (∃ result store, (∀ levels, config.maxDepth < levels →
        (Analysis.interpreter body config).run levels body.root body.initialStore =
          some (result, store)) ∧
      (Engine.new body config).bounds.answer = result.map (fun _ => store.bounds) ∧
      (Engine.new body config).bounds.engine.context = store.state) ∧
    ((∃ block, body.Reachable block ∧ ∃ links, body.Chain block (links + 1) block) →
      ∃ e, (Engine.new body config).bounds.answer = .error e) ∧
    (∀ limit, (Engine.new body config).bounds.answer = .error (.nestingTooDeep limit) →
      limit = config.maxDepth ∧
        ∃ links block, body.Chain .root links block ∧ config.maxDepth < links) ∧
    (Engine.new body config).bounds.engine.context.depth = 0 := by
  obtain ⟨result, store, hrun, hdepth, hreply⟩ := Analysis.exists_run body config
  refine ⟨⟨result, store, ?_, by rw [hreply], by rw [hreply]⟩, ?_, ?_, by rw [hreply]; exact hdepth⟩
  · intro levels hlevels
    exact Interpreter.run_mono hlevels hrun
  · rintro ⟨block, hreach, links, hcycle⟩
    cases hanswer : (Engine.new body config).bounds.answer with
    | error e => exact ⟨e, rfl⟩
    | ok answer =>
      exact absurd hcycle (Analysis.not_cyclic_of_answer hbuilt.distinctIds hanswer hreach links)
  · intro limit hanswer
    exact Analysis.exists_chain_of_nestingTooDeep hanswer

/-- A body with two subblocks that refer to each other. -/
def circling : Body :=
  (Builder.afterAll [
    .subblock,
    .subblock,
    .push (.subblock 0) (.op "constant") [.int 1],
    .push (.subblock 0) (.maskedSubblock 1) [.node 0, .int 0],
    .push (.subblock 0) .output [.node 1],
    .push (.subblock 1) (.op "constant") [.int 2],
    .push (.subblock 1) (.maskedSubblock 0) [.node 3, .int 0],
    .push (.subblock 1) .output [.node 4],
    .push .root (.op "constant") [.int 3],
    .push .root (.maskedSubblock 0) [.node 6, .int 0]]).body

/-- The analysis goes around the cycle until its depth limit, and fails. -/
theorem nesting_cut_off_circling :
    (∃ e, (Engine.new circling { maxDepth := 5 }).bounds.answer = .error e) ∧
      (Engine.new circling { maxDepth := 5 }).bounds.engine.context.depth = 0 := by
  have hbuilt : circling.Built := ⟨_, rfl⟩
  have hreach : circling.Reachable (.subblock 0) :=
    ⟨1, Body.Chain.start.link ⟨by decide, _, rfl, by decide⟩⟩
  have hout : circling.Refers (.subblock 0) 1 := ⟨by decide, _, rfl, by decide⟩
  have hback : circling.Refers (.subblock 1) 0 := ⟨by decide, _, rfl, by decide⟩
  obtain ⟨-, hcyclic, -, hdepth⟩ := nesting_cut_off hbuilt { maxDepth := 5 }
  exact ⟨hcyclic ⟨.subblock 0, hreach, 1, (Body.Chain.start.link hout).link hback⟩, hdepth⟩

end LoopBounds
