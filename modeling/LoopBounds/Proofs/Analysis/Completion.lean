/-
Runs of the analysis that succeed, as a relation.

`Completes` says what a run without an error does, node by node: a node that has
an interval is skipped, any other one is evaluated and recorded, and a masked one
runs its subblock in between.

* `Completes.within`, `Completes.mem_bounds` — intervals, once recorded, stay as
  they are, and in the end all nodes of the run have one;
* `completes_of_run` — a run of the interpreter that succeeds is such a derivation;
* `completes_root` — so is the run behind an answer of an engine.

All that is proved of successful runs is proved by induction on `Completes`. Which
nodes may be skipped is a parameter of the relation, so that what is learned about
skipping can be kept in it.

A masked node gets its interval only after its subblock was run, so it could be
evaluated once more from within. No run that succeeds does that: the node would
have to be recorded before itself (`Completes.masked_not_mem`).
-/
import LoopBounds.Analysis.Engine
import LoopBounds.Proofs.Analysis.Evaluation
import LoopBounds.Proofs.Body.Identity
import LoopBounds.Proofs.Bounds

namespace LoopBounds

namespace Analysis

/-! ### The relation -/

/-- The nodes are run without an error, from a context and intervals to a context and intervals;
the nodes that are left out are among those that may be skipped. -/
inductive Completes (body : Body) (config : Config) (skippable : Node → Prop) :
    List Node → Context → Bounds → Context → Bounds → Prop where
  | done {ctx bounds} : Completes body config skippable [] ctx bounds ctx bounds
  | skipped {node rest ctx bounds ctx' bounds'} : node.id ∈ bounds → skippable node →
      Completes body config skippable rest ctx bounds ctx' bounds' →
      Completes body config skippable (node :: rest) ctx bounds ctx' bounds'
  | evaluated {node rest args range ctx bounds after ctx' bounds'} : node.id ∉ bounds →
      bounds.values node.args = .ok args →
      Yields body config ctx node.target args range after →
      Completes body config skippable rest after (bounds.insert node.id range) ctx' bounds' →
      Completes body config skippable (node :: rest) ctx bounds ctx' bounds'
  | entered {node rest args index graph output range ctx bounds inner mid ctx' bounds'} :
      node.id ∉ bounds → bounds.values node.args = .ok args →
      node.target = .maskedSubblock index → body.subblocks[index]? = some graph →
      ctx.depth < config.maxDepth →
      Completes body config skippable graph.nodes ctx.enter bounds inner mid →
      node.id ∉ mid → graph.outputs = [output] → mid[output.id]? = some range →
      Completes body config skippable rest inner.leave.countSubblock
        (mid.insert node.id range) ctx' bounds' →
      Completes body config skippable (node :: rest) ctx bounds ctx' bounds'

variable {body : Body} {config : Config} {skippable : Node → Prop} {nodes : List Node}
  {ctx ctx' : Context} {bounds bounds' : Bounds}

theorem Completes.within (h : Completes body config skippable nodes ctx bounds ctx' bounds') :
    bounds.Within bounds' := by
  induction h with
  | done => exact .refl _
  | skipped _ _ _ ih => exact ih
  | evaluated hmem _ _ _ ih => exact (Bounds.within_insert hmem _).trans ih
  | entered _ _ _ _ _ _ hmid _ _ _ ihsub ihrest =>
    exact ihsub.trans ((Bounds.within_insert hmid _).trans ihrest)

theorem Completes.mem_bounds
    (h : Completes body config skippable nodes ctx bounds ctx' bounds') {node : Node}
    (hnode : node ∈ nodes) : node.id ∈ bounds' := by
  induction h with
  | done => cases hnode
  | skipped hmem _ hrest ih =>
    rcases List.mem_cons.1 hnode with rfl | hnode
    · exact hrest.within.mem hmem
    · exact ih hnode
  | evaluated _ _ _ hrest ih =>
    rcases List.mem_cons.1 hnode with rfl | hnode
    · exact hrest.within.mem (Bounds.mem_insert.2 (Or.inl rfl))
    · exact ih hnode
  | entered _ _ _ _ _ _ _ _ _ hrest _ ihrest =>
    rcases List.mem_cons.1 hnode with rfl | hnode
    · exact hrest.within.mem (Bounds.mem_insert.2 (Or.inl rfl))
    · exact ihrest hnode

/-- What is run after each other is run as a whole. -/
theorem Completes.append {rest : List Node} {mid : Context} {bounds'' : Bounds}
    (h : Completes body config skippable nodes ctx bounds mid bounds')
    (hrest : Completes body config skippable rest mid bounds' ctx' bounds'') :
    Completes body config skippable (nodes ++ rest) ctx bounds ctx' bounds'' := by
  induction h with
  | done => exact hrest
  | skipped hmem hskip _ ih => exact .skipped hmem hskip (ih hrest)
  | evaluated hmem hargs hyields _ ih => exact .evaluated hmem hargs hyields (ih hrest)
  | entered hmem hargs htarget hgraph hdepth hrun hmid houtputs houtput _ _ ih =>
    exact .entered hmem hargs htarget hgraph hdepth hrun hmid houtputs houtput (ih hrest)

/-- A run is cut in two behind any of its nodes. -/
theorem Completes.split_append {front rest : List Node}
    (h : Completes body config skippable (front ++ rest) ctx bounds ctx' bounds') :
    ∃ mid between, Completes body config skippable front ctx bounds mid between ∧
      Completes body config skippable rest mid between ctx' bounds' := by
  induction front generalizing ctx bounds with
  | nil => exact ⟨ctx, bounds, .done, h⟩
  | cons node front ih =>
    cases h with
    | skipped hmem hskip hrest =>
      obtain ⟨mid, between, hfront, hrest⟩ := ih hrest
      exact ⟨mid, between, .skipped hmem hskip hfront, hrest⟩
    | evaluated hmem hargs hyields hrest =>
      obtain ⟨mid, between, hfront, hrest⟩ := ih hrest
      exact ⟨mid, between, .evaluated hmem hargs hyields hfront, hrest⟩
    | entered hmem hargs htarget hgraph hdepth hrun hmid houtputs houtput hrest =>
      obtain ⟨mid, between, hfront, hrest⟩ := ih hrest
      exact ⟨mid, between,
        .entered hmem hargs htarget hgraph hdepth hrun hmid houtputs houtput hfront, hrest⟩

/-! ### No node is evaluated within itself -/

/-- Every pending node is masked, and its subblock is the graph being run or has a pending node
itself. -/
def Pending (body : Body) (pending : NodeId → Prop) (graph : Graph) : Prop :=
  ∀ node ∈ body.nodes, pending node.id → ∃ index sub, node.target = .maskedSubblock index ∧
    body.subblocks[index]? = some sub ∧ (sub = graph ∨ ∃ m ∈ sub.nodes, pending m.id)

theorem subblock_mem_nodes {index : Nat} {graph : Graph} (h : body.subblocks[index]? = some graph) :
    ∀ node ∈ graph.nodes, node ∈ body.nodes :=
  fun node hnode => (Body.has_subblock h node hnode).mem_nodes

/-- A run that succeeds records no node that is pending when it starts. -/
theorem Completes.pending_not_mem (hids : body.DistinctIds) {pending : NodeId → Prop}
    {graph : Graph} (h : Completes body config skippable nodes ctx bounds ctx' bounds')
    (hnodes : ∀ node ∈ nodes, node ∈ body.nodes ∧ node ∈ graph.nodes)
    (hpending : Pending body pending graph) (hnew : ∀ id, pending id → id ∉ bounds) :
    ∀ id, pending id → id ∉ bounds' := by
  induction h generalizing pending graph with
  | done => exact hnew
  | skipped _ _ _ ih => exact ih (List.forall_mem_cons.1 hnodes).2 hpending hnew
  | @evaluated node _ _ _ _ _ _ _ _ hmem _ hyields _ ih =>
    obtain ⟨⟨hbody, -⟩, hrest⟩ := List.forall_mem_cons.1 hnodes
    refine ih hrest hpending ?_
    intro id hid hin
    rcases Bounds.mem_insert.1 hin with rfl | hin
    · -- a pending node is masked, and this one is not
      obtain ⟨index, sub, htarget, -⟩ := hpending node hbody hid
      rw [htarget] at hyields
      cases hyields
    · exact hnew id hid hin
  | @entered node _ _ index sub _ _ _ _ _ mid _ _ hmem _ htarget hsub _ hrun hmid _ _ _ ihsub
      ihrest =>
    obtain ⟨⟨hbody, hgraph⟩, hrest⟩ := List.forall_mem_cons.1 hnodes
    -- while the subblock is run, the node is pending too
    have hinner : ∀ id, (pending id ∨ id = node.id) → id ∉ mid := by
      refine ihsub (fun m hm => ⟨subblock_mem_nodes hsub m hm, hm⟩) ?_ ?_
      · rintro m hm (hpm | hid)
        · obtain ⟨i, s, ht, hs, heq | ⟨w, hw, hpw⟩⟩ := hpending m hm hpm
          · exact ⟨i, s, ht, hs, Or.inr ⟨node, heq ▸ hgraph, Or.inr rfl⟩⟩
          · exact ⟨i, s, ht, hs, Or.inr ⟨w, hw, Or.inl hpw⟩⟩
        · rw [hids.eq_of_id_eq hm hbody hid]
          exact ⟨index, sub, htarget, hsub, Or.inl rfl⟩
      · rintro id (hid | rfl)
        · exact hnew id hid
        · exact hmem
    -- all nodes of the subblock are recorded by now, so none of them is pending
    have hnot : ¬ pending node.id := by
      intro hp
      obtain ⟨i, s, ht, hs, heq | ⟨w, hw, hpw⟩⟩ := hpending node hbody hp
      · rw [htarget, Target.maskedSubblock.injEq] at ht
        rw [← ht, hsub, Option.some_inj] at hs
        refine hinner node.id (Or.inr rfl) (hrun.mem_bounds ?_)
        rw [hs, heq]
        exact hgraph
      · rw [htarget, Target.maskedSubblock.injEq] at ht
        rw [← ht, hsub, Option.some_inj] at hs
        refine hinner w.id (Or.inl hpw) (hrun.mem_bounds ?_)
        rw [hs]
        exact hw
    refine ihrest hrest hpending ?_
    intro id hid hin
    rcases Bounds.mem_insert.1 hin with rfl | hin
    · exact hnot hid
    · exact hinner id (Or.inl hid) hin

/-- A masked node is not recorded while its subblock is run. -/
theorem Completes.masked_not_mem (hids : body.DistinctIds) {graph : Graph} {node : Node}
    {index : Nat} (h : Completes body config skippable graph.nodes ctx bounds ctx' bounds')
    (hnode : node ∈ body.nodes) (htarget : node.target = .maskedSubblock index)
    (hgraph : body.subblocks[index]? = some graph) (hmem : node.id ∉ bounds) :
    node.id ∉ bounds' := by
  have hpending : Pending body (· = node.id) graph := by
    intro m hm hid
    rw [hids.eq_of_id_eq hm hnode hid]
    exact ⟨index, graph, htarget, hgraph, Or.inl rfl⟩
  refine h.pending_not_mem hids (fun m hm => ⟨subblock_mem_nodes hgraph m hm, hm⟩) hpending ?_
    node.id rfl
  rintro id rfl
  exact hmem

/-! ### From the interpreter -/

theorem completes_of_runNodes (hids : body.DistinctIds)
    {runGraph : Graph → Store Context → Outcome Context Unit}
    (hrun : ∀ (graph : Graph) (start inner : Store Context),
      (∀ node ∈ graph.nodes, node ∈ body.nodes) → runGraph graph start = some (.ok (), inner) →
      Completes body config (fun _ => True) graph.nodes start.state start.bounds inner.state
        inner.bounds) {store after : Store Context} (hnodes : ∀ node ∈ nodes, node ∈ body.nodes)
    (h : (interpreter body config).runNodes runGraph nodes store = some (.ok (), after)) :
    Completes body config (fun _ => True) nodes store.state store.bounds after.state
      after.bounds := by
  induction nodes generalizing store with
  | nil =>
    cases h
    exact .done
  | cons node rest ih =>
    obtain ⟨hbody, hrestnodes⟩ := List.forall_mem_cons.1 hnodes
    rw [Interpreter.runNodes] at h
    split at h
    · rename_i hmem
      have hrest := ih hrestnodes h
      exact .skipped hmem trivial hrest
    · rename_i hmem
      split at h
      · cases h
      · rename_i args hargs
        split at h
        · cases h
        · cases h
        · rename_i range mid heval
          have hrest := ih hrestnodes h
          rcases eval_cases heval with ⟨_, ⟨⟩, hyields, hnoted⟩ | ⟨_, ⟨⟩, -⟩ |
            ⟨index, htarget, henters⟩
          · refine .evaluated hmem hargs hyields ?_
            rw [← hnoted.bounds]
            exact hrest
          · cases henters with
            | completed hgraph hdepth hinner houtputs houtput =>
              have hsub := hrun _ _ _ (subblock_mem_nodes hgraph) hinner
              have hnode := hsub.masked_not_mem hids hbody htarget hgraph hmem
              exact .entered hmem hargs htarget hgraph hdepth hsub hnode houtputs houtput hrest

theorem completes_of_run (hids : body.DistinctIds) {levels : Nat} {graph : Graph}
    {store after : Store Context} (hnodes : ∀ node ∈ graph.nodes, node ∈ body.nodes)
    (h : (interpreter body config).run levels graph store = some (.ok (), after)) :
    Completes body config (fun _ => True) graph.nodes store.state store.bounds after.state
      after.bounds := by
  induction levels generalizing graph store after with
  | zero => cases h
  | succ levels ih => exact completes_of_runNodes hids (fun _ _ _ => ih) hnodes h

/-- The run behind the first reply of an engine. It has an outcome and comes out at depth zero. -/
theorem exists_run (body : Body) (config : Config) : ∃ result store,
    (interpreter body config).run (config.maxDepth + 1) body.root body.initialStore =
      some (result, store) ∧ store.state.depth = 0 ∧
    (Engine.new body config).bounds =
      { answer := result.map fun _ => store.bounds
        engine := { body, config, context := store.state
                    answer? := some (result.map fun _ => store.bounds) }
        events := store.log } := by
  obtain ⟨result, store, hrun, hdepth⟩ := body.endsAt_root config
  refine ⟨result, store, hrun, hdepth, ?_⟩
  have hanalyze : body.analyze config = (result.map fun _ => store.bounds, store) := by
    simp only [Body.analyze, Body.run, hrun, Option.get_some]
  simp only [Engine.bounds, Engine.new, hanalyze]

/-- The run behind an answer of a new engine. -/
theorem completes_root (hids : body.DistinctIds)
    (h : (Engine.new body config).bounds.answer = .ok bounds) :
    Completes body config (fun _ => True) body.root.nodes { scope := body.initialScope }
      body.initialBounds (Engine.new body config).bounds.engine.context bounds := by
  obtain ⟨result, store, hrun, -, hreply⟩ := exists_run body config
  rw [hreply] at h ⊢
  cases result with
  | error e => cases h
  | ok u =>
    cases h
    exact completes_of_run hids (fun node hnode => (Body.has_root node hnode).mem_nodes) hrun

end Analysis

/-- The interval that an engine answers for a node. -/
def Engine.interval? (engine : Engine) (id : NodeId) : Option Interval :=
  match engine.bounds.answer with
  | .ok bounds => bounds[id]?
  | .error _ => none

theorem Engine.exists_of_interval? {engine : Engine} {id : NodeId} {range : Interval}
    (h : engine.interval? id = some range) :
    ∃ bounds, engine.bounds.answer = .ok bounds ∧ bounds[id]? = some range := by
  unfold interval? at h
  split at h
  · rename_i bounds hanswer
    exact ⟨bounds, hanswer, h⟩
  · cases h

end LoopBounds
