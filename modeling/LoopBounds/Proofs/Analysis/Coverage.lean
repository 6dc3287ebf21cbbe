/-
Which nodes the answer of an analysis knows.

What each step of a successful run keeps, the whole run keeps: `Invariant` lists
the steps, and `Completes.keeps` is the induction. A masked node has an interval
only if its subblock was run, so what follows from that is kept for all such
subblocks (`invariant_allEntered`).

* `Completes.mem_of_below`: all nodes of the root, and of every subblock that a
  chain of references leads to from there, have an interval in the end. A node is
  passed over only if it has one, and a masked node gets one only once its whole
  subblock has them (`Covered`);
* `Completes.mem_iff`: no other node has one, but for those known in advance.
-/
import LoopBounds.Proofs.Analysis.Skipping

namespace LoopBounds.Analysis

variable {body : Body} {config : Config} {skippable : Node → Prop} {nodes : List Node}
  {ctx ctx' : Context} {bounds bounds' : Bounds} {node : Node} {range : Interval}

/-! ### Invariants -/

/-- Every step of a successful run keeps the property: the evaluation of a node of the block or of
one below it, and the two ends of the run of a subblock. -/
structure Invariant (body : Body) (config : Config) (block : Block)
    (property : Context → Bounds → Prop) : Prop where
  evaluate : ∀ {node args range ctx bounds after}, body.Below block node → node.id ∉ bounds →
    bounds.values node.args = .ok args → Yields body config ctx node.target args range after →
    property ctx bounds → property after (bounds.insert node.id range)
  enter : ∀ {ctx bounds}, property ctx bounds → property ctx.enter bounds
  leave : ∀ {node index graph output range ctx bounds}, body.Below block node →
    node.target = .maskedSubblock index → body.subblocks[index]? = some graph →
    node.id ∉ bounds → (∀ m ∈ graph.nodes, m.id ∈ bounds) → graph.outputs = [output] →
    bounds[output.id]? = some range → property ctx bounds →
    property ctx.leave.countSubblock (bounds.insert node.id range)

variable {property : Context → Bounds → Prop}

/-- An invariant of a block is one of every block that it leads to. -/
theorem Invariant.of_chain {start block : Block} {links : Nat}
    (h : Invariant body config start property) (hchain : body.Chain start links block) :
    Invariant body config block property where
  evaluate hbelow := h.evaluate (hbelow.of_chain hchain)
  enter := h.enter
  leave hbelow := h.leave (hbelow.of_chain hchain)

theorem Completes.keeps (h : Completes body config skippable nodes ctx bounds ctx' bounds')
    {block : Block} (hnodes : ∀ node ∈ nodes, body.Has block node)
    (hinv : Invariant body config block property) (hstart : property ctx bounds) :
    property ctx' bounds' := by
  induction h generalizing block with
  | done => exact hstart
  | skipped _ _ _ ih => exact ih (List.forall_mem_cons.1 hnodes).2 hinv hstart
  | evaluated hmem hargs hyields _ ih =>
    obtain ⟨hnode, hrest⟩ := List.forall_mem_cons.1 hnodes
    exact ih hrest hinv (hinv.evaluate hnode.below hmem hargs hyields hstart)
  | entered _ _ htarget hgraph _ hrun hmid houtputs houtput _ ihsub ihrest =>
    obtain ⟨hnode, hrest⟩ := List.forall_mem_cons.1 hnodes
    have hsub := ihsub (Body.has_subblock hgraph)
      (hinv.of_chain (Body.Chain.start.enter hnode htarget hgraph)) (hinv.enter hstart)
    refine ihrest hrest hinv ?_
    exact hinv.leave hnode.below htarget hgraph hmid (fun _ => hrun.mem_bounds) houtputs houtput
      hsub

/-! ### Subblocks that were run -/

/-- The property holds of the subblock of every masked node that has an interval. -/
def AllEntered (body : Body) (property : Nat → Graph → Bounds → Prop) (bounds : Bounds) : Prop :=
  ∀ node ∈ body.nodes, ∀ index graph, node.target = .maskedSubblock index →
    body.subblocks[index]? = some graph → node.id ∈ bounds → property index graph bounds

section AllEntered

variable {property : Nat → Graph → Bounds → Prop}

/-- To record a node keeps a property of the subblocks, if its own has it. -/
theorem AllEntered.insert (hids : body.DistinctIds) (h : AllEntered body property bounds)
    (hgrow : ∀ {index graph bounds} (id : NodeId) (range : Interval),
      property index graph bounds → property index graph (bounds.insert id range))
    (hnode : node ∈ body.nodes) (hsub : ∀ index graph, node.target = .maskedSubblock index →
      body.subblocks[index]? = some graph → property index graph bounds) :
    AllEntered body property (bounds.insert node.id range) := by
  intro m hm index graph htarget hgraph hin
  refine hgrow node.id range ?_
  rcases Bounds.mem_insert.1 hin with hid | hin
  · rw [← hids.eq_of_id_eq hnode hm hid] at htarget
    exact hsub index graph htarget hgraph
  · exact h m hm index graph htarget hgraph hin

/-- A property that a subblock has as soon as all its nodes have intervals is an invariant. -/
theorem invariant_allEntered (hids : body.DistinctIds)
    (hgrow : ∀ {index graph bounds} (id : NodeId) (range : Interval),
      property index graph bounds → property index graph (bounds.insert id range))
    (hrun : ∀ {index graph bounds}, body.subblocks[index]? = some graph →
      (∀ m ∈ graph.nodes, m.id ∈ bounds) → AllEntered body property bounds →
      property index graph bounds) (block : Block) :
    Invariant body config block fun _ bounds => AllEntered body property bounds where
  evaluate {node _ _ _ _ _} hbelow _ _ hyields h := by
    refine h.insert hids hgrow hbelow.mem_nodes ?_
    intro index graph htarget
    rw [htarget] at hyields
    cases hyields
  enter h := h
  leave {node index graph _ _ _ _} hbelow htarget hgraph _ hsub _ _ h := by
    refine h.insert hids hgrow hbelow.mem_nodes ?_
    intro i g hi hg
    rw [htarget, Target.maskedSubblock.injEq] at hi
    rw [← hi] at hg ⊢
    rw [hgraph, Option.some_inj] at hg
    rw [← hg]
    exact hrun hgraph hsub h

/-- In the beginning no masked node has an interval. -/
theorem allEntered_initialBounds (hids : body.DistinctIds) :
    AllEntered body property body.initialBounds := by
  intro node hnode index graph htarget _ hmem
  have hseeded := (Body.mem_initialBounds_iff hids hnode).1 hmem
  exact absurd hseeded (Body.not_preseeded (by rw [htarget]; rfl))

end AllEntered

/-! ### Coverage -/

/-- A masked node that has an interval has a subblock all nodes of which have one. -/
def Covered (body : Body) (bounds : Bounds) : Prop :=
  ∀ node ∈ body.nodes, ∀ index graph, node.target = .maskedSubblock index →
    body.subblocks[index]? = some graph → node.id ∈ bounds → ∀ m ∈ graph.nodes, m.id ∈ bounds

theorem covered_iff : Covered body bounds ↔
    AllEntered body (fun _ graph bounds => ∀ m ∈ graph.nodes, m.id ∈ bounds) bounds :=
  Iff.rfl

/-- To record a node keeps the subblocks covered, if its own is. -/
theorem Covered.insert (hids : body.DistinctIds) (h : Covered body bounds)
    (hnode : node ∈ body.nodes) (hsub : ∀ index graph, node.target = .maskedSubblock index →
      body.subblocks[index]? = some graph → ∀ m ∈ graph.nodes, m.id ∈ bounds) :
    Covered body (bounds.insert node.id range) :=
  (covered_iff.1 h).insert hids (fun _ _ h m hm => Bounds.mem_insert.2 (Or.inr (h m hm))) hnode hsub

theorem invariant_covered (hids : body.DistinctIds) (block : Block) :
    Invariant body config block fun _ bounds => Covered body bounds :=
  invariant_allEntered hids (fun _ _ h m hm => Bounds.mem_insert.2 (Or.inr (h m hm)))
    (fun _ hsub _ => hsub) block

theorem covered_initialBounds (hids : body.DistinctIds) : Covered body body.initialBounds :=
  covered_iff.2 (allEntered_initialBounds hids)

/-- A run of the root gives an interval to every node below it. -/
theorem Completes.mem_of_below (hids : body.DistinctIds)
    (h : Completes body config skippable body.root.nodes ctx body.initialBounds ctx' bounds')
    (hbelow : body.Below .root node) : node.id ∈ bounds' := by
  have hcovered : Covered body bounds' :=
    h.keeps Body.has_root (invariant_covered hids .root) (covered_initialBounds hids)
  obtain ⟨links, block, hchain, hnode⟩ := hbelow
  induction hchain generalizing node with
  | start =>
    obtain ⟨graph, hgraph, hmem⟩ := hnode
    cases hgraph
    exact h.mem_bounds hmem
  | link _ href ih =>
    obtain ⟨-, m, hm, htarget⟩ := Body.refers_iff.1 href
    obtain ⟨graph, hgraph, hmem⟩ := hnode
    exact hcovered m hm.mem_nodes _ graph htarget hgraph (ih hm) node hmem

/-- The ids in the answer are those of the nodes below the root and those known in advance. -/
theorem Completes.mem_iff (hids : body.DistinctIds)
    (h : Completes body config skippable body.root.nodes ctx body.initialBounds ctx' bounds')
    {id : NodeId} : id ∈ bounds' ↔
      id ∈ body.initialBounds ∨ ∃ node, body.Below .root node ∧ node.id = id := by
  constructor
  · exact h.new_below Body.has_root
  · rintro (hid | ⟨node, hbelow, rfl⟩)
    · exact h.within.mem hid
    · exact h.mem_of_below hids hbelow

end LoopBounds.Analysis

namespace LoopBounds

/-- A body with a subblock that both the root and another subblock refer to. The index that is
resolved there was resolved before, when the variable it reads was not yet bound. -/
def layered : Body :=
  (Builder.afterAll [
    .varRange "i" 9,
    .indirectVar "tmp",
    .indexExpr "row" (.sym "i"),
    .indexExpr "cell" (.sym "tmp" * 2 + .sym "i"),
    .subblock,
    .subblock,
    .push (.subblock 0) .getIndex [.name "cell"],
    .push (.subblock 0) .output [.node 0],
    .push (.subblock 1) (.op "constant") [.int 1],
    .push (.subblock 1) (.maskedSubblock 0) [.node 2, .int 0],
    .push (.subblock 1) .output [.node 3],
    .push .root .getIndex [.name "row"],
    .push .root .getIndex [.name "cell"],
    .push .root (.op "add") [.node 5, .node 5],
    .push .root (.setIndirect 0) [.node 7],
    .push .root .load [.name "buf", .node 5],
    .push .root (.maskedSubblock 1) [.node 9, .int 0],
    .push .root (.maskedSubblock 0) [.node 9, .int 7],
    .push .root .output [.node 7]]).body

theorem built_layered : layered.Built :=
  ⟨_, rfl⟩

theorem exists_answer_layered : ∃ answer, (Engine.new layered {}).bounds.answer = .ok answer := by
  have hinterval : (Engine.new layered {}).interval? 11 = some (.between 0 (.finite 45)) := by
    decide +kernel
  obtain ⟨answer, hanswer, -⟩ := Engine.exists_of_interval? hinterval
  exact ⟨answer, hanswer⟩

/-- The reference from one subblock to the other lies below the root. -/
theorem below_layered : layered.Below .root ⟨3, .maskedSubblock 0, [.node 2, .int 0]⟩ := by
  refine ⟨1, .subblock 1, Body.Chain.start.link ⟨by decide, _, rfl, by decide⟩, ?_⟩
  exact ⟨_, rfl, by decide⟩

end LoopBounds
