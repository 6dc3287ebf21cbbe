/-
Which nodes a run of the analysis skips.

A node is skipped if it has an interval. In a successful run of the root that is
either one of the nodes taken as unbounded in advance, or a node of a subblock
that is run more than once (`Completes.skips`).

The argument goes by the length of chains of references from the root. While a
block at the end of a chain is run, new intervals go to that block and the ones
below it only (`Completes.new_below`), and the same holds of the symbols that are
assigned (`Completes.scope_below`). So a subblock with a single way to it has no
new interval until the node that refers to it is reached (`Unreached`).
-/
import LoopBounds.Proofs.Analysis.Start
import LoopBounds.Proofs.Assignment
import LoopBounds.Proofs.Body.Repetition

namespace LoopBounds

namespace Body

/-- The node lies in the block or in one that a chain of references leads to from there. -/
def Below (body : Body) (block : Block) (node : Node) : Prop :=
  ∃ links lower, body.Chain block links lower ∧ body.Has lower node

/-- The node may have an interval before it is reached. -/
def Skippable (body : Body) (node : Node) : Prop :=
  node ∈ body.preseeded ∨ ∃ block, body.RepeatedBlock block ∧ body.Has block node

variable {body : Body}

theorem Chain.trans {start mid block : Block} {k l : Nat} (h : body.Chain start k mid)
    (h' : body.Chain mid l block) : body.Chain start (k + l) block := by
  induction h' with
  | start => exact h
  | link _ href ih => exact ih.link href

/-- A chain from a block without references has no links. -/
theorem Chain.eq_start {start block : Block} {links : Nat} (h : body.Chain start links block)
    (hnone : ∀ index, ¬ body.Refers start index) : block = start := by
  induction h with
  | start => rfl
  | link _ href ih =>
    subst ih
    exact absurd href (hnone _)

theorem Has.below {block : Block} {node : Node} (h : body.Has block node) :
    body.Below block node :=
  ⟨0, block, .start, h⟩

theorem Below.mem_nodes {block : Block} {node : Node} (h : body.Below block node) :
    node ∈ body.nodes := by
  obtain ⟨_, _, _, hnode⟩ := h
  exact hnode.mem_nodes

/-- What lies below a block lies below every block that leads to it. -/
theorem Below.of_chain {start block : Block} {links : Nat} {node : Node}
    (h : body.Below block node) (hchain : body.Chain start links block) :
    body.Below start node := by
  obtain ⟨_, lower, hlower, hnode⟩ := h
  exact ⟨_, lower, hchain.trans hlower, hnode⟩

/-- What lies below a subblock lies below the block of a node that refers to it. -/
theorem Below.of_subblock {block : Block} {node lower : Node} {index : Nat} {graph : Graph}
    (h : body.Below (.subblock index) lower) (hnode : body.Has block node)
    (htarget : node.target = .maskedSubblock index) (hgraph : body.subblocks[index]? = some graph) :
    body.Below block lower :=
  h.of_chain (Chain.start.enter hnode htarget hgraph)

/-- What lies below a block without references lies in it. -/
theorem Below.has {block : Block} {node : Node} (h : body.Below block node)
    (hnone : ∀ index, ¬ body.Refers block index) : body.Has block node := by
  obtain ⟨_, lower, hchain, hnode⟩ := h
  rw [← hchain.eq_start hnone]
  exact hnode

end Body

namespace Analysis

variable {body : Body} {config : Config} {skippable : Node → Prop} {nodes : List Node}
  {ctx ctx' : Context} {bounds bounds' : Bounds}

/-- Every new interval belongs to a node of the block that is run or of one below it. -/
theorem Completes.new_below (h : Completes body config skippable nodes ctx bounds ctx' bounds')
    {block : Block} (hnodes : ∀ node ∈ nodes, body.Has block node) {id : NodeId}
    (hid : id ∈ bounds') : id ∈ bounds ∨ ∃ node, body.Below block node ∧ node.id = id := by
  induction h generalizing block with
  | done => exact Or.inl hid
  | skipped _ _ _ ih => exact ih (List.forall_mem_cons.1 hnodes).2 hid
  | @evaluated node _ _ _ _ _ _ _ _ _ _ _ _ ih =>
    obtain ⟨hnode, hrest⟩ := List.forall_mem_cons.1 hnodes
    rcases ih hrest hid with hold | hnew
    · rcases Bounds.mem_insert.1 hold with rfl | hold
      · exact Or.inr ⟨node, hnode.below, rfl⟩
      · exact Or.inl hold
    · exact Or.inr hnew
  | @entered node _ _ index graph _ _ _ _ _ _ _ _ _ _ htarget hgraph _ _ _ _ _ _ ihsub ihrest =>
    obtain ⟨hnode, hrest⟩ := List.forall_mem_cons.1 hnodes
    rcases ihrest hrest hid with hold | hnew
    · rcases Bounds.mem_insert.1 hold with rfl | hold
      · exact Or.inr ⟨node, hnode.below, rfl⟩
      · rcases ihsub (Body.has_subblock hgraph) hold with hold | ⟨m, hm, hid⟩
        · exact Or.inl hold
        -- what the subblock recorded lies below it, and so below the block too
        · exact Or.inr ⟨m, hm.of_subblock hnode htarget hgraph, hid⟩
    · exact Or.inr hnew

/-- Every symbol with a new range is assigned by a node of the block that is run or of one
below it. -/
theorem Completes.scope_below (h : Completes body config skippable nodes ctx bounds ctx' bounds')
    {block : Block} (hnodes : ∀ node ∈ nodes, body.Has block node) (name : Symbol) :
    ctx'.scope[name]? = ctx.scope[name]? ∨
      ∃ node, body.Below block node ∧ node.assigned? body = some name := by
  induction h generalizing block with
  | done => exact Or.inl rfl
  | skipped _ _ _ ih => exact ih (List.forall_mem_cons.1 hnodes).2
  | @evaluated node _ _ _ _ _ _ _ _ _ hargs hyields _ ih =>
    obtain ⟨hnode, hrest⟩ := List.forall_mem_cons.1 hnodes
    by_cases hname : node.assigned? body = some name
    · exact Or.inr ⟨node, hnode.below, hname⟩
    · rcases ih hrest with hsame | hnew
      · left
        rw [hsame, hyields.scope_eq hargs, Scope.getElem?_insert?_of_ne hname]
      · exact Or.inr hnew
  | @entered node _ _ index graph _ _ _ _ _ _ _ _ _ _ htarget hgraph _ _ _ _ _ _ ihsub ihrest =>
    obtain ⟨hnode, hrest⟩ := List.forall_mem_cons.1 hnodes
    rcases ihrest hrest with hsame | hnew
    · rcases ihsub (Body.has_subblock hgraph) with hsub | ⟨m, hm, hname⟩
      · exact Or.inl (hsame.trans hsub)
      · exact Or.inr ⟨m, hm.of_subblock hnode htarget hgraph, hname⟩
    · exact Or.inr hnew

/-- All intervals in the subblock are those known in advance. -/
def Untouched (body : Body) (bounds : Bounds) (index : Nat) : Prop :=
  ∀ node, body.Has (.subblock index) node → node.id ∈ bounds → node ∈ body.preseeded

/-- A node that is so many links or more away from the root, refers to a subblock that is not
repeated, and has no interval, was not reached: its subblock is untouched. -/
def Unreached (body : Body) (bounds : Bounds) (depth : Nat) : Prop :=
  ∀ (links : Nat) (block : Block) (node : Node) (index : Nat), depth ≤ links →
    body.Chain .root links block → body.Has block node → node.target = .maskedSubblock index →
    ¬ body.Repeated index → node.id ∉ bounds → Untouched body bounds index

theorem Unreached.deeper {depth : Nat} (h : Unreached body bounds depth) :
    Unreached body bounds (depth + 1) := by
  intro links block node index hlinks
  exact h links block node index (Nat.le_of_succ_le hlinks)

/-- A node with a subblock at the end of a chain puts the nodes of the subblock one link on. -/
theorem chain_of_mem {start block : Block} {links index : Nat} {node inner : Node}
    (h : body.Chain start links block) (hnode : body.Has block node)
    (htarget : node.target = .maskedSubblock index) (hinner : body.Has (.subblock index) inner) :
    body.Chain start (links + 1) (.subblock index) := by
  obtain ⟨graph, hgraph, -⟩ := hinner
  exact h.enter hnode htarget hgraph

/-- To record a node at some depth touches no subblock further down. -/
theorem Unreached.insert (hids : body.DistinctIds) {depth : Nat} {block : Block} {node : Node}
    (h : Unreached body bounds depth) (hchain : body.Chain .root depth block)
    (hnode : body.Has block node) (range : Interval) :
    Unreached body (bounds.insert node.id range) depth := by
  intro links lower m index hlinks hlower hm htarget hrep hnew inner hinner hmem
  rcases Bounds.mem_insert.1 hmem with hid | hmem
  · have hblock : block = .subblock index := hids.block_eq hnode hinner hid
    have hnext := chain_of_mem hlower hm htarget hinner
    have := Body.chain_length_unique hids (hblock ▸ hchain) hnext hrep
    omega
  · refine h links lower m index hlinks hlower hm htarget hrep ?_ inner hinner hmem
    intro hold
    exact hnew (Bounds.mem_insert.2 (Or.inr hold))

/-- After the run of a subblock, the nodes at the depth of the one that refers to it are as
unreached as those below. -/
theorem Unreached.leave (hids : body.DistinctIds) {depth index : Nat} {block : Block} {node : Node}
    {graph : Graph} {mid : Bounds} (h : Unreached body bounds depth)
    (hmid : Unreached body mid (depth + 1)) (hwithin : bounds.Within mid)
    (hchain : body.Chain .root depth block) (hnode : body.Has block node)
    (htarget : node.target = .maskedSubblock index) (hgraph : body.subblocks[index]? = some graph)
    (hnew : ∀ id ∈ mid, id ∈ bounds ∨ ∃ m, body.Below (.subblock index) m ∧ m.id = id)
    (range : Interval) : Unreached body (mid.insert node.id range) depth := by
  intro links lower m j hlinks hlower hm hmt hrep hmnew inner hinner hmem
  have hmmid : m.id ∉ mid := by
    intro hold
    exact hmnew (Bounds.mem_insert.2 (Or.inr hold))
  have hnext := chain_of_mem hlower hm hmt hinner
  rcases Bounds.mem_insert.1 hmem with hid | hmem
  · have hblock : block = .subblock j := hids.block_eq hnode hinner hid
    have := Body.chain_length_unique hids (hblock ▸ hchain) hnext hrep
    omega
  · rcases Nat.lt_or_ge depth links with hdeep | hshallow
    · exact hmid links lower m j hdeep hlower hm hmt hrep hmmid inner hinner hmem
    · rcases hnew inner.id hmem with hold | ⟨w, ⟨k, wblock, hwchain, hw⟩, hwid⟩
      · exact h links lower m j hlinks hlower hm hmt hrep
          (fun hmb => hmmid (hwithin.mem hmb)) inner hinner hold
      -- the subblock just run leads to this one, over no link as both are equally deep
      · have hwblock : wblock = .subblock j := hids.block_eq hw hinner hwid
        subst hwblock
        cases hwchain with
        | start =>
          have hmn := Body.eq_of_not_repeated hrep hm.mem_nodes hnode.mem_nodes hmt htarget
          exact (hmnew (Bounds.mem_insert.2 (Or.inl (by rw [hmn])))).elim
        | link hwchain href =>
          have hlong := (hchain.enter hnode htarget hgraph).trans (hwchain.link href)
          have := Body.chain_length_unique hids hlong hnext hrep
          omega

/-- A successful run of a block skips only what may be skipped, given that this holds for the
block itself and that nothing further down was reached. -/
theorem Completes.skips_block (hids : body.DistinctIds)
    (h : Completes body config (fun _ => True) nodes ctx bounds ctx' bounds') {depth : Nat}
    {block : Block} (hchain : body.Chain .root depth block)
    (hnodes : ∀ node ∈ nodes, body.Has block node) (hdistinct : (nodes.map Node.id).Nodup)
    (hskip : ∀ node ∈ nodes, node.id ∈ bounds → body.Skippable node)
    (hunreached : Unreached body bounds depth) :
    Completes body config body.Skippable nodes ctx bounds ctx' bounds' ∧
      Unreached body bounds' depth := by
  induction h generalizing depth block with
  | done => exact ⟨.done, hunreached⟩
  | @skipped node rest _ _ _ _ hmem _ _ ih =>
    obtain ⟨hnodeskip, hrestskip⟩ := List.forall_mem_cons.1 hskip
    obtain ⟨hrest, hafter⟩ := ih hchain (List.forall_mem_cons.1 hnodes).2
      (List.nodup_cons.1 hdistinct).2 hrestskip hunreached
    exact ⟨.skipped hmem (hnodeskip hmem) hrest, hafter⟩
  | @evaluated node rest _ range _ bounds _ _ _ hmem hargs hyields _ ih =>
    obtain ⟨hnode, hnodes⟩ := List.forall_mem_cons.1 hnodes
    obtain ⟨hnotin, hdistinct⟩ := List.nodup_cons.1 hdistinct
    -- the node recorded is none of those still to come
    have hskip' : ∀ m ∈ rest, m.id ∈ bounds.insert node.id range → body.Skippable m := by
      intro m hm hmem
      rcases Bounds.mem_insert.1 hmem with hid | hold
      · exact (hnotin (hid ▸ List.mem_map_of_mem hm)).elim
      · exact hskip m (List.mem_cons_of_mem _ hm) hold
    obtain ⟨hrest, hafter⟩ :=
      ih hchain hnodes hdistinct hskip' (hunreached.insert hids hchain hnode range)
    exact ⟨.evaluated hmem hargs hyields hrest, hafter⟩
  | @entered node rest _ index graph _ range _ bounds _ mid _ _ hmem hargs htarget hgraph hdepth
      hrun hmid houtputs houtput _ ihsub ihrest =>
    obtain ⟨hnode, hafternodes⟩ := List.forall_mem_cons.1 hnodes
    obtain ⟨hnotin, hdistinct⟩ := List.nodup_cons.1 hdistinct
    have hinner := Body.has_subblock hgraph
    -- the node is reached only now, so a subblock that is not repeated was not touched before
    have hsubskip : ∀ m ∈ graph.nodes, m.id ∈ bounds → body.Skippable m := by
      intro m hm hmb
      by_cases hrep : body.Repeated index
      · exact Or.inr ⟨.subblock index, hrep, hinner m hm⟩
      · exact Or.inl (hunreached depth block node index (Nat.le_refl _) hchain hnode htarget hrep
          hmem m (hinner m hm) hmb)
    obtain ⟨hsub, hsubafter⟩ := ihsub (hchain.enter hnode htarget hgraph) hinner
      (hids.nodup_graph (show body.graph? (.subblock index) = _ from hgraph)) hsubskip
      hunreached.deeper
    have hskip' : ∀ m ∈ rest, m.id ∈ mid.insert node.id range → body.Skippable m := by
      intro m hm hmem'
      have hm' := hafternodes m hm
      rcases Bounds.mem_insert.1 hmem' with hid | hmem'
      · exact (hnotin (hid ▸ List.mem_map_of_mem hm)).elim
      · rcases hrun.new_below hinner hmem' with hold | ⟨w, ⟨k, lower, hlower, hw⟩, hid⟩
        · exact hskip m (List.mem_cons_of_mem _ hm) hold
        -- the block itself lies below the subblock, so it is on a longer chain too
        · by_cases hrep : body.RepeatedBlock block
          · exact Or.inr ⟨block, hrep, hm'⟩
          · have hblock : lower = block := hids.block_eq hw hm' hid
            subst hblock
            have hlong := (hchain.enter hnode htarget hgraph).trans hlower
            have := Body.chain_length_unique hids hchain hlong hrep
            omega
    have hunreached' := hunreached.leave hids hsubafter hrun.within hchain hnode htarget hgraph
      (fun _ hid => hrun.new_below hinner hid) range
    obtain ⟨hrest, hafter⟩ := ihrest hchain hafternodes hdistinct hskip' hunreached'
    exact ⟨.entered hmem hargs htarget hgraph hdepth hsub hmid houtputs houtput hrest, hafter⟩

/-- **What is skipped.** A successful run of the root skips only the nodes that are taken as
unbounded, and those of subblocks that are run more than once. -/
theorem Completes.skips (hids : body.DistinctIds)
    (h : Completes body config (fun _ => True) body.root.nodes ctx body.initialBounds ctx'
      bounds') :
    Completes body config body.Skippable body.root.nodes ctx body.initialBounds ctx' bounds' := by
  have hseeded : ∀ node ∈ body.nodes, node.id ∈ body.initialBounds → node ∈ body.preseeded :=
    fun _ hnode => (Body.mem_initialBounds_iff hids hnode).1
  have hdistinct := hids.nodup_graph (show body.graph? .root = _ from rfl)
  refine (h.skips_block hids .start Body.has_root hdistinct ?_ ?_).1
  · intro node hnode hmem
    exact Or.inl (hseeded node (Body.has_root node hnode).mem_nodes hmem)
  · intro _ _ _ _ _ _ _ _ _ _ node hnode hmem
    exact hseeded node hnode.mem_nodes hmem

end Analysis

end LoopBounds
