/-
Which chains of references come up against the depth limit.

A subblock that is met again is run again, but all its nodes have intervals by
then and are skipped. So a chain of references is followed to its end only if the
nodes passed on the way do not lead to its subblocks before (`Body.FirstChain`),
and the order of nodes decides which of the chains to a subblock that is.

* A first chain counts in full: the analysis fails if there is one link more to go
  at the limit. The step of the argument is `FirstRun.enter`, a masked node met in a
  block that is run for the first time; the rest is induction on the chain.
* In any order, every subblock that is reached is reached by some chain within the
  limit (`Completes.withinLimit`), so the analysis fails if a subblock has none.

Both are in `fails_beyond_limit`. A chain that is neither the first nor the only way
to its end may exceed the limit unnoticed (`limit_overlooked`).
-/
import LoopBounds.Proofs.Analysis.Adequacy
import LoopBounds.Proofs.Analysis.Nesting

namespace LoopBounds

/-! ### First chains -/

namespace Body

/-- One of the nodes leads to the block: it refers to a subblock of the body, from which a chain of
references goes there. -/
def LeadsTo (body : Body) (nodes : List Node) (block : Block) : Prop :=
  ∃ node ∈ nodes, ∃ index links, node.target = .maskedSubblock index ∧
    index < body.subblocks.length ∧ body.Chain (.subblock index) links block

/-- A chain of references from the root to the block, with the nodes passed on the way: in each
block on the chain, those before the node that refers to the next one. None of the nodes passed
until then leads to that next block. -/
inductive FirstChain (body : Body) : List Node → Nat → Block → Prop where
  | root : FirstChain body [] 0 .root
  | link {passed front rest : List Node} {node : Node} {links index : Nat} {block : Block}
      {graph : Graph} : FirstChain body passed links block → body.graph? block = some graph →
      graph.nodes = front ++ node :: rest → node.target = .maskedSubblock index →
      index < body.subblocks.length → ¬ body.LeadsTo (passed ++ front) (.subblock index) →
      FirstChain body (passed ++ front) (links + 1) (.subblock index)

/-- The node is one of those, or they lead to its block. -/
def Behind (body : Body) (nodes : List Node) (node : Node) : Prop :=
  node ∈ nodes ∨ ∃ block, body.LeadsTo nodes block ∧ body.Has block node

variable {body : Body} {nodes other passed front rest : List Node} {node : Node} {block : Block}
  {links : Nat} {graph : Graph}

theorem has_of_nodes_eq (hgraph : body.graph? block = some graph)
    (hnodes : graph.nodes = front ++ node :: rest) :
    (∀ m ∈ front, body.Has block m) ∧ body.Has block node := by
  have hhas : ∀ m ∈ front ++ node :: rest, body.Has block m := by
    rw [← hnodes]
    exact fun m hm => ⟨graph, hgraph, hm⟩
  obtain ⟨hfront, hrest⟩ := List.forall_mem_append.1 hhas
  exact ⟨hfront, hrest node List.mem_cons_self⟩

theorem LeadsTo.mono (h : body.LeadsTo nodes block) (hsub : nodes ⊆ other) :
    body.LeadsTo other block := by
  obtain ⟨node, hnode, hleads⟩ := h
  exact ⟨node, hsub hnode, hleads⟩

theorem Behind.mono (h : body.Behind nodes node) (hsub : nodes ⊆ other) :
    body.Behind other node := by
  rcases h with hnode | ⟨block, hleads, hnode⟩
  · exact Or.inl (hsub hnode)
  · exact Or.inr ⟨block, hleads.mono hsub, hnode⟩

theorem Behind.mem_nodes (h : body.Behind nodes node) (hnodes : ∀ m ∈ nodes, m ∈ body.nodes) :
    node ∈ body.nodes := by
  rcases h with hnode | ⟨block, -, hnode⟩
  · exact hnodes node hnode
  · exact hnode.mem_nodes

/-- What lies below the subblock of a node is behind that node. -/
theorem Below.behind {m : Node} {index : Nat} (h : body.Below (.subblock index) node)
    (hm : m ∈ nodes) (htarget : m.target = .maskedSubblock index)
    (hindex : index < body.subblocks.length) : body.Behind nodes node := by
  obtain ⟨links, lower, hchain, hnode⟩ := h
  exact Or.inr ⟨lower, ⟨m, hm, index, links, htarget, hindex, hchain⟩, hnode⟩

namespace FirstChain

theorem chain (h : body.FirstChain passed links block) : body.Chain .root links block := by
  induction h with
  | root => exact .start
  | link _ hgraph hnodes htarget hindex _ ih =>
    exact ih.link (refers_iff.2 ⟨hindex, _, (has_of_nodes_eq hgraph hnodes).2, htarget⟩)

theorem not_leadsTo (h : body.FirstChain passed links block) : ¬ body.LeadsTo passed block := by
  cases h with
  | root =>
    rintro ⟨_, hnode, _⟩
    cases hnode
  | link _ _ _ _ _ hfirst => exact hfirst

/-- A node passed on the way lies in a block further up the chain. -/
theorem exists_chain_of_mem (h : body.FirstChain passed links block) (hnode : node ∈ passed) :
    ∃ outer k, body.Has outer node ∧ body.Chain outer (k + 1) block := by
  induction h with
  | root => cases hnode
  | @link _ _ _ m _ index block _ _ hgraph hnodes htarget hindex _ ih =>
    obtain ⟨hfront, hm⟩ := has_of_nodes_eq hgraph hnodes
    have hrefers : body.Refers block index := refers_iff.2 ⟨hindex, m, hm, htarget⟩
    rcases List.mem_append.1 hnode with hnode | hnode
    · obtain ⟨outer, k, hhas, hchain⟩ := ih hnode
      exact ⟨outer, k + 1, hhas, hchain.link hrefers⟩
    · exact ⟨block, 0, hfront node hnode, Chain.start.link hrefers⟩

/-- At the end of a first chain that is on no cycle, a node is not behind those passed before
it. -/
theorem not_behind (hids : body.DistinctIds) (h : body.FirstChain passed links block)
    (hacyclic : ∀ k, ¬ body.Chain block (k + 1) block) (hgraph : body.graph? block = some graph)
    (hnodes : graph.nodes = front ++ node :: rest) : ¬ body.Behind (passed ++ front) node := by
  obtain ⟨hfront, hnode⟩ := has_of_nodes_eq hgraph hnodes
  rintro (hmem | ⟨lower, ⟨m, hm, index, k, htarget, hindex, hchain⟩, hlower⟩)
  · rcases List.mem_append.1 hmem with hmem | hmem
    · obtain ⟨outer, k, houter, hchain⟩ := h.exists_chain_of_mem hmem
      rw [hids.block_eq houter hnode rfl] at hchain
      exact hacyclic k hchain
    · have hnodup := hids.nodup_graph hgraph
      rw [hnodes] at hnodup
      exact (List.disjoint_of_nodup_append hnodup.of_map) hmem List.mem_cons_self
  · rw [hids.block_eq hlower hnode rfl] at hchain
    rcases List.mem_append.1 hm with hm | hm
    · exact h.not_leadsTo ⟨m, hm, index, k, htarget, hindex, hchain⟩
    · -- the block would be below one of its own nodes
      have hrefers : body.Refers block index := refers_iff.2 ⟨hindex, m, hfront m hm, htarget⟩
      refine hacyclic k ?_
      rw [Nat.add_comm]
      exact (Chain.start.link hrefers).trans hchain

end FirstChain

end Body

namespace Analysis

variable {body : Body} {config : Config} {skippable : Node → Prop}
  {nodes passed front rest : List Node} {node : Node} {graph : Graph} {block : Block}
  {links index : Nat} {ctx ctx' : Context} {bounds bounds' answer : Bounds}

/-- Every new interval belongs to a node behind those that are run. -/
theorem Completes.new_behind (h : Completes body config skippable nodes ctx bounds ctx' bounds')
    {id : NodeId} (hid : id ∈ bounds') : id ∈ bounds ∨ ∃ node, body.Behind nodes node ∧
      node.id = id := by
  induction nodes generalizing ctx bounds with
  | nil =>
    cases h
    exact Or.inl hid
  | cons node rest ih =>
    have hlater {m : Node} (hm : body.Behind rest m) : body.Behind (node :: rest) m :=
      hm.mono (List.subset_cons_self _ _)
    have hnode : body.Behind (node :: rest) node := Or.inl List.mem_cons_self
    cases h with
    | skipped _ _ hrest =>
      rcases ih hrest with hold | ⟨m, hm, hm'⟩
      · exact Or.inl hold
      · exact Or.inr ⟨m, hlater hm, hm'⟩
    | evaluated _ _ _ hrest =>
      rcases ih hrest with hold | ⟨m, hm, hm'⟩
      · rcases Bounds.mem_insert.1 hold with hid | hold
        · exact Or.inr ⟨node, hnode, hid⟩
        · exact Or.inl hold
      · exact Or.inr ⟨m, hlater hm, hm'⟩
    | entered _ _ htarget hgraph _ hrun _ _ _ hrest =>
      have hindex := (List.getElem?_eq_some_iff.1 hgraph).1
      rcases ih hrest with hold | ⟨m, hm, hm'⟩
      · rcases Bounds.mem_insert.1 hold with hid | hold
        · exact Or.inr ⟨node, hnode, hid⟩
        · rcases hrun.new_below (Body.has_subblock hgraph) hold with hold | ⟨m, hm, hm'⟩
          · exact Or.inl hold
          · exact Or.inr ⟨m, hm.behind List.mem_cons_self htarget hindex, hm'⟩
      · exact Or.inr ⟨m, hlater hm, hm'⟩

/-! ### Runs along a first chain -/

/-- All masked nodes that have an interval are behind those passed. -/
def AllBehind (body : Body) (passed : List Node) (bounds : Bounds) : Prop :=
  ∀ node ∈ body.nodes, ∀ index, node.target = .maskedSubblock index → node.id ∈ bounds →
    body.Behind passed node

/-- In the beginning no masked node has an interval. -/
theorem allBehind_initialBounds (hids : body.DistinctIds) :
    AllBehind body [] body.initialBounds := by
  intro node hnode index htarget hmem
  have hseeded := (Body.mem_initialBounds_iff hids hnode).1 hmem
  exact absurd hseeded (Body.not_preseeded (by rw [htarget]; rfl))

/-- A run passes the nodes that it runs. -/
theorem Completes.allBehind (hids : body.DistinctIds)
    (h : Completes body config skippable nodes ctx bounds ctx' bounds')
    (hnodes : ∀ node ∈ nodes, node ∈ body.nodes) (hstart : AllBehind body passed bounds) :
    AllBehind body (passed ++ nodes) bounds' := by
  intro node hnode index htarget hmem
  rcases h.new_behind hmem with hold | ⟨m, hm, hid⟩
  · exact (hstart node hnode index htarget hold).mono (List.subset_append_left _ _)
  · rw [← hids.eq_of_id_eq (hm.mem_nodes hnodes) hnode hid]
    exact hm.mono (List.subset_append_right _ _)

/-- The block is run without an error at this depth, with these nodes passed before. -/
def FirstRun (body : Body) (config : Config) (passed : List Node) (depth : Nat) (block : Block) :
    Prop :=
  ∃ graph ctx bounds ctx' bounds', body.graph? block = some graph ∧
    Completes body config (fun _ => True) graph.nodes ctx bounds ctx' bounds' ∧
    ctx.depth = depth ∧ AllBehind body passed bounds

theorem firstRun_root (hids : body.DistinctIds)
    (hanswer : (Engine.new body config).bounds.answer = .ok answer) :
    FirstRun body config [] 0 .root :=
  ⟨body.root, _, _, _, _, rfl, completes_root hids hanswer, rfl, allBehind_initialBounds hids⟩

/-- A masked node that is not behind those passed before it is entered: the depth is below the
limit, and the subblock is run one level deeper. -/
theorem FirstRun.enter (hids : body.DistinctIds) {depth : Nat}
    (h : FirstRun body config passed depth block) (hgraph : body.graph? block = some graph)
    (hnodes : graph.nodes = front ++ node :: rest) (htarget : node.target = .maskedSubblock index)
    (hnew : ¬ body.Behind (passed ++ front) node) :
    depth < config.maxDepth ∧ FirstRun body config (passed ++ front) (depth + 1)
      (.subblock index) := by
  obtain ⟨graph', ctx, bounds, ctx', bounds', hgraph', hrun, rfl, hstart⟩ := h
  rw [hgraph, Option.some_inj] at hgraph'
  subst hgraph'
  obtain ⟨hhas, hnode⟩ := Body.has_of_nodes_eq hgraph hnodes
  rw [hnodes] at hrun
  obtain ⟨mid, between, hfront, hrest⟩ := hrun.split_append
  have hbetween := hfront.allBehind hids (fun m hm => (hhas m hm).mem_nodes) hstart
  have hfresh : node.id ∉ between := by
    intro hin
    exact hnew (hbetween node hnode.mem_nodes index htarget hin)
  cases hrest with
  | skipped hin => exact absurd hin hfresh
  | evaluated _ _ hyields =>
    rw [htarget] at hyields
    cases hyields
  | entered _ _ htarget' hsub hdepth hinner =>
    rw [htarget, Target.maskedSubblock.injEq] at htarget'
    subst htarget'
    rw [hfront.depth_eq] at hdepth
    refine ⟨hdepth, _, _, _, _, _, hsub, hinner, ?_, hbetween⟩
    show mid.depth + 1 = _
    rw [hfront.depth_eq]

/-- If there is an answer, every first chain was followed to its end. -/
theorem firstRun_of_firstChain (hids : body.DistinctIds)
    (hanswer : (Engine.new body config).bounds.answer = .ok answer)
    (h : body.FirstChain passed links block) : FirstRun body config passed links block := by
  induction h with
  | root => exact firstRun_root hids hanswer
  | link hchain hgraph hnodes htarget _ _ ih =>
    have hacyclic := not_cyclic_of_answer hids hanswer ⟨_, hchain.chain⟩
    exact (ih.enter hids hgraph hnodes htarget
      (hchain.not_behind hids hacyclic hgraph hnodes)).2

/-- If there is an answer, a first chain that can be continued is below the limit. -/
theorem lt_maxDepth_of_firstChain (hids : body.DistinctIds)
    (hanswer : (Engine.new body config).bounds.answer = .ok answer)
    (h : body.FirstChain passed links block) (hrefers : body.Refers block index) :
    links < config.maxDepth := by
  obtain ⟨-, node, ⟨graph, hgraph, hnode⟩, htarget⟩ := Body.refers_iff.1 hrefers
  obtain ⟨front, rest, hnodes⟩ := List.append_of_mem hnode
  have hacyclic := not_cyclic_of_answer hids hanswer ⟨_, h.chain⟩
  exact ((firstRun_of_firstChain hids hanswer h).enter hids hgraph hnodes htarget
    (h.not_behind hids hacyclic hgraph hnodes)).1

/-! ### Subblocks within the limit -/

/-- A chain of references within the limit leads from the root to the subblock. -/
def WithinLimit (body : Body) (config : Config) (index : Nat) (_ : Graph) (_ : Bounds) : Prop :=
  ∃ links ≤ config.maxDepth, body.Chain .root links (.subblock index)

/-- Whatever is entered is entered within the limit. -/
theorem Completes.withinLimit (hids : body.DistinctIds)
    (h : Completes body config skippable nodes ctx bounds ctx' bounds')
    (hnodes : ∀ node ∈ nodes, body.Has block node) (hchain : body.Chain .root ctx.depth block)
    (hstart : AllEntered body (WithinLimit body config) bounds) :
    AllEntered body (WithinLimit body config) bounds' := by
  induction h generalizing block with
  | done => exact hstart
  | skipped _ _ _ ih => exact ih (List.forall_mem_cons.1 hnodes).2 hchain hstart
  | evaluated _ _ hyields _ ih =>
    obtain ⟨hnode, hrest⟩ := List.forall_mem_cons.1 hnodes
    refine ih hrest (hyields.depth_eq ▸ hchain) ?_
    refine hstart.insert hids (fun _ _ h => h) hnode.mem_nodes ?_
    intro index graph htarget
    rw [htarget] at hyields
    cases hyields
  | @entered node _ _ index graph _ _ ctx _ inner _ _ _ _ _ htarget hgraph hdepth hrun _ _ _ _ ihsub
      ihrest =>
    obtain ⟨hnode, hrest⟩ := List.forall_mem_cons.1 hnodes
    have hdeeper : body.Chain .root ctx.enter.depth (.subblock index) :=
      hchain.enter hnode htarget hgraph
    have hback : inner.leave.countSubblock.depth = ctx.depth := by
      show inner.depth - 1 = _
      rw [hrun.depth_eq]
      exact Nat.add_sub_cancel ..
    refine ihrest hrest (hback ▸ hchain) ?_
    refine (ihsub (Body.has_subblock hgraph) hdeeper hstart).insert hids (fun _ _ h => h)
      hnode.mem_nodes ?_
    intro i _ hi _
    rw [htarget, Target.maskedSubblock.injEq] at hi
    rw [← hi]
    exact ⟨_, hdepth, hdeeper⟩

/-- If there is an answer, a chain within the limit leads to every block that is reached. -/
theorem exists_chain_le_of_answer (hids : body.DistinctIds)
    (hanswer : (Engine.new body config).bounds.answer = .ok answer)
    (hreach : body.Reachable block) :
    ∃ links ≤ config.maxDepth, body.Chain .root links block := by
  have hcompletes := completes_root hids hanswer
  have hwithin := hcompletes.withinLimit hids Body.has_root .start (allEntered_initialBounds hids)
  obtain ⟨links, hchain⟩ := hreach
  cases hchain with
  | start => exact ⟨0, Nat.zero_le _, .start⟩
  | link hchain href =>
    obtain ⟨hindex, node, hnode, htarget⟩ := Body.refers_iff.1 href
    exact hwithin node hnode.mem_nodes _ _ htarget (List.getElem?_eq_getElem hindex)
      (hcompletes.mem_of_below hids ⟨_, _, hchain, hnode⟩)

end Analysis

/-- **Beyond the limit the analysis fails**, where a first chain of references can be continued at
the limit, whatever the order of the nodes where a block cannot be reached within the limit, and
so wherever a chain longer than the limit ends in a block that is not run more than once. -/
theorem fails_beyond_limit {body : Body} (hbuilt : body.Built) (config : Config) :
    (∀ passed links block index, body.FirstChain passed links block → body.Refers block index →
      config.maxDepth ≤ links → ∃ e, (Engine.new body config).bounds.answer = .error e) ∧
    (∀ block, body.Reachable block →
      (∀ links, body.Chain .root links block → config.maxDepth < links) →
      ∃ e, (Engine.new body config).bounds.answer = .error e) ∧
    (∀ links block, body.Chain .root links block → config.maxDepth < links →
      ¬ body.RepeatedBlock block → ∃ e, (Engine.new body config).bounds.answer = .error e) := by
  have hids := hbuilt.distinctIds
  cases hanswer : (Engine.new body config).bounds.answer with
  | error e =>
    exact ⟨fun _ _ _ _ _ _ _ => ⟨e, rfl⟩, fun _ _ _ => ⟨e, rfl⟩, fun _ _ _ _ _ => ⟨e, rfl⟩⟩
  | ok answer =>
    have hreached {block : Block} (hreach : body.Reachable block) :=
      Analysis.exists_chain_le_of_answer hids hanswer hreach
    refine ⟨?_, ?_, ?_⟩
    · intro passed links block index hfirst hrefers hlimit
      have hlt := Analysis.lt_maxDepth_of_firstChain hids hanswer hfirst hrefers
      omega
    · intro block hreach hlong
      obtain ⟨links, hle, hchain⟩ := hreached hreach
      exact absurd (hlong links hchain) (Nat.not_lt.2 hle)
    · intro links block hchain hlimit hrep
      obtain ⟨links', hle, hchain'⟩ := hreached ⟨links, hchain⟩
      have hlength := Body.chain_length_unique hids hchain hchain' hrep
      omega

/-- A body with three subblocks, each of which refers to the one before it. The root refers to two
of them. -/
def staircase (first second : Nat) : Body :=
  (Builder.afterAll [
    .subblock,
    .subblock,
    .subblock,
    .push (.subblock 0) (.op "constant") [.int 1],
    .push (.subblock 0) .output [.node 0],
    .push (.subblock 1) (.op "constant") [.int 1],
    .push (.subblock 1) (.maskedSubblock 0) [.node 2, .int 0],
    .push (.subblock 1) .output [.node 3],
    .push (.subblock 2) (.op "constant") [.int 1],
    .push (.subblock 2) (.maskedSubblock 1) [.node 5, .int 0],
    .push (.subblock 2) .output [.node 6],
    .push .root (.op "constant") [.int 1],
    .push .root (.maskedSubblock first) [.node 8, .int 0],
    .push .root (.maskedSubblock second) [.node 8, .int 0]]).body

section Staircase

variable {first second outer index : Nat}

theorem refers_staircase_iff : (staircase first second).Refers (.subblock outer) index ↔
    outer = index + 1 ∧ index < 2 := by
  constructor
  · rintro ⟨-, graph, hgraph, hmem⟩
    match outer, hgraph with
    | 0, rfl => cases hmem
    | 1, rfl =>
      rw [List.mem_singleton.1 hmem]
      decide
    | 2, rfl =>
      rw [List.mem_singleton.1 hmem]
      decide
  · rintro ⟨rfl, hindex⟩
    have hlength : (staircase first second).subblocks.length = 3 := rfl
    refine ⟨by omega, ?_⟩
    match index, hindex with
    | 0, _ => exact ⟨_, rfl, List.mem_singleton_self 0⟩
    | 1, _ => exact ⟨_, rfl, List.mem_singleton_self 1⟩

/-- A chain from a step goes down by its number of links. -/
theorem chain_staircase {links : Nat} {block : Block}
    (h : (staircase first second).Chain (.subblock outer) links block) :
    ∃ index, block = .subblock index ∧ outer = index + links := by
  induction h with
  | start => exact ⟨outer, rfl, rfl⟩
  | @link links _ index _ href ih =>
    obtain ⟨step, rfl, houter⟩ := ih
    obtain ⟨rfl, -⟩ := refers_staircase_iff.1 href
    exact ⟨index, rfl, by omega⟩

end Staircase

/-- From the top down the chain is a first one, and exceeds a limit of two. From the middle first,
a limit of one is noticed since no way to the last step is shorter, and a limit of zero since there
is one way to the top only. -/
theorem fails_beyond_limit_staircase :
    (∃ e, (Engine.new (staircase 2 1) { maxDepth := 2 }).bounds.answer = .error e) ∧
    (∃ e, (Engine.new (staircase 1 2) { maxDepth := 1 }).bounds.answer = .error e) ∧
    (∃ e, (Engine.new (staircase 1 2) { maxDepth := 0 }).bounds.answer = .error e) := by
  refine ⟨?_, ?_, ?_⟩
  · -- only constants are passed on the way
    have hplain : ∀ nodes : List Node, (∀ m ∈ nodes, m.target = .op "constant") → ∀ block,
        ¬ (staircase 2 1).LeadsTo nodes block := by
      rintro nodes hconstant block ⟨m, hm, index, _, htarget, _⟩
      rw [hconstant m hm] at htarget
      cases htarget
    have hroot : (staircase 2 1).root.nodes = [⟨8, .op "constant", [.int 1]⟩] ++
        ⟨9, .maskedSubblock 2, [.node 8, .int 0]⟩ :: [⟨10, .maskedSubblock 1, [.node 8, .int 0]⟩] :=
      rfl
    have htop := Body.FirstChain.root.link rfl hroot rfl (by decide) (hplain _ (by decide) _)
    have hnext : ([⟨5, .op "constant", [.int 1]⟩, ⟨6, .maskedSubblock 1, [.node 5, .int 0]⟩,
        ⟨7, .output, [.node 6]⟩] : List Node) = [⟨5, .op "constant", [.int 1]⟩] ++
        ⟨6, .maskedSubblock 1, [.node 5, .int 0]⟩ :: [⟨7, .output, [.node 6]⟩] := rfl
    have hmiddle := htop.link rfl hnext rfl (by decide) (hplain _ (by decide) _)
    exact (fails_beyond_limit ⟨_, rfl⟩ { maxDepth := 2 }).1 _ _ _ 0 hmiddle
      ⟨by decide, _, rfl, by decide⟩ (Nat.le_refl 2)
  · have hmiddle : (staircase 1 2).Chain .root 1 (.subblock 1) :=
      Body.Chain.start.link ⟨by decide, _, rfl, by decide⟩
    have hreach : (staircase 1 2).Reachable (.subblock 0) :=
      ⟨2, hmiddle.link (refers_staircase_iff.2 (by decide))⟩
    refine (fails_beyond_limit ⟨_, rfl⟩ { maxDepth := 1 }).2.1 _ hreach ?_
    intro links hchain
    cases hchain with
    | link hchain href =>
      cases hchain with
      | start =>
        obtain ⟨-, graph, hgraph, hmem⟩ := href
        cases hgraph
        exact absurd hmem (by decide)
      | link => exact Nat.one_lt_succ_succ _
  · have hchain : (staircase 1 2).Chain .root 1 (.subblock 2) :=
      Body.Chain.start.link ⟨by decide, _, rfl, by decide⟩
    refine (fails_beyond_limit ⟨_, rfl⟩ { maxDepth := 0 }).2.2 _ _ hchain Nat.one_pos ?_
    intro hrep
    cases hrep with
    | shared hm hn hmt hnt hne =>
      have hid : ∀ node ∈ (staircase 1 2).nodes, node.target = .maskedSubblock 2 →
        node = ⟨10, .maskedSubblock 2, [.node 8, .int 0]⟩ := by decide
      exact hne ((hid _ hm hmt).trans (hid _ hn hnt).symm)
    | nested _ hn hnt =>
      have hrefers := refers_staircase_iff.1 (Body.refers_iff.2 ⟨by decide, _, hn, hnt⟩)
      omega

/-- From the middle first, the last step has its interval when the way from the top comes there:
a chain of three references is not noticed under a limit of two. -/
theorem limit_overlooked : (staircase 1 2).Built ∧
    (∀ block links, ¬ (staircase 1 2).Chain block (links + 1) block) ∧
    (staircase 1 2).Chain .root 3 (.subblock 0) ∧
    ∃ answer, (Engine.new (staircase 1 2) { maxDepth := 2 }).bounds.answer = .ok answer := by
  refine ⟨⟨_, rfl⟩, ?_, ?_, ?_⟩
  · rintro (_ | outer) links hcycle
    · cases hcycle
    · obtain ⟨index, hblock, hlower⟩ := chain_staircase hcycle
      cases hblock
      omega
  · have htop : (staircase 1 2).Chain .root 1 (.subblock 2) :=
      Body.Chain.start.link ⟨by decide, _, rfl, by decide⟩
    have hmiddle : (staircase 1 2).Chain .root 2 (.subblock 1) :=
      htop.link (refers_staircase_iff.2 (by decide))
    exact hmiddle.link (refers_staircase_iff.2 (by decide))
  · have hinterval : (Engine.new (staircase 1 2) { maxDepth := 2 }).interval? 10 =
        some .unknown := by decide +kernel
    obtain ⟨answer, hanswer, -⟩ := Engine.exists_of_interval? hinterval
    exact ⟨answer, hanswer⟩

end LoopBounds
