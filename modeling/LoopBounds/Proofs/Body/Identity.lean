/-
Nodes are known by their ids.

A node of a body lies in one of its blocks (`Body.Has`). Where no two nodes share
an id (`Body.DistinctIds`), the id tells the node and its block
(`DistinctIds.eq_of_id_eq`, `DistinctIds.block_eq`).

Every body that a builder makes has distinct ids (`Body.Built.distinctIds`),
whatever calls were made and also if some of them failed: each call that adds a
node uses an id above all earlier ones.
-/
import LoopBounds.Body.Builder
import Mathlib.Data.List.Nodup

namespace LoopBounds

namespace Body

/-- The node is one of the block's. -/
def Has (body : Body) (block : Block) (node : Node) : Prop :=
  ∃ graph, body.graph? block = some graph ∧ node ∈ graph.nodes

/-- No two nodes of the body have the same id. -/
def DistinctIds (body : Body) : Prop :=
  (body.nodes.map Node.id).Nodup

instance (body : Body) : Decidable body.DistinctIds :=
  inferInstanceAs (Decidable (List.Nodup _))

end Body

/-- The place of a block among the graphs of a body, the root first. -/
def Block.position : Block → Nat
  | .root => 0
  | .subblock index => index + 1

theorem Block.position_inj {b c : Block} (h : b.position = c.position) : b = c := by
  cases b with
  | root =>
    cases c with
    | root => rfl
    | subblock j => simp [position] at h
  | subblock i =>
    cases c with
    | root => simp [position] at h
    | subblock j =>
      simp only [position, Nat.add_right_cancel_iff] at h
      rw [h]

namespace Body

variable {body : Body}

theorem graph?_eq (body : Body) (block : Block) :
    body.graph? block = body.graphs[block.position]? := by
  cases block <;> rfl

theorem mem_nodes_iff {node : Node} : node ∈ body.nodes ↔ ∃ block, body.Has block node := by
  rw [nodes, List.mem_flatMap]
  constructor
  · rintro ⟨graph, hgraph, hnode⟩
    rcases List.mem_cons.1 hgraph with rfl | hsub
    · exact ⟨.root, _, rfl, hnode⟩
    · obtain ⟨i, hi⟩ := List.mem_iff_getElem?.1 hsub
      exact ⟨.subblock i, graph, hi, hnode⟩
  · rintro ⟨block, graph, hgraph, hnode⟩
    rw [graph?_eq] at hgraph
    exact ⟨graph, List.mem_of_getElem? hgraph, hnode⟩

theorem Has.mem_nodes {block : Block} {node : Node} (h : body.Has block node) :
    node ∈ body.nodes :=
  mem_nodes_iff.2 ⟨block, h⟩

theorem has_root : ∀ node ∈ body.root.nodes, body.Has .root node :=
  fun _ hnode => ⟨body.root, rfl, hnode⟩

theorem has_subblock {index : Nat} {graph : Graph} (h : body.subblocks[index]? = some graph) :
    ∀ node ∈ graph.nodes, body.Has (.subblock index) node :=
  fun _ hnode => ⟨graph, h, hnode⟩

theorem DistinctIds.eq_of_id_eq (h : body.DistinctIds) {m n : Node} (hm : m ∈ body.nodes)
    (hn : n ∈ body.nodes) (hid : m.id = n.id) : m = n :=
  List.inj_on_of_nodup_map h hm hn hid

theorem DistinctIds.block_eq (h : body.DistinctIds) {b c : Block} {m n : Node}
    (hm : body.Has b m) (hn : body.Has c n) (hid : m.id = n.id) : b = c := by
  obtain ⟨g, hg, hmg⟩ := hm
  obtain ⟨k, hk, hnk⟩ := hn
  rw [graph?_eq] at hg hk
  rw [DistinctIds, nodes, List.map_flatMap, List.nodup_flatMap] at h
  -- two different graphs have no id in common
  have hdisjoint : ∀ i j : Nat, i < j → ∀ g k : Graph, body.graphs[i]? = some g →
      body.graphs[j]? = some k → ∀ m ∈ g.nodes, ∀ n ∈ k.nodes, m.id ≠ n.id := by
    intro i j hij g k hg hk m hm n hn hid
    obtain ⟨hi, rfl⟩ := List.getElem?_eq_some_iff.1 hg
    obtain ⟨hj, rfl⟩ := List.getElem?_eq_some_iff.1 hk
    have hpair := List.pairwise_iff_getElem.1 h.2 i j hi hj hij
    refine hpair (List.mem_map_of_mem hm) ?_
    rw [hid]
    exact List.mem_map_of_mem hn
  refine Block.position_inj ?_
  rcases Nat.lt_trichotomy b.position c.position with hlt | heq | hgt
  · exact absurd hid (hdisjoint _ _ hlt _ _ hg hk m hmg n hnk)
  · exact heq
  · exact absurd hid.symm (hdisjoint _ _ hgt _ _ hk hg n hnk m hmg)

/-- The ids within one graph are distinct too. -/
theorem DistinctIds.nodup_graph (h : body.DistinctIds) {block : Block} {graph : Graph}
    (hgraph : body.graph? block = some graph) : (graph.nodes.map Node.id).Nodup := by
  rw [DistinctIds, nodes, List.map_flatMap, List.nodup_flatMap] at h
  rw [graph?_eq] at hgraph
  exact h.1 graph (List.mem_of_getElem? hgraph)

end Body

/-! ### Bodies from a builder -/

/-- A call on a builder. Every other way to extend a body adds nodes by `push`. -/
inductive Builder.Call where
  | varRange (var : Symbol) (upper : Expr)
  | indexExpr (name : String) (expr : Expr)
  | indirectVar (var : Symbol)
  | subblock
  | push (block : Block) (target : Target) (args : List Operand)

namespace Builder

/-- The builder after a call, be it answered or a misuse. -/
def Call.after (builder : Builder) : Call → Builder
  | .varRange var upper => ((Build.varRange var upper).runOn builder).2
  | .indexExpr name expr => ((Build.indexExpr name expr).runOn builder).2
  | .indirectVar var => ((Build.indirectVar var).runOn builder).2
  | .subblock => (Build.subblock.runOn builder).2
  | .push block target args => ((Build.push block target args).runOn builder).2

/-- The builder after calls on a new one. -/
def afterAll (calls : List Call) : Builder :=
  calls.foldl Call.after {}

/-- Ids are distinct, and the next one is above them all. -/
structure Numbered (builder : Builder) : Prop where
  distinct : builder.body.DistinctIds
  fresh : ∀ node ∈ builder.body.nodes, node.id < builder.nextId

theorem perm_flatMap_set {graphs : List Graph} {index : Nat} {graph : Graph} {node : Node}
    (h : graphs[index]? = some graph) :
    ((graphs.set index ⟨graph.nodes ++ [node]⟩).flatMap Graph.nodes).Perm
      (node :: graphs.flatMap Graph.nodes) := by
  induction graphs generalizing index with
  | nil => simp at h
  | cons first rest ih =>
    cases index with
    | zero =>
      rw [List.getElem?_cons_zero, Option.some_inj] at h
      subst h
      simp only [List.set_cons_zero, List.flatMap_cons, List.append_assoc]
      exact List.perm_middle
    | succ index =>
      rw [List.getElem?_cons_succ] at h
      rw [List.set_cons_succ, List.flatMap_cons, List.flatMap_cons]
      exact ((ih h).append_left _).trans List.perm_middle

/-- A node that is added stands among the nodes there were. -/
theorem perm_of_addNode {body after : Body} {node : Node} {block : Block}
    (h : body.addNode node block = .ok after) : after.nodes.Perm (node :: body.nodes) := by
  cases block with
  | root =>
    cases h
    simp only [Body.nodes, Body.graphs, List.flatMap_cons, List.append_assoc]
    exact List.perm_middle
  | subblock index =>
    simp only [Body.addNode] at h
    split at h
    · rename_i graph hgraph
      cases h
      simp only [Body.nodes, Body.graphs, List.flatMap_cons]
      exact ((perm_flatMap_set hgraph).append_left _).trans List.perm_middle
    · cases h

/-- Numbering is kept where the nodes and the next id are. -/
theorem Numbered.of_nodes_eq {builder other : Builder} (h : builder.Numbered)
    (hnodes : other.body.nodes = builder.body.nodes) (hnext : other.nextId = builder.nextId) :
    other.Numbered where
  distinct := by
    rw [Body.DistinctIds, hnodes]
    exact h.distinct
  fresh := by
    rw [hnodes, hnext]
    exact h.fresh

theorem Numbered.push {builder : Builder} (h : builder.Numbered) (block : Block)
    (target : Target) (args : List Operand) :
    ((Build.push block target args).runOn builder).2.Numbered := by
  simp only [Build.runOn, Build.push, ExceptT.run, ExceptT.mk, StateT.run]
  split
  · rename_i after hadd
    have hperm := perm_of_addNode hadd
    constructor
    · show (after.nodes.map Node.id).Nodup
      rw [(hperm.map Node.id).nodup_iff, List.map_cons, List.nodup_cons]
      refine ⟨?_, h.distinct⟩
      intro hmem
      obtain ⟨node, hnode, hid⟩ := List.mem_map.1 hmem
      exact Nat.ne_of_lt (h.fresh node hnode) hid
    · intro node hnode
      rcases List.mem_cons.1 (hperm.mem_iff.1 hnode) with rfl | hold
      · exact Nat.lt_succ_self _
      · exact Nat.lt_succ_of_lt (h.fresh node hold)
  · -- a misuse leaves no node, and the id it used up is not given again
    exact ⟨h.distinct, fun node hnode => Nat.lt_succ_of_lt (h.fresh node hnode)⟩

theorem Numbered.call {builder : Builder} (h : builder.Numbered) (call : Call) :
    (call.after builder).Numbered := by
  cases call with
  | varRange var upper => exact h.of_nodes_eq rfl rfl
  | indexExpr name expr => exact h.of_nodes_eq rfl rfl
  | indirectVar var => exact h.of_nodes_eq rfl rfl
  | subblock =>
    refine h.of_nodes_eq ?_ rfl
    show (builder.body.root :: (builder.body.subblocks ++ [⟨[]⟩])).flatMap Graph.nodes = _
    simp [Body.nodes, Body.graphs]
  | push block target args => exact h.push block target args

theorem numbered_foldl {builder : Builder} (h : builder.Numbered) (calls : List Call) :
    (calls.foldl Call.after builder).Numbered := by
  induction calls generalizing builder with
  | nil => exact h
  | cons call rest ih => exact ih (h.call call)

theorem numbered_afterAll (calls : List Call) : (afterAll calls).Numbered := by
  have hnodes : ({} : Builder).body.nodes = [] := rfl
  refine numbered_foldl ⟨?_, ?_⟩ calls
  · rw [Body.DistinctIds, hnodes]
    exact List.nodup_nil
  · rw [hnodes]
    simp

end Builder

/-- The body comes from calls on a new builder. -/
def Body.Built (body : Body) : Prop :=
  ∃ calls, (Builder.afterAll calls).body = body

theorem Body.Built.distinctIds {body : Body} (h : body.Built) : body.DistinctIds := by
  obtain ⟨calls, rfl⟩ := h
  exact (Builder.numbered_afterAll calls).distinct

end LoopBounds
