/-
Runs do not depend on the numbers of nodes.

`Body.renumber` gives every node another id, and every operand with it. A map of
intervals mirrors another one if it has the same intervals under the new ids
(`Bounds.Mirrors`).

* `Completes.renumber` — a run from the one map is a run from the other, step by
  step, as long as no two nodes get the same id. It sees nothing but the ids of its
  nodes and of their operands, so elsewhere the maps may differ;
* `Body.mirrors_initialBounds` — what is known in advance is mirrored as well, since
  chains of operands lead to the same nodes (`Body.obscured_renumber_iff`).
-/
import LoopBounds.Proofs.Analysis.Unbounded

namespace LoopBounds

/-! ### New numbers -/

/-- The operand under new numbers. -/
def Operand.renumber (numbering : NodeId → NodeId) : Operand → Operand
  | .node id => .node (numbering id)
  | .name text => .name text
  | .int value => .int value

/-- The node under new numbers. -/
def Node.renumber (numbering : NodeId → NodeId) (node : Node) : Node where
  id := numbering node.id
  target := node.target
  args := node.args.map (·.renumber numbering)

/-- The graph under new numbers. -/
def Graph.renumber (numbering : NodeId → NodeId) (graph : Graph) : Graph :=
  ⟨graph.nodes.map (·.renumber numbering)⟩

/-- The body under new numbers. -/
def Body.renumber (numbering : NodeId → NodeId) (body : Body) : Body :=
  { body with
    root := body.root.renumber numbering
    subblocks := body.subblocks.map (·.renumber numbering) }

section Same

variable {numbering : NodeId → NodeId} (h : ∀ id, numbering id = id)
include h

theorem Node.renumber_eq_self (node : Node) : node.renumber numbering = node := by
  have hoperand : ∀ operand : Operand, operand.renumber numbering = operand := by
    intro operand
    cases operand <;> simp [Operand.renumber, h]
  simp [renumber, hoperand, h]

theorem Graph.renumber_eq_self (graph : Graph) : graph.renumber numbering = graph := by
  simp [renumber, Node.renumber_eq_self h]

theorem Body.renumber_eq_self (body : Body) : body.renumber numbering = body := by
  simp [renumber, Graph.renumber_eq_self h]

end Same

theorem Node.inputs_renumber (numbering : NodeId → NodeId) (node : Node) :
    (node.renumber numbering).inputs = node.inputs.map numbering := by
  simp only [inputs, renumber, List.filterMap_map, List.map_filterMap]
  refine List.filterMap_congr fun operand _ => ?_
  cases operand <;> rfl

theorem Graph.outputs_renumber (numbering : NodeId → NodeId) (graph : Graph) :
    (graph.renumber numbering).outputs = graph.outputs.map (·.renumber numbering) :=
  List.filter_map

theorem Body.nodes_renumber (numbering : NodeId → NodeId) (body : Body) :
    (body.renumber numbering).nodes = body.nodes.map (·.renumber numbering) := by
  simp only [nodes, graphs, renumber, List.flatMap_cons, List.flatMap_map, List.map_append,
    List.map_flatMap, Graph.renumber]

theorem Body.DistinctIds.renumber {body : Body} (hids : body.DistinctIds)
    {numbering : NodeId → NodeId} (hinj : Function.Injective numbering) :
    (body.renumber numbering).DistinctIds := by
  have hmap : (body.renumber numbering).nodes.map Node.id =
      (body.nodes.map Node.id).map numbering := by
    simp only [Body.nodes_renumber, List.map_map]
    rfl
  rw [DistinctIds, hmap]
  exact hids.map hinj

/-! ### Maps under new numbers -/

/-- The node and those that it reads lie in a set of ids. -/
def Node.LiesIn (region : NodeId → Prop) (node : Node) : Prop :=
  region node.id ∧ ∀ id ∈ node.inputs, region id

namespace Bounds

/-- The second map has the intervals of the first one under new ids, so far as those lie in a
set. -/
def Mirrors (numbering : NodeId → NodeId) (region : NodeId → Prop) (bounds other : Bounds) : Prop :=
  ∀ id, region id → other[numbering id]? = bounds[id]?

variable {numbering : NodeId → NodeId} {region : NodeId → Prop} {bounds other : Bounds}
  {id : NodeId}

theorem Mirrors.mem_iff (h : Mirrors numbering region bounds other) (hid : region id) :
    numbering id ∈ other ↔ id ∈ bounds := by
  rw [Bounds.mem_iff, Bounds.mem_iff, h id hid]

theorem Mirrors.insert (hinj : Function.Injective numbering)
    (h : Mirrors numbering region bounds other) (new : NodeId) (range : Interval) :
    Mirrors numbering region (bounds.insert new range) (other.insert (numbering new) range) := by
  intro id hid
  simp only [getElem?_insert, hinj.eq_iff, h id hid]

theorem Mirrors.values (h : Mirrors numbering region bounds other) {node : Node}
    (hinputs : ∀ id ∈ node.inputs, region id) {args : List Value}
    (hargs : bounds.values node.args = .ok args) :
    other.values (node.renumber numbering).args = .ok args := by
  refine values_map (fun operand hoperand value hvalue => ?_) hargs
  cases operand with
  | node id =>
    obtain ⟨range, hrange, rfl⟩ := value_node hvalue
    rw [← h id (hinputs id (Node.mem_inputs_of_mem_args hoperand))] at hrange
    simp only [Operand.renumber, Bounds.value, hrange]
  | name text => exact hvalue
  | int n => exact hvalue

end Bounds

/-! ### Runs -/

/-- The other body has the same declarations and, under new numbers, the same subblocks. The roots
may differ. -/
structure Body.Alike (numbering : NodeId → NodeId) (body other : Body) : Prop where
  indexExprs : other.indexExprs = body.indexExprs
  indirectVars : other.indirectVars = body.indirectVars
  subblocks : other.subblocks = body.subblocks.map (·.renumber numbering)

theorem Body.alike_self (body : Body) : body.Alike (fun id => id) body :=
  ⟨rfl, rfl, by simp [Graph.renumber_eq_self]⟩

namespace Analysis

/-- The nodes are run without an error, whichever of them are skipped. -/
abbrev Succeeds (body : Body) (config : Config) :=
  Completes body config fun _ => True

variable {body other : Body} {config : Config} {nodes : List Node} {ctx ctx' : Context}
  {bounds bounds' : Bounds} {numbering : NodeId → NodeId} {region : NodeId → Prop}

theorem Yields.alike {target : Target} {args : List Value} {range : Interval}
    (halike : body.Alike numbering other) (h : Yields body config ctx target args range ctx') :
    Yields other config ctx target args range ctx' := by
  cases h with
  | operation hcall => exact .operation hcall
  | load => exact .load
  | reduction => exact .reduction
  | output => exact .output
  | getIndex hexpr hresolve => exact .getIndex (halike.indexExprs ▸ hexpr) hresolve
  | setIndirect hvar => exact .setIndirect (halike.indirectVars ▸ hvar)

/-- A run goes the same way under new numbers. -/
theorem Completes.renumber (h : Succeeds body config nodes ctx bounds ctx' bounds')
    (halike : body.Alike numbering other) (hinj : Function.Injective numbering)
    (hsubs : ∀ graph ∈ body.subblocks, ∀ node ∈ graph.nodes, node.LiesIn region)
    (hnodes : ∀ node ∈ nodes, node.LiesIn region) {start : Bounds}
    (hstart : bounds.Mirrors numbering region start) :
    ∃ final, Succeeds other config (nodes.map (·.renumber numbering)) ctx start ctx' final ∧
      bounds'.Mirrors numbering region final := by
  induction h generalizing start with
  | done => exact ⟨start, .done, hstart⟩
  | skipped hmem hskip _ ih =>
    obtain ⟨hnode, hrest⟩ := List.forall_mem_cons.1 hnodes
    obtain ⟨final, hrun, hfinal⟩ := ih hrest hstart
    exact ⟨final, .skipped ((hstart.mem_iff hnode.1).2 hmem) hskip hrun, hfinal⟩
  | @evaluated node _ _ range _ _ _ _ _ hmem hargs hyields _ ih =>
    obtain ⟨hnode, hrest⟩ := List.forall_mem_cons.1 hnodes
    obtain ⟨final, hrun, hfinal⟩ := ih hrest (hstart.insert hinj node.id range)
    exact ⟨final, .evaluated (mt (hstart.mem_iff hnode.1).1 hmem) (hstart.values hnode.2 hargs)
      (hyields.alike halike) hrun, hfinal⟩
  | @entered node _ _ index graph output range _ _ _ _ _ _ hmem hargs htarget hgraph hdepth _ hmid
      houtputs houtput _ ihsub ihrest =>
    obtain ⟨hnode, hrest⟩ := List.forall_mem_cons.1 hnodes
    have hgraphnodes := hsubs graph (List.mem_of_getElem? hgraph)
    obtain ⟨mid', hsub, hmid'⟩ := ihsub hgraphnodes hstart
    obtain ⟨final, hrun, hfinal⟩ := ihrest hrest (hmid'.insert hinj node.id range)
    have hgraph' : other.subblocks[index]? = some (graph.renumber numbering) := by
      rw [halike.subblocks, List.getElem?_map, hgraph]
      rfl
    -- the output of the subblock is one of its nodes
    have hmemoutputs : output ∈ graph.outputs := houtputs ▸ List.mem_singleton_self output
    have houtput' := hgraphnodes output (List.mem_filter.1 hmemoutputs).1
    have houtputs' : (graph.renumber numbering).outputs = [output.renumber numbering] := by
      rw [Graph.outputs_renumber, houtputs]
      rfl
    rw [← hmid' output.id houtput'.1] at houtput
    exact ⟨final, .entered (mt (hstart.mem_iff hnode.1).1 hmem) (hstart.values hnode.2 hargs)
      htarget hgraph' hdepth hsub (mt (hmid'.mem_iff hnode.1).1 hmid) houtputs' houtput hrun,
      hfinal⟩

end Analysis

/-! ### What is known in advance -/

namespace Body

section

variable {body other : Body} {numbering : NodeId → NodeId} {node : Node}
  (hinj : Function.Injective numbering)
  (hnodes : ∀ m, m ∈ other.nodes ↔ ∃ k ∈ body.nodes, k.renumber numbering = m)
include hinj hnodes

theorem reads_renumber_iff {input : Node} : other.Reads (node.renumber numbering) input ↔
    ∃ m, body.Reads node m ∧ m.renumber numbering = input := by
  simp only [Reads, hnodes, Node.inputs_renumber]
  constructor
  · rintro ⟨⟨m, hm, rfl⟩, hinput⟩
    exact ⟨m, ⟨hm, (List.mem_map_of_injective hinj).1 hinput⟩, rfl⟩
  · rintro ⟨m, ⟨hm, hinput⟩, rfl⟩
    exact ⟨⟨m, hm, rfl⟩, List.mem_map_of_mem hinput⟩

/-- Chains of operands are the same under new numbers. -/
theorem dependsOn_renumber_iff {source : Node} : other.DependsOn (node.renumber numbering) source ↔
    ∃ m, body.DependsOn node m ∧ m.renumber numbering = source := by
  constructor
  · intro h
    induction h with
    | refl => exact ⟨node, .refl, rfl⟩
    | tail _ hreads ih =>
      obtain ⟨k, hk, rfl⟩ := ih
      obtain ⟨m, hm, rfl⟩ := (reads_renumber_iff hinj hnodes).1 hreads
      exact ⟨m, hk.tail hm, rfl⟩
  · rintro ⟨m, hm, rfl⟩
    exact hm.lift _ fun _ k hk => (reads_renumber_iff hinj hnodes).2 ⟨k, hk, rfl⟩

theorem obscured_renumber_iff : other.Obscured (node.renumber numbering) ↔ body.Obscured node := by
  simp only [Obscured, dependsOn_renumber_iff hinj hnodes]
  constructor
  · rintro ⟨_, ⟨m, hm, rfl⟩, hsource⟩
    exact ⟨m, hm, hsource⟩
  · rintro ⟨m, hm, hsource⟩
    exact ⟨_, ⟨m, hm, rfl⟩, hsource⟩

theorem mem_unbounded_renumber_iff {id : NodeId} :
    numbering id ∈ other.unbounded ↔ id ∈ body.unbounded := by
  simp only [mem_unbounded_iff, hnodes]
  constructor
  · rintro ⟨_, ⟨m, hm, rfl⟩, hid, hobscured⟩
    exact ⟨m, hm, hinj hid, (obscured_renumber_iff hinj hnodes).1 hobscured⟩
  · rintro ⟨m, hm, rfl, hobscured⟩
    exact ⟨_, ⟨m, hm, rfl⟩, rfl, (obscured_renumber_iff hinj hnodes).2 hobscured⟩

/-- A body with the same nodes under new numbers starts from the same intervals. -/
theorem mirrors_initialBounds (region : NodeId → Prop) :
    body.initialBounds.Mirrors numbering region other.initialBounds := by
  intro id _
  have hiff : numbering id ∈ other.preseeded.map Node.id ↔ id ∈ body.preseeded.map Node.id := by
    simp only [List.mem_map, mem_preseeded, hnodes]
    constructor
    · rintro ⟨_, ⟨⟨m, hm, rfl⟩, hunbounded, htarget⟩, hid⟩
      exact ⟨m, ⟨hm, (mem_unbounded_renumber_iff hinj hnodes).1 hunbounded, htarget⟩, hinj hid⟩
    · rintro ⟨m, ⟨hm, hunbounded, htarget⟩, rfl⟩
      exact ⟨_, ⟨⟨m, hm, rfl⟩, (mem_unbounded_renumber_iff hinj hnodes).2 hunbounded, htarget⟩, rfl⟩
  simp only [getElem?_initialBounds, hiff]

end

end Body

end LoopBounds
