/-
The answer of an analysis solves the equations of the body.

An interval is found when its node is evaluated, from the intervals known then.
As no interval is changed later, it is also what the target of the node makes of
the intervals in the answer (`Explains`). The nodes taken as unbounded are the
exception, as they are not evaluated at all. Together this is `Solves`, which
every step of a successful run keeps (`invariant_solves`).

`answer_solves_equations` says this of the answer and of all nodes that the
analysis has to evaluate. The range of an index depends on the scope at the time,
so nothing is said about it here.
-/
import LoopBounds.Proofs.Analysis.Coverage

namespace LoopBounds.Analysis

/-- The interval is what the node's target makes of the intervals in the map. -/
def Explains (body : Body) (answer : Bounds) (node : Node) (range : Interval) : Prop :=
  match node.target with
  | .op name => ∃ args, answer.values node.args = .ok args ∧
      Handler.valueRange.call name args = .ok range
  | .load | .reduction => range = .unknown
  | .getIndex => True
  | .setIndirect _ => ∃ rest, answer.values node.args = .ok (.range range :: rest)
  | .maskedSubblock index => ∃ graph output, body.subblocks[index]? = some graph ∧
      graph.outputs = [output] ∧ answer[output.id]? = some range
  | .output => ∃ args, answer.values node.args = .ok args ∧
      range = (args.head?.bind Value.range?).getD .unknown

/-- The nodes taken as unbounded have no other interval, and those of all others are explained
by the map itself. -/
structure Solves (body : Body) (answer : Bounds) : Prop where
  seeded : ∀ node ∈ body.preseeded, answer[node.id]? = some .unknown
  explained : ∀ node ∈ body.nodes, node ∉ body.preseeded → ∀ range,
    answer[node.id]? = some range → Explains body answer node range

variable {body : Body} {config : Config} {skippable : Node → Prop} {nodes : List Node}
  {ctx ctx' : Context} {bounds bounds' answer : Bounds} {node : Node} {range : Interval}

/-- An explanation holds in every larger map. -/
theorem Explains.mono (h : Explains body bounds node range) (hwithin : bounds.Within answer) :
    Explains body answer node range := by
  obtain ⟨id, target, operands⟩ := node
  cases target with
  | op name =>
    obtain ⟨args, hargs, hcall⟩ := h
    exact ⟨args, hwithin.values hargs, hcall⟩
  | load => exact h
  | reduction => exact h
  | getIndex => trivial
  | setIndirect index =>
    obtain ⟨rest, hargs⟩ := h
    exact ⟨rest, hwithin.values hargs⟩
  | maskedSubblock index =>
    obtain ⟨graph, output, hgraph, houtputs, houtput⟩ := h
    exact ⟨graph, output, hgraph, houtputs, hwithin _ _ houtput⟩
  | output =>
    obtain ⟨args, hargs, hrange⟩ := h
    exact ⟨args, hwithin.values hargs, hrange⟩

/-- What an evaluation yields is explained by the intervals it was given. -/
theorem Yields.explains {args : List Value} {after : Context}
    (h : Yields body config ctx node.target args range after)
    (hargs : bounds.values node.args = .ok args) : Explains body bounds node range := by
  obtain ⟨id, target, operands⟩ := node
  cases h with
  | operation hcall => exact ⟨args, hargs, hcall⟩
  | load => rfl
  | reduction => rfl
  | output => exact ⟨args, hargs, rfl⟩
  | getIndex => trivial
  | setIndirect => exact ⟨_, hargs⟩

/-- To record a node with an interval that is explained keeps a map solved. -/
theorem Solves.insert (hids : body.DistinctIds) (h : Solves body bounds)
    (hnode : node ∈ body.nodes) (hmem : node.id ∉ bounds)
    (hexplains : Explains body bounds node range) :
    Solves body (bounds.insert node.id range) := by
  have hwithin := Bounds.within_insert hmem range
  constructor
  · intro m hm
    exact hwithin _ _ (h.seeded m hm)
  · intro m hm hseeded r hr
    rw [Bounds.getElem?_insert] at hr
    split at hr
    · rename_i hid
      cases hr
      rw [← hids.eq_of_id_eq hnode hm hid]
      exact hexplains.mono hwithin
    · exact (h.explained m hm hseeded r hr).mono hwithin

theorem invariant_solves (hids : body.DistinctIds) (block : Block) :
    Invariant body config block fun _ bounds => Solves body bounds where
  evaluate hbelow hmem hargs hyields h :=
    h.insert hids hbelow.mem_nodes hmem (hyields.explains hargs)
  enter h := h
  leave hbelow htarget hgraph hmem _ houtputs houtput h := by
    refine h.insert hids hbelow.mem_nodes hmem ?_
    -- the map after the subblock explains the masked node by the output recorded there
    rw [Explains, htarget]
    exact ⟨_, _, hgraph, houtputs, houtput⟩

theorem solves_initialBounds (hids : body.DistinctIds) : Solves body body.initialBounds where
  seeded node hnode := by
    rw [Body.getElem?_initialBounds, if_pos (List.mem_map_of_mem hnode)]
  explained _ hnode hseeded _ hrange :=
    absurd (Body.preseeded_of_initialBounds hids hnode hrange).1 hseeded

theorem Completes.solves (hids : body.DistinctIds)
    (h : Completes body config skippable body.root.nodes ctx body.initialBounds ctx' bounds') :
    Solves body bounds' :=
  h.keeps Body.has_root (invariant_solves hids .root) (solves_initialBounds hids)

/-- **The answer solves the equations of the body.** A node of the root, or of a subblock that a
chain of references leads to from there, has an interval in the answer, and that is what its target
makes of the answer itself. Only a node taken as unbounded is not evaluated, and it is unknown. -/
theorem answer_solves_equations (hbuilt : body.Built)
    (hanswer : (Engine.new body config).bounds.answer = .ok answer) :
    (∀ node, body.Below .root node → node ∉ body.preseeded →
      ∃ range, answer[node.id]? = some range ∧ Explains body answer node range) ∧
    ∀ node ∈ body.preseeded, answer[node.id]? = some .unknown := by
  have hids := hbuilt.distinctIds
  have hcompletes := completes_root hids hanswer
  have hsolves := hcompletes.solves hids
  refine ⟨?_, hsolves.seeded⟩
  intro node hbelow hseeded
  obtain ⟨range, hrange⟩ := Bounds.mem_iff.1 (hcompletes.mem_of_below hids hbelow)
  exact ⟨range, hrange, hsolves.explained node hbelow.mem_nodes hseeded range hrange⟩

theorem answer_solves_equations_layered : ∃ answer,
    (Engine.new layered {}).bounds.answer = .ok answer ∧
    ∃ range, answer[3]? = some range ∧
      Explains layered answer ⟨3, .maskedSubblock 0, [.node 2, .int 0]⟩ range := by
  obtain ⟨answer, hanswer⟩ := exists_answer_layered
  have hsolves := (answer_solves_equations built_layered hanswer).1
  exact ⟨answer, hanswer, hsolves _ below_layered (Body.not_preseeded rfl)⟩

end LoopBounds.Analysis
