/-
What a scope still tells about nodes evaluated before.

The range of an index is found in the scope of its time, which may have changed
since. For a stable symbol it can have changed in one way only: the symbol had
no entry then and has got one by now. `Settled` collects what follows from that
at any point of a run:

* the entry of a stable symbol is the interval of the node that assigns it;
* the range of an index was found in a scope that knew no more about stable
  symbols than the current one does;
* a masked node with an interval has a subblock with all its intervals.

The analysis starts settled (`settled_initial`), evaluating a node keeps it so
(`Settled.insert`), and so does every step of a successful run
(`invariant_settled`).
-/
import LoopBounds.Proofs.Analysis.Coverage

namespace LoopBounds.Analysis

/-- The scope and the intervals of evaluated nodes fit together, as far as stable symbols go. -/
structure Settled (body : Body) (scope : Scope) (bounds : Bounds) : Prop where
  entry : ∀ node ∈ body.nodes, ∀ name, node.assigned? body = some name → body.Stable name →
    scope[name]? = bounds[node.id]?
  index : ∀ node ∈ body.nodes, ∀ expr, node.Resolves body expr → ∀ range,
    bounds[node.id]? = some range → ∃ earlier : Scope, range = expr.range earlier ∧
      ∀ name, body.Stable name → scope.range name ≤ earlier.range name
  subblock : ∀ node ∈ body.nodes, ∀ index graph, node.target = .maskedSubblock index →
    body.subblocks[index]? = some graph → node.id ∈ bounds → ∀ m ∈ graph.nodes, m.id ∈ bounds

variable {body : Body} {config : Config} {skippable : Node → Prop} {nodes : List Node}
  {ctx ctx' : Context} {scope : Scope} {bounds bounds' : Bounds} {node : Node} {range : Interval}

/-- While its node is not evaluated, a stable symbol has no entry, so a new one only narrows. -/
theorem Settled.range_le (h : Settled body scope bounds) (hnode : node ∈ body.nodes)
    (hmem : node.id ∉ bounds) {name : Symbol} (hstable : body.Stable name) :
    (scope.insert? (node.assigned? body) range).range name ≤ scope.range name := by
  by_cases hname : node.assigned? body = some name
  · have hnone : scope[name]? = none := by
      rw [h.entry node hnode name hname hstable]
      exact Std.ExtTreeMap.getElem?_eq_none hmem
    rw [Scope.range, Scope.range, hnone]
    exact Interval.le_unknown _
  · rw [Scope.range, Scope.getElem?_insert?_of_ne hname]
    exact Interval.le_refl _

/-- To evaluate a node keeps scope and intervals settled. -/
theorem Settled.insert (hids : body.DistinctIds) (h : Settled body scope bounds)
    (hnode : node ∈ body.nodes) (hmem : node.id ∉ bounds)
    (hindex : ∀ expr, node.Resolves body expr → range = expr.range scope)
    (hsub : ∀ index graph, node.target = .maskedSubblock index →
      body.subblocks[index]? = some graph → ∀ m ∈ graph.nodes, m.id ∈ bounds) :
    Settled body (scope.insert? (node.assigned? body) range) (bounds.insert node.id range) where
  entry m hm name hname hstable := by
    rw [Bounds.getElem?_insert]
    split
    · rename_i hid
      rw [hids.eq_of_id_eq hnode hm hid, hname, Scope.getElem?_insert?_self]
    · rename_i hid
      rw [Scope.getElem?_insert?_of_ne, h.entry m hm name hname hstable]
      -- no other node assigns the symbol
      intro hother
      exact hid (congrArg Node.id (hstable.once node hnode m hm hother hname))
  index m hm expr hexpr r hr := by
    rw [Bounds.getElem?_insert] at hr
    split at hr
    · rename_i hid
      cases hr
      rw [← hids.eq_of_id_eq hnode hm hid] at hexpr
      refine ⟨scope, hindex expr hexpr, ?_⟩
      intro name hstable
      exact h.range_le hnode hmem hstable
    · obtain ⟨earlier, heq, hle⟩ := h.index m hm expr hexpr r hr
      refine ⟨earlier, heq, ?_⟩
      intro name hstable
      exact Interval.le_trans (h.range_le hnode hmem hstable) (hle name hstable)
  subblock := Covered.insert hids h.subblock hnode hsub

theorem Settled.evaluate (hids : body.DistinctIds) {args : List Value} {after : Context}
    (h : Settled body ctx.scope bounds) (hnode : node ∈ body.nodes) (hmem : node.id ∉ bounds)
    (hargs : bounds.values node.args = .ok args)
    (hyields : Yields body config ctx node.target args range after) :
    Settled body after.scope (bounds.insert node.id range) := by
  rw [hyields.scope_eq hargs]
  refine h.insert hids hnode hmem (fun expr => hyields.eq_range hargs) ?_
  intro index graph htarget
  rw [htarget] at hyields
  cases hyields

/-- A masked node is recorded after its subblock. -/
theorem Settled.leave (hids : body.DistinctIds) {index : Nat} {graph : Graph}
    (h : Settled body scope bounds) (hnode : node ∈ body.nodes) (hmem : node.id ∉ bounds)
    (htarget : node.target = .maskedSubblock index) (hgraph : body.subblocks[index]? = some graph)
    (hsub : ∀ m ∈ graph.nodes, m.id ∈ bounds) :
    Settled body scope (bounds.insert node.id range) := by
  have hsame : scope.insert? (node.assigned? body) range = scope := by
    rw [Node.assigned?, htarget]
    rfl
  rw [← hsame]
  refine h.insert hids hnode hmem ?_ ?_
  · rintro expr ⟨name, rest, hindex, -⟩
    rw [htarget] at hindex
    cases hindex
  · intro i g hi hg
    rw [htarget, Target.maskedSubblock.injEq] at hi
    rw [← hi, hgraph, Option.some_inj] at hg
    rw [← hg]
    exact hsub

theorem invariant_settled (hids : body.DistinctIds) (block : Block) :
    Invariant body config block fun ctx bounds => Settled body ctx.scope bounds where
  evaluate hbelow hmem hargs hyields h := h.evaluate hids hbelow.mem_nodes hmem hargs hyields
  enter h := h
  leave hbelow htarget hgraph hmem hsub _ _ h :=
    h.leave hids hbelow.mem_nodes hmem htarget hgraph hsub

/-- A node that assigns a symbol is evaluated for that. -/
theorem not_preseeded_of_assigned (hids : body.DistinctIds) (hplain : body.PlainIndices)
    {name : Symbol} (h : node.assigned? body = some name) : node ∉ body.preseeded := by
  rcases Node.target_of_assigned? h with htarget | ⟨index, htarget⟩
  · exact hplain.not_preseeded hids htarget
  · exact Body.not_preseeded (by rw [htarget]; rfl)

theorem settled_initial (hids : body.DistinctIds) (hplain : body.PlainIndices) :
    Settled body body.initialScope body.initialBounds where
  entry node hnode name hname hstable := by
    rw [Body.getElem?_initialScope (hstable.notLoop node hnode hname)]
    cases hrange : body.initialBounds[node.id]? with
    | none => rfl
    | some range =>
      have hseeded := (Body.preseeded_of_initialBounds hids hnode hrange).1
      exact absurd hseeded (not_preseeded_of_assigned hids hplain hname)
  index node hnode expr hexpr range hrange := by
    obtain ⟨name, rest, htarget, -⟩ := hexpr
    have hseeded := (Body.preseeded_of_initialBounds hids hnode hrange).1
    exact absurd hseeded (hplain.not_preseeded hids htarget)
  subblock := covered_initialBounds hids

end LoopBounds.Analysis
