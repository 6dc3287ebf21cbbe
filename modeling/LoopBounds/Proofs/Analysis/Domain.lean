/-
What an answer speaks of.

`answer_domain` says for which nodes an answer has an interval, and for which
symbols the scope it leaves has a range: exactly for what is evaluated with the
root, and for what was known in advance. Nothing else gets an entry, and nothing
that is evaluated is left without.

For symbols this is an invariant of the run: at any time the scope has the loop
variables and the symbols that an evaluated node assigns (`invariant_symbols`).
Which nodes those are in the end is known from the accounting of the run.
-/
import LoopBounds.Proofs.Analysis.Accounting

namespace LoopBounds

variable {body : Body} {config : Config}

theorem Scope.mem_insert? {scope : Scope} {name : Symbol} {name? : Option Symbol}
    {range : Interval} : name ∈ scope.insert? name? range ↔ name? = some name ∨ name ∈ scope := by
  cases name? with
  | none => simp [Scope.insert?]
  | some other => simp [Scope.insert?, Std.ExtTreeMap.mem_insert]

/-- A node assigns a symbol as an index of that name, or as a binding of that variable. -/
theorem Node.assigned?_eq_some {node : Node} {name : Symbol} : node.assigned? body = some name ↔
    (node.target = .getIndex ∧ ∃ rest, node.args = .name name :: rest) ∨
      ∃ index, node.target = .setIndirect index ∧ body.indirectVars[index]? = some name := by
  unfold assigned?
  split
  · rename_i htarget hargs
    simp [htarget, hargs, eq_comm]
  · rename_i htarget
    simp [htarget]
  · rename_i hbinding hindex
    constructor
    · intro h
      cases h
    · rintro (⟨htarget, rest, hargs⟩ | ⟨index, htarget, -⟩)
      · exact absurd hargs (hindex name rest htarget)
      · exact absurd htarget (hbinding index)

/-- The nodes with an interval in advance are the unbounded ones that are not evaluated. -/
theorem Body.mem_initialBounds {id : NodeId} : id ∈ body.initialBounds ↔
    ∃ node ∈ body.nodes, node.id = id ∧
      node.id ∈ body.unbounded ∧ node.target.isRecomputed = false := by
  have hseeded : id ∈ body.initialBounds ↔ id ∈ body.preseeded.map Node.id := by
    rw [Bounds.mem_iff, getElem?_initialBounds]
    split <;> simp_all
  rw [hseeded, List.mem_map]
  constructor
  · rintro ⟨node, hnode, hid⟩
    obtain ⟨hbody, hunbounded⟩ := mem_preseeded.1 hnode
    exact ⟨node, hbody, hid, hunbounded⟩
  · rintro ⟨node, hbody, hid, hunbounded⟩
    exact ⟨node, mem_preseeded.2 ⟨hbody, hunbounded⟩, hid⟩

namespace Analysis

variable {skippable : Node → Prop} {ctx' : Context} {bounds' : Bounds}

/-- The scope has the loop variables and what the nodes evaluated so far assign. -/
theorem invariant_symbols (hids : body.DistinctIds) (block : Block) :
    Invariant body config block fun ctx bounds => body.initialBounds.Within bounds ∧
      ∀ name, name ∈ ctx.scope ↔ name ∈ body.varRanges.map Prod.fst ∨
        ∃ node ∈ body.evaluated bounds, node.assigned? body = some name where
  evaluate {node _ range _ _ _} hbelow hmem hargs hyields h := by
    refine ⟨h.1.trans (Bounds.within_insert hmem range), ?_⟩
    intro name
    have hperm := hids.evaluated_insert hbelow.mem_nodes hmem (fun hin => hmem (h.1.mem hin)) range
    rw [hyields.scope_eq hargs, Scope.mem_insert?, h.2 name]
    simp only [hperm.mem_iff, List.mem_cons, exists_eq_or_imp]
    exact or_left_comm
  enter h := h
  leave {node index _ _ range _ _} hbelow htarget _ hmem _ _ _ h := by
    refine ⟨h.1.trans (Bounds.within_insert hmem range), ?_⟩
    intro name
    have hperm := hids.evaluated_insert hbelow.mem_nodes hmem (fun hin => hmem (h.1.mem hin)) range
    have hnone : node.assigned? body = none := by
      rw [Node.assigned?, htarget]
    -- a masked node assigns nothing itself
    simp only [hperm.mem_iff, List.mem_cons, exists_eq_or_imp, hnone, reduceCtorEq, false_or]
    exact h.2 name

/-- The symbols after a run of the root. -/
theorem Completes.mem_scope (hids : body.DistinctIds)
    (h : Completes body config skippable body.root.nodes { scope := body.initialScope }
      body.initialBounds ctx' bounds') {name : Symbol} :
    name ∈ ctx'.scope ↔ name ∈ body.varRanges.map Prod.fst ∨
      ∃ node, (body.Below .root node ∧ node ∉ body.preseeded) ∧
        node.assigned? body = some name := by
  have hstart : ∀ name, name ∈ body.initialScope ↔ name ∈ body.varRanges.map Prod.fst ∨
      ∃ node ∈ body.evaluated body.initialBounds, node.assigned? body = some name := by
    intro name
    simp [Body.mem_initialScope, Body.evaluated_initialBounds]
  have hsymbols := (h.keeps Body.has_root (invariant_symbols hids .root) ⟨.refl _, hstart⟩).2
  simp only [hsymbols, h.mem_evaluated hids]

end Analysis

/-- **The domain of an answer.** An answer has intervals for the nodes of the root, for those of the
subblocks that references lead to from there, and for the unbounded nodes of any graph that are not
evaluated; and for no others. The scope it leaves has ranges for the loop variables, for the indices
that are evaluated, and for the indirect variables that are bound; and for no others. -/
theorem answer_domain {answer : Bounds} (hbuilt : body.Built)
    (hanswer : (Engine.new body config).bounds.answer = .ok answer) :
    (∀ id, id ∈ answer ↔ ∃ node ∈ body.nodes, node.id = id ∧ (body.Below .root node ∨
      node.id ∈ body.unbounded ∧ node.target.isRecomputed = false)) ∧
    ∀ name, name ∈ (Engine.new body config).bounds.engine.context.scope ↔
      name ∈ body.varRanges.map Prod.fst ∨
      (∃ node, body.Below .root node ∧ node.target = .getIndex ∧ node.id ∉ body.unbounded ∧
        ∃ rest, node.args = .name name :: rest) ∨
      ∃ node, body.Below .root node ∧ ∃ index, node.target = .setIndirect index ∧
        body.indirectVars[index]? = some name := by
  have hids := hbuilt.distinctIds
  have hcompletes := Analysis.completes_root hids hanswer
  constructor
  · intro id
    rw [hcompletes.mem_iff hids, Body.mem_initialBounds]
    constructor
    · rintro (⟨node, hnode, hid, hunbounded⟩ | ⟨node, hbelow, hid⟩)
      · exact ⟨node, hnode, hid, Or.inr hunbounded⟩
      · exact ⟨node, hbelow.mem_nodes, hid, Or.inl hbelow⟩
    · rintro ⟨node, hnode, hid, hbelow | hunbounded⟩
      · exact Or.inr ⟨node, hbelow, hid⟩
      · exact Or.inl ⟨node, hnode, hid, hunbounded⟩
  · intro name
    rw [hcompletes.mem_scope hids]
    refine or_congr_right ?_
    simp only [Node.assigned?_eq_some]
    constructor
    · rintro ⟨node, ⟨hbelow, hseeded⟩, ⟨htarget, hargs⟩ | hbinding⟩
      · refine Or.inl ⟨node, hbelow, htarget, ?_, hargs⟩
        intro hunbounded
        exact hseeded (Body.mem_preseeded.2 ⟨hbelow.mem_nodes, hunbounded, by rw [htarget]; rfl⟩)
      · exact Or.inr ⟨node, hbelow, hbinding⟩
    · rintro (⟨node, hbelow, htarget, hbounded, hargs⟩ | ⟨node, hbelow, hbinding⟩)
      · refine ⟨node, ⟨hbelow, ?_⟩, Or.inl ⟨htarget, hargs⟩⟩
        intro hseeded
        exact hbounded (Body.mem_preseeded.1 hseeded).2.1
      · obtain ⟨index, htarget, -⟩ := id hbinding
        exact ⟨node, ⟨hbelow, Body.not_preseeded (by rw [htarget]; rfl)⟩, Or.inr hbinding⟩

/-- A body with a subblock that nothing refers to. -/
def detached : Body :=
  (Builder.afterAll [
    .varRange "i" 9, .indirectVar "tmp", .indexExpr "row" (.sym "i"),
    .indexExpr "cell" (.sym "tmp" + .sym "i"), .subblock, .subblock,
    .push (.subblock 0) .getIndex [.name "cell"],
    .push (.subblock 0) .output [.node 0],
    .push (.subblock 1) .load [.name "buf"],
    .push (.subblock 1) .getIndex [.name "row"],
    .push .root (.op "constant") [.int 1],
    .push .root (.setIndirect 0) [.node 4],
    .push .root (.maskedSubblock 0) [.node 4, .int 0]]).body

/-- The answer has the index of the subblock that is run, and of the other one only the load. -/
theorem answer_domain_detached : ∃ answer,
    (Engine.new detached {}).bounds.answer = .ok answer ∧ 0 ∈ answer ∧ 2 ∈ answer ∧
    (Engine.new detached {}).interval? 3 = none ∧
    "cell" ∈ (Engine.new detached {}).bounds.engine.context.scope ∧
    "tmp" ∈ (Engine.new detached {}).bounds.engine.context.scope := by
  have hinterval : (Engine.new detached {}).interval? 4 = some (.singleton 1) := by decide +kernel
  obtain ⟨answer, hanswer, -⟩ := Engine.exists_of_interval? hinterval
  have hbuilt : detached.Built := ⟨_, rfl⟩
  obtain ⟨hnodes, hsymbols⟩ := answer_domain hbuilt hanswer
  have hindex : detached.Below .root ⟨0, .getIndex, [.name "cell"]⟩ :=
    ⟨1, .subblock 0, Body.Chain.start.link ⟨by decide, _, rfl, by decide⟩, _, rfl, by decide⟩
  have hbinding : detached.Below .root ⟨5, .setIndirect 0, [.node 4]⟩ :=
    ⟨0, .root, .start, _, rfl, by decide⟩
  have hunbounded : 2 ∈ detached.unbounded ∧ 0 ∉ detached.unbounded := by decide +kernel
  refine ⟨answer, hanswer, ?_, ?_, by decide +kernel, ?_, ?_⟩
  · exact (hnodes 0).2 ⟨_, hindex.mem_nodes, rfl, Or.inl hindex⟩
  · exact (hnodes 2).2 ⟨⟨2, .load, [.name "buf"]⟩, by decide, rfl, Or.inr ⟨hunbounded.1, rfl⟩⟩
  · exact (hsymbols "cell").2 (Or.inr (Or.inl ⟨_, hindex, rfl, hunbounded.2, _, rfl⟩))
  · exact (hsymbols "tmp").2 (Or.inr (Or.inr ⟨_, hbinding, 0, rfl, rfl⟩))

end LoopBounds
