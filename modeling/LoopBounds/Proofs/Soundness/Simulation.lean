/-
Executions stay within an analysis that succeeded.

The analysis and an execution go through the body in the same order, but not in
step. The analysis skips nodes that are taken as unbounded, it skips a subblock
that it has run before while the execution runs it again, and it runs a subblock
that the execution passes over because of its mask. The last two are where an
interval can be wrong:

* `Body.Rebound` — a subblock run again finds or leaves a symbol with another
  value than the analysis has seen, as the symbol is not stable;
* `Body.PassedOver` — a subblock is not run, and its literal or a symbol it would
  have assigned does not have the value that the analysis took it to have.

`Setting.agrees` is the simulation: whatever the execution does, at the places
that no such source reaches its values lie in the intervals. It is proved along
`Completes`, with a run of a subblock for the second time as a lemma of its own
(`Setting.agrees_again`), proved along the execution.
-/
import LoopBounds.Proofs.Analysis.Skipping
import LoopBounds.Proofs.Soundness.Flow

namespace LoopBounds

/-- A symbol that is not stable is read or assigned in a subblock that is run more than once. -/
inductive Body.Rebound (body : Body) : Place → Prop where
  | index {block : Block} {node : Node} {expr : Expr} {name : Symbol} :
      body.RepeatedBlock block → body.Has block node → node.Resolves body expr →
      name ∈ expr.occurrences → ¬ body.Stable name → Rebound body (.node node.id)
  | symbol {block : Block} {node : Node} {name : Symbol} : body.RepeatedBlock block →
      body.Has block node → node.assigned? body = some name → ¬ body.Stable name →
      Rebound body (.symbol name)

/-- Every masked node has a node for its mask and a literal; this is how a builder adds them. -/
def Body.LiteralMasks (body : Body) : Prop :=
  ∀ node ∈ body.nodes, ∀ index, node.target = .maskedSubblock index →
    ∃ mask other, node.args = [.node mask, .int other]

/-- Where all masked nodes have the same mask and literal. -/
theorem Body.literalMasks_of_args {body : Body} {mask : NodeId} {other : Int}
    (hargs : ∀ node ∈ body.nodes, node.subblock? = none ∨ node.args = [.node mask, .int other]) :
    body.LiteralMasks := by
  intro node hnode index htarget
  rcases hargs node hnode with hnone | hargs
  · rw [Node.subblock?_eq_some.2 htarget] at hnone
    cases hnone
  · exact ⟨mask, other, hargs⟩

/-- The mask of the node was zero, so that a literal stands for its subblock. -/
structure Node.Passed (node : Node) (history : List (NodeId × Int)) (index : Nat) (other : Int) :
    Prop where
  target : node.target = .maskedSubblock index
  mask : ∃ mask, node.args = [.node mask, .int other] ∧ (mask, 0) ∈ history

/-- What goes wrong at a node whose mask was zero: its literal is not in its interval, or its
subblock would have assigned a symbol. The order of nodes is ignored: such a symbol is a source for
the whole execution, also for an index that reads it before the node is passed over, or after
another node has assigned it. -/
inductive Body.PassedOver (body : Body) (answer : Bounds) (history : List (NodeId × Int)) :
    Place → Prop where
  | value {node : Node} {index : Nat} {other : Int} {range : Interval} : node ∈ body.nodes →
      node.Passed history index other → answer[node.id]? = some range → other ∉ range →
      PassedOver body answer history (.node node.id)
  | effect {node lower : Node} {index : Nat} {other : Int} {name : Symbol} : node ∈ body.nodes →
      node.Passed history index other → body.Below (.subblock index) lower →
      lower.assigned? body = some name → PassedOver body answer history (.symbol name)

namespace Execution

open Analysis

variable {body : Body} {config : Config} {masksCount : Bool} {answer bounds bounds' : Bounds}
  {history : List (NodeId × Int)} {source : Place → Prop} {scope : Scope}
  {state after inner final : State} {node output : Node} {nodes rest : List Node}
  {value other : Int} {range : Interval} {index : Nat} {graph : Graph}

/-! ### Runs -/

theorem Runs.values_mem (h : Runs body masksCount nodes state final) :
    ∀ entry ∈ state.values, entry ∈ final.values := by
  induction h with
  | done =>
    intro entry hentry
    exact hentry
  | step hcomputes _ ih =>
    intro entry hentry
    refine ih entry (List.mem_cons_of_mem _ ?_)
    rw [hcomputes.values_eq]
    exact hentry
  | enter _ _ _ _ _ _ ihsub ihrest =>
    intro entry hentry
    exact ihrest entry (List.mem_cons_of_mem _ (ihsub entry hentry))
  | pass _ _ _ ih =>
    intro entry hentry
    exact ih entry (List.mem_cons_of_mem _ hentry)

/-- A history that holds what a run ends with holds what it started from. -/
theorem Runs.start_history {id : NodeId}
    (h : Runs body masksCount nodes (state.record id value) final)
    (hhistory : ∀ entry ∈ final.values, entry ∈ history) :
    ∀ entry ∈ state.values, entry ∈ history := by
  intro entry hentry
  exact hhistory entry (h.values_mem entry (List.mem_cons_of_mem _ hentry))

/-- A run of some nodes is one of the first and one of the others. -/
theorem Runs.split (h : Runs body masksCount (node :: rest) state final) :
    ∃ mid, Runs body masksCount [node] state mid ∧ Runs body masksCount rest mid final := by
  cases h with
  | step hcomputes hrest => exact ⟨_, .step hcomputes .done, hrest⟩
  | enter hmask hgraph hsub houtputs hvalue hrest =>
    exact ⟨_, .enter hmask hgraph hsub houtputs hvalue .done, hrest⟩
  | pass hcounts hargs hrest => exact ⟨_, .pass hcounts hargs .done, hrest⟩

/-! ### The setting -/

/-- What the simulation rests on: an answer that solves its equations, and sources that cover
all that goes wrong. -/
structure Setting (body : Body) (masksCount : Bool) (answer : Bounds)
    (history : List (NodeId × Int)) (source : Place → Prop) : Prop where
  ids : body.DistinctIds
  plain : body.PlainIndices
  solves : Solves body answer
  rebound : ∀ place, body.Rebound place → source place
  passedOver : masksCount = true → ∀ place, body.PassedOver answer history place → source place
  literals : masksCount = true → body.LiteralMasks

/-- The value of a node is in its interval, if that of an index is the range of its expression
in a scope that holds the symbols. -/
theorem Setting.mem_of_computes (setting : Setting body masksCount answer history source)
    (h : Agrees (body.Flows source) answer scope state) (hnode : node ∈ body.nodes)
    (hcomputes : Computes body state node value after) (hrange : answer[node.id]? = some range)
    (hnot : ¬ body.Flows source (.node node.id))
    (hindex : ∀ expr, node.Resolves body expr → ∃ earlier : Scope, range = expr.range earlier ∧
      ∀ name ∈ expr.occurrences, state.symbols name ∈ earlier.range name) : value ∈ range := by
  by_cases hseeded : node ∈ body.preseeded
  · have hunknown := setting.solves.seeded node hseeded
    rw [hrange, Option.some_inj] at hunknown
    rw [hunknown]
    exact Interval.mem_unknown _
  · by_cases htarget : node.target = .getIndex
    · obtain ⟨expr, hexpr⟩ := hcomputes.resolves htarget
      obtain ⟨earlier, rfl, hsymbols⟩ := hindex expr hexpr
      exact hcomputes.mem_range hexpr hsymbols
    · have hexplains := setting.solves.explained node hnode hseeded range hrange
      exact h.mem_of_explains hnode hseeded hexplains hcomputes htarget hnot

/-- A masked node takes over the value of the output, as it does the interval. -/
theorem Setting.mem_of_output (setting : Setting body masksCount answer history source)
    (h : Agrees (body.Flows source) answer scope inner) (hnode : node ∈ body.nodes)
    (htarget : node.target = .maskedSubblock index) (hgraph : body.subblocks[index]? = some graph)
    (houtputs : graph.outputs = [output])
    (hvalue : inner.operand? (.node output.id) = some value)
    (hrange : answer[node.id]? = some range)
    (hnot : ¬ body.Flows source (.node node.id)) : value ∈ range := by
  have hseeded : node ∉ body.preseeded := Body.not_preseeded (by rw [htarget]; rfl)
  have hexplains := setting.solves.explained node hnode hseeded range hrange
  rw [Explains, htarget] at hexplains
  obtain ⟨graph', output', hgraph', houtputs', houtput'⟩ := hexplains
  rw [hgraph, Option.some_inj] at hgraph'
  rw [← hgraph', houtputs, List.cons.injEq] at houtputs'
  rw [← houtputs'.1] at houtput'
  have hflows : ¬ body.Flows source (.node output.id) := by
    intro hflows
    refine hnot (.result hnode htarget hgraph ?_ hflows)
    rw [houtputs]
    exact List.mem_singleton.2 rfl
  obtain ⟨range', hrange', hmem⟩ := h.values _ _ (mem_of_lookup hvalue) hflows
  rw [houtput', Option.some_inj] at hrange'
  rw [hrange']
  exact hmem

/-- A masked node that is passed over has a zero mask in every history that holds the state. -/
theorem Setting.passed (setting : Setting body masksCount answer history source)
    (hcounts : masksCount = true) (hnode : node ∈ body.nodes)
    (htarget : node.target = .maskedSubblock index) {others : List Int}
    (hargs : state.operands? node.args = some (0 :: other :: others))
    (hhistory : ∀ entry ∈ state.values, entry ∈ history) : node.Passed history index other := by
  obtain ⟨mask, literal, hform⟩ := setting.literals hcounts node hnode index htarget
  rw [hform] at hargs
  have hvalues := operands?_eq_some hargs
  cases hvalues with
  | cons hmask hrest =>
    cases hrest with
    | cons hother _ =>
      have hliteral : literal = other := Option.some.inj hother
      rw [hliteral] at hform
      exact ⟨htarget, mask, hform, hhistory _ (mem_of_lookup hmask)⟩

theorem Setting.mem_of_passed (setting : Setting body masksCount answer history source)
    (hcounts : masksCount = true) (hnode : node ∈ body.nodes)
    (hpassed : node.Passed history index other) (hrange : answer[node.id]? = some range)
    (hnot : ¬ body.Flows source (.node node.id)) : other ∈ range := by
  by_contra hmem
  exact hnot (.source (setting.passedOver hcounts _ (.value hnode hpassed hrange hmem)))

/-! ### Nodes that the analysis skips -/

/-- A node taken as unbounded has any value and assigns no symbol. -/
theorem Setting.agrees_seeded (setting : Setting body masksCount answer history source)
    (hseeded : node ∈ body.preseeded) (hruns : Runs body masksCount [node] state final)
    (h : Agrees (body.Flows source) answer scope state) :
    Agrees (body.Flows source) answer scope final := by
  have hnode := (Body.mem_preseeded.1 hseeded).1
  have hrange := setting.solves.seeded node hseeded
  cases hruns with
  | step hcomputes hdone =>
    cases hdone
    have hstep := h.step hnode hcomputes hrange fun _ => Interval.mem_unknown _
    cases hassigned : node.assigned? body with
    | none =>
      rw [hassigned] at hstep
      exact hstep
    | some name =>
      exact absurd hseeded (not_preseeded_of_assigned setting.ids setting.plain hassigned)
  | enter => exact absurd hseeded (Body.not_preseeded rfl)
  | pass => exact absurd hseeded (Body.not_preseeded rfl)

/-- In a subblock that is run more than once, symbols that no source reaches are stable. -/
theorem Setting.stable_of_assigned (setting : Setting body masksCount answer history source)
    {block : Block} (hrep : body.RepeatedBlock block) (hnode : body.Has block node) {name : Symbol}
    (hname : node.assigned? body = some name) (hnot : ¬ body.Flows source (.symbol name)) :
    body.Stable name := by
  by_contra hstable
  exact hnot (.source (setting.rebound _ (.symbol hrep hnode hname hstable)))

/-- One more evaluation of a node in a subblock that is run more than once. -/
theorem Setting.agrees_step_again (setting : Setting body masksCount answer history source)
    (hsettled : Settled body scope bounds) (hwithin : bounds.Within answer) {block : Block}
    (hrep : body.RepeatedBlock block) (hhas : body.Has block node) (hmem : node.id ∈ bounds)
    (hcomputes : Computes body state node value after)
    (h : Agrees (body.Flows source) answer scope state) :
    Agrees (body.Flows source) answer scope (after.record node.id value) := by
  have hnode := hhas.mem_nodes
  obtain ⟨range, hbounds⟩ := Bounds.mem_iff.1 hmem
  have hrange := hwithin _ _ hbounds
  have hvalue : ¬ body.Flows source (.node node.id) → value ∈ range := by
    intro hnot
    refine setting.mem_of_computes h hnode hcomputes hrange hnot ?_
    intro expr hexpr
    obtain ⟨earlier, heq, hle⟩ := hsettled.index node hnode expr hexpr range hbounds
    refine ⟨earlier, heq, ?_⟩
    intro name hname
    have hstable : body.Stable name := by
      by_contra hstable
      exact hnot (.source (setting.rebound _ (.index hrep hhas hexpr hname hstable)))
    have hsymbol : state.symbols name ∈ scope.range name :=
      h.symbols name fun hflows => hnot (.index hnode hexpr hname hflows)
    -- the range now is no wider than the one at the first evaluation
    exact Interval.mem_of_le (hle name hstable) hsymbol
  refine (h.step hnode hcomputes hrange hvalue).of_scope ?_
  intro name hnot
  -- the analysis assigned the symbol when it evaluated the node, and nothing else has since
  by_cases hname : node.assigned? body = some name
  · have hstable := setting.stable_of_assigned hrep hhas hname hnot
    rw [hname, Scope.getElem?_insert?_self, hsettled.entry node hnode name hname hstable, hbounds]
  · rw [Scope.getElem?_insert?_of_ne hname]

/-- A subblock that the analysis has evaluated may be run again. -/
theorem Setting.agrees_again (setting : Setting body masksCount answer history source)
    (hsettled : Settled body scope bounds) (hwithin : bounds.Within answer)
    (hruns : Runs body masksCount nodes state final) {block : Block}
    (hrep : body.RepeatedBlock block) (hnodes : ∀ node ∈ nodes, body.Has block node)
    (hmem : ∀ node ∈ nodes, node.id ∈ bounds) (hhistory : ∀ entry ∈ final.values, entry ∈ history)
    (h : Agrees (body.Flows source) answer scope state) :
    Agrees (body.Flows source) answer scope final := by
  induction hruns generalizing block with
  | done => exact h
  | step hcomputes _ ih =>
    obtain ⟨hhas, hrest⟩ := List.forall_mem_cons.1 hnodes
    obtain ⟨hid, hmem⟩ := List.forall_mem_cons.1 hmem
    exact ih hrep hrest hmem hhistory
      (setting.agrees_step_again hsettled hwithin hrep hhas hid hcomputes h)
  | @enter id index args rest graph output value state inner final _ hgraph hsub houtputs hvalue
      hrestruns ihsub ihrest =>
    obtain ⟨hhas, hrest⟩ := List.forall_mem_cons.1 hnodes
    obtain ⟨hid, hmem⟩ := List.forall_mem_cons.1 hmem
    -- the subblock is repeated as well, and all of it has intervals since its node has one
    have hsubmem := hsettled.subblock _ hhas.mem_nodes index graph rfl hgraph hid
    have hagrees := ihsub (hrep.nested hhas rfl) (Body.has_subblock hgraph) hsubmem
      (hrestruns.start_history hhistory) h
    obtain ⟨range, hbounds⟩ := Bounds.mem_iff.1 hid
    have hrange := hwithin _ _ hbounds
    exact ihrest hrep hrest hmem hhistory (hagrees.record hrange
      (setting.mem_of_output hagrees hhas.mem_nodes rfl hgraph houtputs hvalue hrange))
  | @pass id index args rest other others state final hcounts hargs hrestruns ih =>
    obtain ⟨hhas, hrest⟩ := List.forall_mem_cons.1 hnodes
    obtain ⟨hid, hmem⟩ := List.forall_mem_cons.1 hmem
    have hpassed := setting.passed hcounts hhas.mem_nodes rfl hargs
      (hrestruns.start_history hhistory)
    obtain ⟨range, hbounds⟩ := Bounds.mem_iff.1 hid
    have hrange := hwithin _ _ hbounds
    exact ih hrep hrest hmem hhistory (h.record hrange
      (setting.mem_of_passed hcounts hhas.mem_nodes hpassed hrange))

/-! ### The simulation -/

/-- A node that the analysis skips. -/
theorem Setting.agrees_skipped (setting : Setting body masksCount answer history source)
    (hsettled : Settled body scope bounds) (hwithin : bounds.Within answer)
    (hskip : body.Skippable node) (hmem : node.id ∈ bounds)
    (hruns : Runs body masksCount [node] state final)
    (hhistory : ∀ entry ∈ final.values, entry ∈ history)
    (h : Agrees (body.Flows source) answer scope state) :
    Agrees (body.Flows source) answer scope final := by
  rcases hskip with hseeded | ⟨block, hrep, hhas⟩
  · exact setting.agrees_seeded hseeded hruns h
  · exact setting.agrees_again hsettled hwithin hruns hrep
      (List.forall_mem_singleton.2 hhas) (List.forall_mem_singleton.2 hmem) hhistory h

/-- A node that the analysis evaluates, and the execution with it. -/
theorem Setting.agrees_evaluated (setting : Setting body masksCount answer history source)
    {ctx ctx' : Context} {args : List Value} (hnode : node ∈ body.nodes)
    (hargs : bounds.values node.args = .ok args)
    (hyields : Yields body config ctx node.target args range ctx')
    (hrange : answer[node.id]? = some range) (hcomputes : Computes body state node value after)
    (h : Agrees (body.Flows source) answer ctx.scope state) :
    Agrees (body.Flows source) answer ctx'.scope (after.record node.id value) := by
  rw [hyields.scope_eq hargs]
  refine h.step hnode hcomputes hrange ?_
  intro hnot
  refine setting.mem_of_computes h hnode hcomputes hrange hnot ?_
  intro expr hexpr
  -- both read the index now, the one in the scope and the other in the state
  refine ⟨ctx.scope, hyields.eq_range hargs hexpr, ?_⟩
  intro name hname
  refine h.symbols name ?_
  intro hflows
  exact hnot (.index hnode hexpr hname hflows)

/-- A subblock that the analysis runs and the execution does not. -/
theorem Setting.agrees_passed (setting : Setting body masksCount answer history source)
    {skippable : Node → Prop} {ctx ctx' : Context} (hcounts : masksCount = true)
    (hnode : node ∈ body.nodes) (hpassed : node.Passed history index other)
    (hgraph : body.subblocks[index]? = some graph)
    (hsub : Completes body config skippable graph.nodes ctx.enter bounds ctx' bounds')
    (hrange : answer[node.id]? = some range)
    (h : Agrees (body.Flows source) answer ctx.scope state) :
    Agrees (body.Flows source) answer ctx'.scope (state.record node.id other) := by
  refine Agrees.record ?_ hrange (setting.mem_of_passed hcounts hnode hpassed hrange)
  refine h.of_scope ?_
  intro name hnot
  rcases hsub.scope_below (Body.has_subblock hgraph) name with hsame | ⟨lower, hlower, hname⟩
  · exact hsame
  · exact absurd (.source (setting.passedOver hcounts _ (.effect hnode hpassed hlower hname))) hnot

/-- **The simulation.** Where an analysis of the nodes has succeeded, an execution of them stays
within its intervals at the places that no source reaches. -/
theorem Setting.agrees (setting : Setting body masksCount answer history source)
    {ctx ctx' : Context}
    (hcompletes : Completes body config body.Skippable nodes ctx bounds ctx' bounds')
    {block : Block} (hnodes : ∀ node ∈ nodes, body.Has block node)
    (hsettled : Settled body ctx.scope bounds) (hwithin : bounds'.Within answer)
    (hruns : Runs body masksCount nodes state final)
    (hhistory : ∀ entry ∈ final.values, entry ∈ history)
    (h : Agrees (body.Flows source) answer ctx.scope state) :
    Agrees (body.Flows source) answer ctx'.scope final := by
  -- along the analysis; the execution follows it node by node
  induction hcompletes generalizing block state final with
  | done =>
    cases hruns
    exact h
  | skipped hmem hskip hrest ih =>
    obtain ⟨mid, hfirst, hlast⟩ := hruns.split
    have hmidhistory : ∀ entry ∈ mid.values, entry ∈ history := by
      intro entry hentry
      exact hhistory entry (hlast.values_mem entry hentry)
    have hmid := setting.agrees_skipped hsettled (hrest.within.trans hwithin) hskip hmem hfirst
      hmidhistory h
    exact ih (List.forall_mem_cons.1 hnodes).2 hsettled hwithin hlast hhistory hmid
  | @evaluated node _ _ range _ _ _ _ _ hmem hargs hyields hrest ih =>
    obtain ⟨hhas, hafter⟩ := List.forall_mem_cons.1 hnodes
    have hnode := hhas.mem_nodes
    have hrange : answer[node.id]? = some range :=
      hwithin _ _ (hrest.within _ _ Std.ExtTreeMap.getElem?_insert_self)
    have hsettled' := hsettled.evaluate setting.ids hnode hmem hargs hyields
    cases hruns with
    | step hcomputes hlast =>
      exact ih hafter hsettled' hwithin hlast hhistory
        (setting.agrees_evaluated hnode hargs hyields hrange hcomputes h)
    -- a masked node yields nothing without a run of its subblock
    | enter => cases hyields
    | pass => cases hyields
  | @entered node _ _ index graph _ range ctx _ _ mid _ _ hmem hargs htarget hgraph _ hsub hmid
      houtputs houtput hrest ihsub ihrest =>
    obtain ⟨hhas, hafter⟩ := List.forall_mem_cons.1 hnodes
    have hnode := hhas.mem_nodes
    have hrange : answer[node.id]? = some range :=
      hwithin _ _ (hrest.within _ _ Std.ExtTreeMap.getElem?_insert_self)
    have hsettledsub := hsub.keeps (Body.has_subblock hgraph)
      (invariant_settled setting.ids (.subblock index)) hsettled
    have hsettled' : Settled body _ (mid.insert node.id range) :=
      hsettledsub.leave setting.ids hnode hmid htarget hgraph fun _ => hsub.mem_bounds
    have hwithin' : mid.Within answer :=
      ((Bounds.within_insert hmid range).trans hrest.within).trans hwithin
    cases hruns with
    | step hcomputes _ => exact absurd htarget (hcomputes.target_ne index)
    | enter _ hgraph' hsubruns houtputs' hvalue hlast =>
      cases htarget
      rw [hgraph, Option.some_inj] at hgraph'
      subst hgraph'
      have hagrees := ihsub (Body.has_subblock hgraph) hsettled hwithin' hsubruns
        (hlast.start_history hhistory) h
      exact ihrest hafter hsettled' hwithin hlast hhistory (hagrees.record hrange
        (setting.mem_of_output hagrees hnode rfl hgraph houtputs' hvalue hrange))
    | pass hcounts hpassargs hlast =>
      cases htarget
      have hpassed := setting.passed hcounts hnode rfl hpassargs (hlast.start_history hhistory)
      have hagrees := setting.agrees_passed hcounts hnode hpassed hgraph hsub hrange h
      exact ihrest hafter hsettled' hwithin hlast hhistory hagrees

end Execution

end LoopBounds
