/-
Well-formed bodies are never refused.

A body is `WellFormed` if, as far as references from the root lead, its nodes read
earlier nodes of their graph and have what their targets ask for, its subblocks
lie no deeper in each other than the limit, loop variables, indices and indirect
variables have different names, and no indirect variable is bound twice. Each
error of the analysis contradicts one of these, so a new engine answers
(`answers_of_wellFormed`).

The one error that no look at a single node excludes is that of an index which is
resolved again. It needs that a run only ever learns more about the symbols: what
an index was found to be is then still around its range when it comes back, as
ranges are monotone in the scope. `Ready` is this invariant.

The run is built step by step: a node that is reached in a ready state can be
evaluated, or its subblock run for it (`Ready.exists_step`), and this keeps the
state ready (`invariant_ready`). The steps are put together by induction on the
nodes of a graph (`Ready.exists_run`), and for the subblocks on the depth that is
left below the limit (`enterable`).
-/
import LoopBounds.Proofs.Analysis.Adequacy
import LoopBounds.Proofs.Monotone

namespace LoopBounds

/-! ### Well-formed bodies -/

/-- Whether the operands that the operation reads are nodes. A constant may be an integer. -/
def Operation.accepts : Operation → List Operand → Bool
  | .constant, .int _ :: _ => true
  | .constant, .node _ :: _ => true
  | .unary _, .node _ :: _ => true
  | .binary _, .node _ :: .node _ :: _ => true
  | .select, .node _ :: .node _ :: .node _ :: _ => true
  | _, _ => false

/-- The node has what its target asks for: operands of the right kind, an index or an indirect
variable that the body declares, or a subblock with exactly one output. -/
def Node.Fits (body : Body) (node : Node) : Prop :=
  match node.target with
  | .op name => ∀ op, Operation.ofName? name = some op → op.accepts node.args = true
  | .load | .reduction | .output => True
  | .getIndex => ∃ name rest, node.args = .name name :: rest ∧ name ∈ body.indexExprs
  | .setIndirect index => index < body.indirectVars.length ∧ ∃ id rest, node.args = .node id :: rest
  | .maskedSubblock index => ∃ graph output, body.subblocks[index]? = some graph ∧
      graph.outputs = [output]

/-- Every node reads only nodes that stand before it, or ones that are known already. -/
def ReadsEarlier (known : List NodeId) : List Node → Prop
  | [] => True
  | node :: rest => (∀ id ∈ node.inputs, id ∈ known) ∧ ReadsEarlier (node.id :: known) rest

instance instDecidableReadsEarlier (known : List NodeId) :
    (nodes : List Node) → Decidable (ReadsEarlier known nodes)
  | [] => .isTrue trivial
  | node :: rest =>
    have := instDecidableReadsEarlier (node.id :: known) rest
    inferInstanceAs (Decidable (_ ∧ _))

/-- The node binds the indirect variable. -/
def Node.Binds (body : Body) (node : Node) (var : Symbol) : Prop :=
  ∃ index, node.target = .setIndirect index ∧ body.indirectVars[index]? = some var

/-- What the analysis asks of a body and its depth limit. All conditions on nodes concern the root
and the subblocks that references lead to from there. -/
structure Body.WellFormed (body : Body) (maxDepth : Nat) : Prop where
  ordered : ∀ block graph, body.Reachable block → body.graph? block = some graph →
    ReadsEarlier [] graph.nodes
  fits : ∀ node, body.Below .root node → node.Fits body
  shallow : ∀ links block, body.Chain .root links block → links ≤ maxDepth
  loopNames : ∀ name ∈ body.varRanges.map Prod.fst,
    name ∉ body.indexExprs ∧ name ∉ body.indirectVars
  indirectNames : ∀ name ∈ body.indirectVars, name ∉ body.indexExprs
  boundOnce : ∀ var m n, body.Below .root m → body.Below .root n → m.Binds body var →
    n.Binds body var → m = n

theorem Body.mem_indexExprs {body : Body} {name : String} {expr : Expr}
    (h : body.indexExprs[name]? = some expr) : name ∈ body.indexExprs := by
  rw [Std.ExtTreeMap.mem_iff_isSome_getElem?, h]
  rfl

theorem Body.exists_indexExpr {body : Body} {name : String} (h : name ∈ body.indexExprs) :
    ∃ expr, body.indexExprs[name]? = some expr := by
  rw [Std.ExtTreeMap.mem_iff_isSome_getElem?, Option.isSome_iff_exists] at h
  exact h

theorem Node.Binds.mem_indirectVars {body : Body} {node : Node} {var : Symbol}
    (h : node.Binds body var) : var ∈ body.indirectVars := by
  obtain ⟨index, -, hvar⟩ := h
  exact List.mem_of_getElem? hvar

/-- An operation can be applied to the values of operands that it accepts. -/
theorem Operation.exists_apply {op : Operation} {operands : List Operand} {bounds : Bounds}
    {args : List Value} (h : op.accepts operands = true)
    (hargs : bounds.values operands = .ok args) (name : String) :
    ∃ range, op.apply name args = .ok range := by
  unfold accepts at h
  split at h
  -- a constant that is an integer is the only case without an interval to take
  · obtain ⟨value, values, rfl, hvalue, -⟩ := Bounds.values_cons hargs
    cases hvalue
    exact ⟨_, rfl⟩
  · obtain ⟨range, values, rfl, -⟩ := Bounds.values_node hargs
    exact ⟨_, rfl⟩
  · obtain ⟨range, values, rfl, -⟩ := Bounds.values_node hargs
    exact ⟨_, rfl⟩
  · obtain ⟨range, values, rfl, hrest⟩ := Bounds.values_node hargs
    obtain ⟨range', values', rfl, -⟩ := Bounds.values_node hrest
    exact ⟨_, rfl⟩
  · obtain ⟨range, values, rfl, hrest⟩ := Bounds.values_node hargs
    obtain ⟨range', values', rfl, hlast⟩ := Bounds.values_node hrest
    obtain ⟨range'', values'', rfl, -⟩ := Bounds.values_node hlast
    exact ⟨_, rfl⟩
  · cases h

/-- To record what is no wider than before narrows a scope. -/
theorem Scope.narrows_insert? {scope : Scope} {name? : Option Symbol} {range : Interval}
    (h : ∀ name, name? = some name → range ≤ scope.range name) :
    (scope.insert? name? range).Narrows scope := by
  intro name
  by_cases hname : name? = some name
  · rw [Scope.range, hname, Scope.getElem?_insert?_self]
    exact h name hname
  · rw [Scope.range, Scope.getElem?_insert?_of_ne hname]
    exact Interval.le_refl _

/-- The range recorded for the name, if there is one, is still around that of the expression. -/
def Scope.Surrounds (scope : Scope) (name : Symbol) (expr : Expr) : Prop :=
  ∀ previous, scope[name]? = some previous → expr.range scope ≤ previous

theorem Scope.Surrounds.range_le {scope : Scope} {name : Symbol} {expr : Expr}
    (h : scope.Surrounds name expr) : expr.range scope ≤ scope.range name := by
  rw [Scope.range]
  cases hprevious : scope[name]? with
  | none => exact Interval.le_unknown _
  | some previous => exact h previous hprevious

/-- An assignment that narrows the scope leaves recorded ranges around their expressions, if the
name of the expression is assigned nothing but the range of it. -/
theorem Scope.Surrounds.insert? {scope : Scope} {name other : Symbol} {expr : Expr}
    {range : Interval} (h : scope.Surrounds other expr) (hrange : range ≤ scope.range name)
    (hsame : name = other → range = expr.range scope) :
    (scope.insert? (some name) range).Surrounds other expr := by
  intro previous hprevious
  have hnarrows : (scope.insert? (some name) range).Narrows scope := by
    refine Scope.narrows_insert? ?_
    rintro _ ⟨⟩
    exact hrange
  -- the expression has a narrower range than it had before the assignment
  refine Interval.le_trans (expr.range_le_range hnarrows) ?_
  by_cases hname : name = other
  · rw [← hsame hname]
    rw [hname, Scope.getElem?_insert?_self, Option.some_inj] at hprevious
    rw [hprevious]
    exact Interval.le_refl _
  · rw [Scope.getElem?_insert?_of_ne (mt Option.some_inj.1 hname)] at hprevious
    exact h previous hprevious

namespace Analysis

variable {body : Body} {config : Config} {nodes : List Node} {ctx after : Context}
  {bounds : Bounds} {node : Node} {args : List Value} {range : Interval}

/-! ### What a run has learned -/

/-- The recorded range of an index is still around that of its expression, and an indirect variable
has no range before the node that binds it is evaluated. -/
structure Ready (body : Body) (scope : Scope) (bounds : Bounds) : Prop where
  index : ∀ (name : String) (expr : Expr) (previous : Interval),
    body.indexExprs[name]? = some expr → scope[name]? = some previous →
    expr.range scope ≤ previous
  unbound : ∀ node var, body.Below .root node → node.Binds body var → node.id ∉ bounds →
    scope[var]? = none

/-- An index is found within its previous range, if there is one. -/
theorem Ready.range_le {scope : Scope} {name : String} {expr : Expr}
    (h : Ready body scope bounds) (hexpr : body.indexExprs[name]? = some expr) :
    expr.range scope ≤ scope.range name :=
  Scope.Surrounds.range_le fun previous => h.index name expr previous hexpr

/-- To record an interval that assigns no symbol keeps a state ready. -/
theorem Ready.record {scope : Scope} (h : Ready body scope bounds) (id : NodeId)
    (range : Interval) : Ready body scope (bounds.insert id range) where
  index := h.index
  unbound m var hm hbinds hmem :=
    h.unbound m var hm hbinds fun hin => hmem (Bounds.mem_insert.2 (Or.inr hin))

/-- To assign a symbol keeps a state ready, if this narrows the scope, if an index gets the range of
its expression, and if no indirect variable that is still to be bound is meant. -/
theorem Ready.assign {scope : Scope} {bounds' : Bounds} {name : Symbol}
    (h : Ready body scope bounds) (hrange : range ≤ scope.range name)
    (hindex : ∀ expr, body.indexExprs[name]? = some expr → range = expr.range scope)
    (hother : ∀ m var, body.Below .root m → m.Binds body var → m.id ∉ bounds' →
      m.id ∉ bounds ∧ var ≠ name) :
    Ready body (scope.insert? (some name) range) bounds' where
  index other expr previous hexpr := by
    have hsurrounds : scope.Surrounds other expr :=
      fun previous => h.index other expr previous hexpr
    refine hsurrounds.insert? hrange ?_ previous
    rintro rfl
    exact hindex expr hexpr
  unbound m var hm hbinds hmem := by
    obtain ⟨hmem, hvar⟩ := hother m var hm hbinds hmem
    rw [Scope.getElem?_insert?_of_ne (mt Option.some_inj.1 hvar.symm)]
    exact h.unbound m var hm hbinds hmem

/-- A node assigns nothing, or an index the range of its expression, or an indirect variable. -/
theorem Yields.assigned_cases (h : Yields body config ctx node.target args range after)
    (hargs : bounds.values node.args = .ok args) :
    node.assigned? body = none ∨
    (∃ name expr, node.assigned? body = some name ∧ body.indexExprs[name]? = some expr ∧
      range = expr.range ctx.scope) ∨
    ∃ var, node.assigned? body = some var ∧ node.Binds body var := by
  obtain ⟨id, target, operands⟩ := node
  cases h with
  | getIndex hexpr hresolve =>
    obtain ⟨tail, rfl⟩ := Bounds.head_of_name hargs
    exact Or.inr (Or.inl ⟨_, _, rfl, hexpr, (scope_of_resolve hresolve).1⟩)
  | @setIndirect index var _ _ hvar =>
    exact Or.inr (Or.inr ⟨var, hvar, index, rfl, hvar⟩)
  | _ => exact Or.inl rfl

theorem Ready.evaluate (hwf : body.WellFormed config.maxDepth) (h : Ready body ctx.scope bounds)
    (hbelow : body.Below .root node) (hmem : node.id ∉ bounds)
    (hargs : bounds.values node.args = .ok args)
    (hyields : Yields body config ctx node.target args range after) :
    Ready body after.scope (bounds.insert node.id range) := by
  rw [hyields.scope_eq hargs]
  rcases hyields.assigned_cases hargs with hnone | ⟨name, expr, hname, hexpr, rfl⟩ |
    ⟨var, hvar, hbinds⟩
  · rw [hnone]
    exact h.record node.id range
  · rw [hname]
    refine h.assign (h.range_le hexpr) ?_ ?_
    · intro expr' hexpr'
      rw [hexpr, Option.some_inj] at hexpr'
      rw [hexpr']
    · intro m var hm hbinds hnew
      rw [Bounds.mem_insert, not_or] at hnew
      refine ⟨hnew.2, ?_⟩
      -- an indirect variable is no index
      rintro rfl
      exact hwf.indirectNames var hbinds.mem_indirectVars (Body.mem_indexExprs hexpr)
  · rw [hvar]
    refine h.assign ?_ ?_ ?_
    · rw [Scope.range, h.unbound node var hbelow hbinds hmem]
      exact Interval.le_unknown _
    · intro expr hexpr
      exact absurd (Body.mem_indexExprs hexpr) (hwf.indirectNames var hbinds.mem_indirectVars)
    · intro m other hm hother hnew
      rw [Bounds.mem_insert, not_or] at hnew
      refine ⟨hnew.2, ?_⟩
      -- no other node binds the variable
      rintro rfl
      exact hnew.1 (congrArg Node.id (hwf.boundOnce other node m hbelow hm hbinds hother))

theorem invariant_ready (hwf : body.WellFormed config.maxDepth) :
    Invariant body config .root fun ctx bounds => Ready body ctx.scope bounds where
  evaluate hbelow hmem hargs hyields h := h.evaluate hwf hbelow hmem hargs hyields
  enter h := h
  leave _ _ _ _ _ _ _ h := h.record _ _

theorem ready_initial {maxDepth : Nat} (hwf : body.WellFormed maxDepth) :
    Ready body body.initialScope body.initialBounds where
  index name expr previous hexpr hprevious := by
    -- a name with a range in advance is a loop variable, and those are no indices
    rw [Body.getElem?_initialScope] at hprevious
    · cases hprevious
    · intro hname
      exact (hwf.loopNames name hname).1 (Body.mem_indexExprs hexpr)
  unbound node var _ hbinds _ := by
    refine Body.getElem?_initialScope ?_
    intro hname
    exact (hwf.loopNames var hname).2 hbinds.mem_indirectVars

/-! ### Progress -/

/-- An index that stays within its previous range is resolved. -/
theorem exists_resolve {name : String} {expr : Expr}
    (h : ∀ previous, ctx.scope[name]? = some previous → expr.range ctx.scope ≤ previous) :
    ∃ after, ctx.resolve .subset name expr = (.ok (expr.range ctx.scope), after) := by
  unfold Context.resolve
  split
  · exact ⟨_, rfl⟩
  · rename_i previous hprevious
    have hle := h previous hprevious
    have haccepts : Recheck.subset.accepts (expr.range ctx.scope) previous = true := by
      simpa [Recheck.accepts] using hle
    rw [if_pos haccepts, Interval.inter?_of_le hle]
    exact ⟨_, rfl⟩

/-- A node that has what its target asks for can be evaluated, if it is not masked. -/
theorem Ready.exists_yields (h : Ready body ctx.scope bounds) (hrecheck : config.recheck = .subset)
    (hfits : node.Fits body) (hargs : bounds.values node.args = .ok args)
    (hmasked : ∀ index, node.target ≠ .maskedSubblock index) :
    ∃ range after, Yields body config ctx node.target args range after := by
  obtain ⟨id, target, operands⟩ := node
  cases target with
  | op name =>
    cases hop : Operation.ofName? name with
    | none =>
      refine ⟨.unknown, ctx, .operation ?_⟩
      simp only [Handler.valueRange, hop]
    | some op =>
      obtain ⟨range, hrange⟩ := op.exists_apply (hfits op hop) hargs name
      refine ⟨range, ctx, .operation ?_⟩
      simp only [Handler.valueRange, hop, hrange]
  | load => exact ⟨_, _, .load⟩
  | reduction => exact ⟨_, _, .reduction⟩
  | getIndex =>
    obtain ⟨name, rest, rfl, hname⟩ := hfits
    obtain ⟨_, values, rfl, hvalue, -⟩ := Bounds.values_cons hargs
    cases hvalue
    obtain ⟨expr, hexpr⟩ := Body.exists_indexExpr hname
    obtain ⟨after, hafter⟩ := exists_resolve fun previous => h.index name expr previous hexpr
    exact ⟨_, after, .getIndex hexpr (hrecheck ▸ hafter)⟩
  | setIndirect index =>
    obtain ⟨hlt, input, rest, rfl⟩ := hfits
    obtain ⟨range, values, rfl, -⟩ := Bounds.values_node hargs
    exact ⟨range, _, .setIndirect (List.getElem?_eq_getElem hlt)⟩
  | maskedSubblock index => exact absurd rfl (hmasked index)
  | output => exact ⟨_, _, .output⟩

/-- Every subblock that is one link further on than this can be run from a ready state. -/
def Enterable (body : Body) (config : Config) (links : Nat) : Prop :=
  ∀ (index : Nat) (graph : Graph) (ctx : Context) (bounds : Bounds),
    body.subblocks[index]? = some graph → body.Chain .root (links + 1) (.subblock index) →
    ctx.depth = links + 1 → Ready body ctx.scope bounds →
    ∃ ctx' bounds', Completes body config (fun _ => True) graph.nodes ctx bounds ctx' bounds'

/-- One node: it has an interval, or can be evaluated, or its subblock can be run for it. -/
theorem Ready.exists_step (hids : body.DistinctIds) (hwf : body.WellFormed config.maxDepth)
    (hrecheck : config.recheck = .subset) {links : Nat} (hsubs : Enterable body config links)
    {block : Block} (hchain : body.Chain .root links block) (hnode : body.Has block node)
    (hinputs : ∀ id ∈ node.inputs, id ∈ bounds) (hdepth : ctx.depth = links)
    (h : Ready body ctx.scope bounds) :
    ∃ ctx' bounds', Completes body config (fun _ => True) [node] ctx bounds ctx' bounds' := by
  by_cases hmem : node.id ∈ bounds
  · exact ⟨ctx, bounds, .skipped hmem trivial .done⟩
  obtain ⟨args, hargs⟩ := Bounds.exists_values fun id hid =>
    hinputs id (Node.mem_inputs_of_mem_args hid)
  have hbelow : body.Below .root node := hnode.below.of_chain hchain
  have hfits := hwf.fits node hbelow
  by_cases hmasked : ∃ index, node.target = .maskedSubblock index
  · obtain ⟨index, htarget⟩ := hmasked
    rw [Node.Fits, htarget] at hfits
    obtain ⟨graph, output, hgraph, houtputs⟩ := hfits
    have hnext := hchain.enter hnode htarget hgraph
    have hlimit : ctx.depth < config.maxDepth := hdepth ▸ hwf.shallow _ _ hnext
    -- the subblock is run first, and the node is still without an interval after that
    obtain ⟨inner, mid, hsub⟩ :=
      hsubs index graph ctx.enter bounds hgraph hnext (congrArg (· + 1) hdepth) h
    have hnew := hsub.masked_not_mem hids hbelow.mem_nodes htarget hgraph hmem
    have houtput : output ∈ graph.nodes := by
      refine List.mem_of_mem_filter (show output ∈ graph.outputs from ?_)
      rw [houtputs]
      exact List.mem_singleton_self _
    obtain ⟨range, hrange⟩ := Bounds.mem_iff.1 (hsub.mem_bounds houtput)
    exact ⟨_, _, .entered hmem hargs htarget hgraph hlimit hsub hnew houtputs hrange .done⟩
  · obtain ⟨range, after, hyields⟩ :=
      h.exists_yields hrecheck hfits hargs (not_exists.1 hmasked)
    exact ⟨_, _, .evaluated hmem hargs hyields .done⟩

/-- The nodes of a graph, one after the other: each leaves a ready state for the next. -/
theorem Ready.exists_run (hids : body.DistinctIds) (hwf : body.WellFormed config.maxDepth)
    (hrecheck : config.recheck = .subset) {links : Nat} (hsubs : Enterable body config links)
    {block : Block} (hchain : body.Chain .root links block)
    (hnodes : ∀ node ∈ nodes, body.Has block node) {known : List NodeId}
    (hreads : ReadsEarlier known nodes) (hknown : ∀ id ∈ known, id ∈ bounds)
    (hdepth : ctx.depth = links) (h : Ready body ctx.scope bounds) :
    ∃ ctx' bounds', Completes body config (fun _ => True) nodes ctx bounds ctx' bounds' := by
  induction nodes generalizing known ctx bounds with
  | nil => exact ⟨ctx, bounds, .done⟩
  | cons node rest ih =>
    obtain ⟨hnode, hrest⟩ := List.forall_mem_cons.1 hnodes
    obtain ⟨hinputs, hlater⟩ := hreads
    obtain ⟨mid, bounds', hstep⟩ := h.exists_step hids hwf hrecheck hsubs hchain hnode
      (fun id hid => hknown id (hinputs id hid)) hdepth
    have hready := hstep.keeps (List.forall_mem_singleton.2 hnode)
      ((invariant_ready hwf).of_chain hchain) h
    have hknown' : ∀ id ∈ node.id :: known, id ∈ bounds' :=
      List.forall_mem_cons.2 ⟨hstep.mem_bounds (List.mem_singleton_self _),
        fun id hid => hstep.within.mem (hknown id hid)⟩
    obtain ⟨ctx', bounds'', hrun⟩ :=
      ih hrest hlater hknown' (hstep.depth_eq.trans hdepth) hready
    exact ⟨ctx', bounds'', hstep.append hrun⟩

/-- The induction on the depth that is left below the limit. -/
theorem enterable (hids : body.DistinctIds) (hwf : body.WellFormed config.maxDepth)
    (hrecheck : config.recheck = .subset) {left links : Nat}
    (hleft : config.maxDepth ≤ links + left) : Enterable body config links := by
  induction left generalizing links with
  | zero =>
    -- no chain has another link
    intro index graph ctx bounds _ hchain
    have := hwf.shallow _ _ hchain
    omega
  | succ left ih =>
    intro index graph ctx bounds hgraph hchain hdepth hready
    have hreads := hwf.ordered _ graph ⟨_, hchain⟩ hgraph
    exact hready.exists_run hids hwf hrecheck (ih (by omega)) hchain (Body.has_subblock hgraph)
      hreads (List.forall_mem_nil _) hdepth

end Analysis

/-- **Well-formed bodies are never refused.** If an index may be resolved again to any part of its
previous range, then a new engine for a well-formed body answers with the intervals. -/
theorem answers_of_wellFormed {body : Body} {config : Config} (hbuilt : body.Built)
    (hwf : body.WellFormed config.maxDepth) (hrecheck : config.recheck = .subset) :
    ∃ bounds, (Engine.new body config).bounds.answer = .ok bounds := by
  have hids := hbuilt.distinctIds
  have hreads := hwf.ordered .root body.root ⟨0, .start⟩ rfl
  have hready : Analysis.Ready body ({ scope := body.initialScope } : Context).scope
      body.initialBounds := Analysis.ready_initial hwf
  have hsubs : Analysis.Enterable body config 0 :=
    Analysis.enterable hids hwf hrecheck (Nat.le_add_left _ _)
  obtain ⟨ctx, bounds, hcompletes⟩ := hready.exists_run hids hwf hrecheck hsubs .start
    Body.has_root hreads (List.forall_mem_nil _) rfl
  obtain ⟨log, -, hreply⟩ := Analysis.reply_of_completes hids hcompletes
  exact ⟨bounds, by rw [hreply]⟩

theorem fits_layered : layered.nodes.Forall (Node.Fits layered) := by
  have hadd : Node.Fits layered ⟨7, .op "add", [.node 5, .node 5]⟩ := by
    rintro op ⟨⟩
    rfl
  have hconstant : Node.Fits layered ⟨2, .op "constant", [.int 1]⟩ := by
    rintro op ⟨⟩
    rfl
  have hcell : Node.Fits layered ⟨0, .getIndex, [.name "cell"]⟩ := ⟨"cell", [], rfl, by decide⟩
  -- the nodes of the root, and then those of the two subblocks
  exact ⟨⟨"row", [], rfl, by decide⟩, hcell, hadd, ⟨by decide, 7, [], rfl⟩, trivial,
    ⟨_, _, rfl, rfl⟩, ⟨_, _, rfl, rfl⟩, trivial,
    hcell, trivial,
    hconstant, ⟨_, _, rfl, rfl⟩, trivial⟩

theorem wellFormed_layered : layered.WellFormed 2 where
  ordered block graph _ hgraph := by
    have hordered : ∀ graph ∈ layered.graphs, ReadsEarlier [] graph.nodes := by decide
    rw [Body.graph?_eq] at hgraph
    exact hordered graph (List.mem_of_getElem? hgraph)
  fits node hbelow := List.forall_iff_forall_mem.1 fits_layered node hbelow.mem_nodes
  shallow links block hchain := by
    refine hchain.links_le ?_
    rintro outer index ⟨-, graph, hgraph, hmem⟩
    match outer, hgraph with
    | 0, rfl => cases hmem
    | 1, rfl =>
      cases hmem with
      | head => exact Nat.one_pos
      | tail _ hmem => cases hmem
  loopNames := by decide
  indirectNames := by decide
  boundOnce var m n hm hn hmbinds hnbinds := by
    have hbinding : ∀ node ∈ layered.nodes, ∀ index < layered.indirectVars.length,
        node.target = .setIndirect index → node.id = 8 := by decide
    have hid : ∀ node, layered.Below .root node → node.Binds layered var → node.id = 8 := by
      rintro node hbelow ⟨index, htarget, hvar⟩
      exact hbinding node hbelow.mem_nodes index (List.getElem?_eq_some_iff.1 hvar).1 htarget
    exact built_layered.distinctIds.eq_of_id_eq hm.mem_nodes hn.mem_nodes
      ((hid m hm hmbinds).trans (hid n hn hnbinds).symm)

/-- The limit is the length of the longest chain of references. -/
theorem answers_of_wellFormed_layered : layered.WellFormed 2 ∧
    ∃ bounds, (Engine.new layered { maxDepth := 2 }).bounds.answer = .ok bounds :=
  ⟨wellFormed_layered, answers_of_wellFormed built_layered wellFormed_layered rfl⟩

end LoopBounds
