/-
The order of independent nodes does not matter.

Two nodes must keep their order if the second one reads the first one, or if both
are evaluated by submodules, which see the scope or run further graphs
(`Node.Precedes`). Neighbours of any other kind can change places: one of them is
then pure, that is, its interval depends on its operands alone.

* `Completes.delay`, `Completes.hurry` — a pure node moves past any other node. A
  subblock that is run in between neither reads nor records a node of the root
  (`Completes.besides`), so it runs in the same way whether the pure node has its
  interval or not;
* `Completes.hoist` — a node moves to the front, past all nodes that need not
  precede it;
* `Completes.reorder` — so a list of nodes is brought into another order, one node
  after the other.

What is known in advance depends only on which nodes there are, hence a reordered
body has the same answer and leaves the same context (`answer_of_reordered`).
-/
import LoopBounds.Proofs.Analysis.Adequacy
import LoopBounds.Proofs.Analysis.Renumbering
import Mathlib.Logic.Equiv.Basic

namespace LoopBounds

/-! ### Nodes that a subblock has nothing to do with -/

namespace Bounds

/-- The maps are the same, but for one id at most. -/
abbrev SameBut (id : NodeId) : Bounds → Bounds → Prop :=
  Mirrors (fun key => key) (· ≠ id)

variable {id : NodeId} {bounds other : Bounds}

theorem sameBut_insert (bounds : Bounds) (id : NodeId) (range : Interval) :
    SameBut id bounds (bounds.insert id range) := by
  intro key hkey
  rw [getElem?_insert, if_neg (Ne.symm hkey)]

theorem SameBut.symm (h : SameBut id bounds other) : SameBut id other bounds :=
  fun key hkey => (h key hkey).symm

theorem SameBut.eq_insert (h : SameBut id bounds other) {range : Interval}
    (hid : other[id]? = some range) : other = bounds.insert id range := by
  refine Std.ExtTreeMap.ext_getElem? fun key => ?_
  rw [getElem?_insert]
  split
  · rename_i hkey
    rw [← hkey]
    exact hid
  · rename_i hkey
    exact h key (Ne.symm hkey)

end Bounds

namespace Body

/-- Every node that is read lies in the graph of its reader. -/
def LocalOperands (body : Body) : Prop :=
  ∀ graph ∈ body.graphs, ∀ node ∈ graph.nodes, ∀ id ∈ node.inputs, id ∈ graph.nodes.map Node.id

instance (body : Body) : Decidable body.LocalOperands :=
  inferInstanceAs (Decidable (∀ graph ∈ body.graphs, _))

/-- No node of a subblock has this id or reads it. -/
def Outside (body : Body) (id : NodeId) : Prop :=
  ∀ graph ∈ body.subblocks, ∀ node ∈ graph.nodes, node.LiesIn (· ≠ id)

/-- The body with the nodes of the root in another order. -/
def reorder (body : Body) (order : List Node) : Body :=
  { body with root := ⟨order⟩ }

variable {body : Body} {node : Node}

theorem alike_reorder (body : Body) (order : List Node) (numbering : NodeId → NodeId) :
    body.Alike numbering ((body.reorder order).renumber numbering) :=
  ⟨rfl, rfl, rfl⟩

theorem LocalOperands.outside (hlocal : body.LocalOperands) (hids : body.DistinctIds)
    (hnode : node ∈ body.root.nodes) : body.Outside node.id := by
  intro graph hgraph m hm
  obtain ⟨index, hindex⟩ := List.mem_iff_getElem?.1 hgraph
  -- an id of a node in the subblock is none of a node in the root
  have hother : ∀ k ∈ graph.nodes, k.id ≠ node.id := by
    intro k hk hid
    have hblock := hids.block_eq (has_subblock hindex k hk) (has_root node hnode) hid
    cases hblock
  refine ⟨hother m hm, fun id hid => ?_⟩
  obtain ⟨k, hk, rfl⟩ := List.mem_map.1 (hlocal graph (List.mem_cons_of_mem _ hgraph) m hm id hid)
  exact hother k hk

theorem LocalOperands.outside_input (hlocal : body.LocalOperands) (hids : body.DistinctIds)
    (hnode : node ∈ body.root.nodes) {id : NodeId} (hid : id ∈ node.inputs) :
    body.Outside id := by
  obtain ⟨source, hsource, rfl⟩ := List.mem_map.1
    (hlocal body.root List.mem_cons_self node hnode id hid)
  exact hlocal.outside hids hsource

end Body

/-- The second node reads the first one, or both are evaluated by submodules. -/
def Node.Precedes (first second : Node) : Prop :=
  first.id ∈ second.inputs ∨
    (first.target.isSubmodule = true ∧ second.target.isSubmodule = true)

namespace Analysis

variable {body : Body} {config : Config} {node first second : Node} {nodes rest order : List Node}
  {ctx ctx' : Context} {bounds bounds' other : Bounds} {id : NodeId}

/-- A run does not touch an id that is none of its nodes'. -/
theorem Completes.untouched (h : Succeeds body config nodes ctx bounds ctx' bounds')
    (hout : body.Outside id) (hnodes : ∀ node ∈ nodes, node.id ≠ id) :
    bounds'[id]? = bounds[id]? := by
  induction h with
  | done => rfl
  | skipped _ _ _ ih => exact ih (List.forall_mem_cons.1 hnodes).2
  | evaluated _ _ _ _ ih =>
    obtain ⟨hnode, hrest⟩ := List.forall_mem_cons.1 hnodes
    rw [ih hrest, Bounds.getElem?_insert, if_neg hnode]
  | entered _ _ _ hgraph _ _ _ _ _ _ ihsub ihrest =>
    obtain ⟨hnode, hrest⟩ := List.forall_mem_cons.1 hnodes
    rw [ihrest hrest, Bounds.getElem?_insert, if_neg hnode]
    exact ihsub fun m hm => (hout _ (List.mem_of_getElem? hgraph) m hm).1

theorem Completes.mem_iff_untouched (h : Succeeds body config nodes ctx bounds ctx' bounds')
    (hout : body.Outside id) (hnodes : ∀ node ∈ nodes, node.id ≠ id) :
    id ∈ bounds' ↔ id ∈ bounds := by
  rw [Bounds.mem_iff, Bounds.mem_iff, h.untouched hout hnodes]

/-- A run that has nothing to do with an id goes the same way whatever is known of it. -/
theorem Completes.besides (h : Succeeds body config nodes ctx bounds ctx' bounds')
    (hout : body.Outside id) (hnodes : ∀ node ∈ nodes, node.LiesIn (· ≠ id))
    (hother : Bounds.SameBut id bounds other) :
    ∃ other', Succeeds body config nodes ctx other ctx' other' ∧
      Bounds.SameBut id bounds' other' := by
  obtain ⟨other', hrun, hsame⟩ :=
    h.renumber body.alike_self (fun _ _ hid => hid) hout hnodes hother
  have hmap : nodes.map (·.renumber fun key => key) = nodes := by
    simp [Node.renumber_eq_self]
  rw [hmap] at hrun
  exact ⟨other', hrun, hsame⟩

/-! ### Single nodes -/

theorem Completes.split (h : Succeeds body config (node :: rest) ctx bounds ctx' bounds') :
    ∃ mid bounds'', Succeeds body config [node] ctx bounds mid bounds'' ∧
      Succeeds body config rest mid bounds'' ctx' bounds' := by
  have happend : Succeeds body config ([node] ++ rest) ctx bounds ctx' bounds' := h
  exact happend.split_append

/-- A node is passed over, or all that it reads has an interval. -/
theorem Completes.skipped_or_read (h : Succeeds body config [node] ctx bounds ctx' bounds') :
    (node.id ∈ bounds ∧ ctx' = ctx ∧ bounds' = bounds) ∨ ∀ id ∈ node.inputs, id ∈ bounds := by
  have hread : ∀ args, bounds.values node.args = .ok args → ∀ id ∈ node.inputs, id ∈ bounds :=
    fun _ hargs id hid => Bounds.mem_of_values hargs id (Node.mem_args_of_mem_inputs hid)
  cases h with
  | skipped hmem _ hrest =>
    cases hrest
    exact Or.inl ⟨hmem, rfl, rfl⟩
  | evaluated _ hargs => exact Or.inr (hread _ hargs)
  | entered _ hargs => exact Or.inr (hread _ hargs)

/-- A target without a submodule leaves the context alone and gives the same interval in any. -/
theorem Yields.of_pure {target : Target} {args : List Value} {range : Interval}
    (hpure : target.isSubmodule = false) (h : Yields body config ctx target args range ctx') :
    ctx' = ctx ∧ ∀ other, Yields body config other target args range other := by
  cases h with
  | operation hcall => exact ⟨rfl, fun _ => .operation hcall⟩
  | load => exact ⟨rfl, fun _ => .load⟩
  | reduction => exact ⟨rfl, fun _ => .reduction⟩
  | output => exact ⟨rfl, fun _ => .output⟩
  | getIndex => cases hpure
  | setIndirect => cases hpure

/-- A pure node is passed over or recorded, with what its operands give in any context. -/
theorem Completes.pure_cases (hpure : node.target.isSubmodule = false)
    (h : Succeeds body config [node] ctx bounds ctx' bounds') :
    ctx' = ctx ∧ ((node.id ∈ bounds ∧ bounds' = bounds) ∨
      ∃ args range, node.id ∉ bounds ∧ bounds.values node.args = .ok args ∧
        (∀ other, Yields body config other node.target args range other) ∧
        bounds' = bounds.insert node.id range) := by
  cases h with
  | skipped hmem _ hrest =>
    cases hrest
    exact ⟨rfl, Or.inl ⟨hmem, rfl⟩⟩
  | evaluated hmem hargs hyields hrest =>
    cases hrest
    obtain ⟨rfl, hany⟩ := hyields.of_pure hpure
    exact ⟨rfl, Or.inr ⟨_, _, hmem, hargs, hany, rfl⟩⟩
  | entered _ _ htarget =>
    rw [htarget] at hpure
    cases hpure

/-! ### Neighbours that change places -/

/-- A pure node can be run after its neighbour. -/
theorem Completes.delay (hpure : first.target.isSubmodule = false) (hout : body.Outside first.id)
    (havoid : second.LiesIn (· ≠ first.id))
    (h : Succeeds body config [first, second] ctx bounds ctx' bounds') :
    Succeeds body config [second, first] ctx bounds ctx' bounds' := by
  obtain ⟨_, _, hfirst, hsecond⟩ := h.split
  obtain ⟨rfl, ⟨hmem, rfl⟩ | ⟨args, range, hmem, hargs, hyields, rfl⟩⟩ := hfirst.pure_cases hpure
  · exact hsecond.append (.skipped (hsecond.within.mem hmem) trivial .done)
  · obtain ⟨other, hrun, hsame⟩ := hsecond.besides hout (List.forall_mem_singleton.2 havoid)
      (Bounds.sameBut_insert bounds first.id range).symm
    -- the neighbour leaves the node without an interval
    have hnew : first.id ∉ other := by
      rw [hrun.mem_iff_untouched hout (List.forall_mem_singleton.2 havoid.1)]
      exact hmem
    have hlast : Succeeds body config [first] ctx' other ctx' (other.insert first.id range) :=
      .evaluated hnew (hrun.within.values hargs) (hyields ctx') .done
    have hrange : bounds'[first.id]? = some range :=
      hsecond.within _ _ (by rw [Bounds.getElem?_insert, if_pos rfl])
    rw [hsame.symm.eq_insert hrange]
    exact hrun.append hlast

/-- A pure node can be run before its neighbour. -/
theorem Completes.hurry (hpure : second.target.isSubmodule = false) (hout : body.Outside second.id)
    (hinputs : ∀ id ∈ second.inputs, body.Outside id) (hne : first.id ≠ second.id)
    (hread : first.id ∉ second.inputs)
    (h : Succeeds body config [first, second] ctx bounds ctx' bounds') :
    Succeeds body config [second, first] ctx bounds ctx' bounds' := by
  obtain ⟨mid, between, hfirst, hsecond⟩ := h.split
  have hmem_iff : second.id ∈ between ↔ second.id ∈ bounds :=
    hfirst.mem_iff_untouched hout (List.forall_mem_singleton.2 hne)
  obtain ⟨rfl, ⟨hmem, rfl⟩ | ⟨args, range, hmem, hargs, hyields, rfl⟩⟩ := hsecond.pure_cases hpure
  · exact .skipped (hmem_iff.1 hmem) trivial hfirst
  · rw [hmem_iff] at hmem
    -- the neighbour records none of the operands
    have hsame : between.Mirrors (fun key => key) (· ∈ second.inputs) bounds := by
      intro id hid
      refine (hfirst.untouched (hinputs id hid) (List.forall_mem_singleton.2 ?_)).symm
      rintro rfl
      exact hread hid
    have hargs := hsame.values (fun _ hid => hid) hargs
    rw [Node.renumber_eq_self fun _ => rfl] at hargs
    refine .evaluated hmem hargs (hyields ctx) ?_
    rcases hfirst.skipped_or_read with ⟨hskip, rfl, rfl⟩ | hreads
    · exact .skipped (Bounds.mem_insert.2 (Or.inr hskip)) trivial .done
    · -- what the neighbour reads had an interval, and the node had none
      have havoid : first.LiesIn (· ≠ second.id) := by
        refine ⟨hne, fun id hid => ?_⟩
        rintro rfl
        exact hmem (hreads _ hid)
      obtain ⟨other, hrun, hsame⟩ := hfirst.besides hout (List.forall_mem_singleton.2 havoid)
        (Bounds.sameBut_insert bounds second.id range)
      have hrange : other[second.id]? = some range :=
        hrun.within _ _ (by rw [Bounds.getElem?_insert, if_pos rfl])
      rw [← hsame.eq_insert hrange]
      exact hrun

/-- Two neighbours in the root change places, unless the first one must precede the second. -/
theorem Completes.swap (hids : body.DistinctIds) (hlocal : body.LocalOperands)
    (hfirst : first ∈ body.root.nodes) (hsecond : second ∈ body.root.nodes) (hne : first ≠ second)
    (hfree : ¬ first.Precedes second)
    (h : Succeeds body config [first, second] ctx bounds ctx' bounds') :
    Succeeds body config [second, first] ctx bounds ctx' bounds' := by
  obtain ⟨hread, heffects⟩ := not_or.1 hfree
  have hid : first.id ≠ second.id := fun hid => hne (hids.eq_of_id_eq
    (Body.has_root _ hfirst).mem_nodes (Body.has_root _ hsecond).mem_nodes hid)
  cases hpure : first.target.isSubmodule with
  | false =>
    refine h.delay hpure (hlocal.outside hids hfirst) ⟨hid.symm, fun id hin => ?_⟩
    rintro rfl
    exact hread hin
  | true =>
    have hpure' : second.target.isSubmodule = false := by simpa [hpure] using heffects
    exact h.hurry hpure' (hlocal.outside hids hsecond)
      (fun _ => hlocal.outside_input hids hsecond) hid hread

/-! ### Lists of nodes -/

/-- A node moves to the front, if none of the nodes there must precede it. -/
theorem Completes.hoist (hids : body.DistinctIds) (hlocal : body.LocalOperands)
    {front back : List Node} (hnodes : ∀ m ∈ front ++ node :: back, m ∈ body.root.nodes)
    (hfree : ∀ m ∈ front, m ≠ node ∧ ¬ m.Precedes node)
    (h : Succeeds body config (front ++ node :: back) ctx bounds ctx' bounds') :
    Succeeds body config (node :: (front ++ back)) ctx bounds ctx' bounds' := by
  induction front generalizing ctx bounds with
  | nil => exact h
  | cons m front ih =>
    obtain ⟨hm, hrest⟩ := List.forall_mem_cons.1 hnodes
    obtain ⟨⟨hne, hfreem⟩, hfree⟩ := List.forall_mem_cons.1 hfree
    have hnode : node ∈ body.root.nodes :=
      hrest node (List.mem_append_right _ List.mem_cons_self)
    obtain ⟨_, _, hhead, htail⟩ := h.split
    obtain ⟨_, _, hmoved, htail⟩ := (ih hrest hfree htail).split
    exact ((hhead.append hmoved).swap hids hlocal hm hnode hne hfreem).append htail

/-- Nodes of the root can be run in any order that keeps each one after those that must precede
it. -/
theorem Completes.reorder (hids : body.DistinctIds) (hlocal : body.LocalOperands)
    (hnodes : ∀ node ∈ nodes, node ∈ body.root.nodes) (hnodup : nodes.Nodup)
    (hperm : order.Perm nodes)
    (hkeep : ∀ m n : Node, m.Precedes n → [m, n].Sublist nodes → [m, n].Sublist order)
    (h : Succeeds body config nodes ctx bounds ctx' bounds') :
    Succeeds body config order ctx bounds ctx' bounds' := by
  induction order generalizing nodes ctx bounds with
  | nil =>
    rw [hperm.symm.eq_nil] at h
    exact h
  | cons node order ih =>
    obtain ⟨front, back, rfl⟩ := List.append_of_mem (hperm.mem_iff.1 List.mem_cons_self)
    have hrest : order.Perm (front ++ back) := (hperm.trans List.perm_middle).cons_inv
    have hnew : node ∉ order := (List.nodup_cons.1 (hperm.nodup_iff.2 hnodup)).1
    have hfree : ∀ m ∈ front, m ≠ node ∧ ¬ m.Precedes node := by
      intro m hm
      have hne : m ≠ node := by
        rintro rfl
        exact hnew (hrest.mem_iff.2 (List.mem_append_left _ hm))
      refine ⟨hne, fun hprecedes => ?_⟩
      have hbefore : [m, node].Sublist (front ++ node :: back) :=
        (List.singleton_sublist.2 hm).append (List.singleton_sublist.2 List.mem_cons_self)
      cases hkeep m node hprecedes hbefore with
      | cons _ hlater => exact hnew (hlater.subset (by simp))
      | cons_cons => exact hne rfl
    obtain ⟨_, _, hfirst, hlater⟩ := (h.hoist hids hlocal hnodes hfree).split
    have hless : (front ++ back).Sublist (front ++ node :: back) :=
      (List.Sublist.refl front).append (List.sublist_cons_self node back)
    have hnodes' : ∀ m ∈ front ++ back, m ∈ body.root.nodes :=
      fun m hm => hnodes m (hless.subset hm)
    refine hfirst.append (ih hnodes' (hnodup.sublist hless) hrest ?_ hlater)
    intro m n hprecedes hbefore
    cases hkeep m n hprecedes (hbefore.trans hless) with
    | cons _ hlater => exact hlater
    | cons_cons =>
      exact absurd (hrest.mem_iff.2 (hbefore.subset List.mem_cons_self)) hnew

/-- A body with its root in the order of such a run, under any numbers, has the intervals and the
context of the run. -/
theorem Completes.reply_of_reorder (hids : body.DistinctIds) (hperm : order.Perm body.root.nodes)
    (h : Succeeds body config order { scope := body.initialScope } body.initialBounds ctx bounds)
    {numbering : NodeId → NodeId} (hinj : Function.Injective numbering) :
    ∃ answer, (∀ id, answer[numbering id]? = bounds[id]?) ∧
      (Engine.new ((body.reorder order).renumber numbering) config).bounds.answer = .ok answer ∧
      (Engine.new ((body.reorder order).renumber numbering) config).bounds.engine.context =
        ctx := by
  have hnodes : (body.reorder order).nodes.Perm body.nodes := hperm.append_right _
  have hids' : (body.reorder order).DistinctIds := (hnodes.map Node.id).nodup_iff.2 hids
  have hmem : ∀ m, m ∈ ((body.reorder order).renumber numbering).nodes ↔
      ∃ k ∈ body.nodes, k.renumber numbering = m := by
    intro m
    simp only [Body.nodes_renumber, List.mem_map, hnodes.mem_iff]
  have hall : ∀ node : Node, node.LiesIn fun _ => True := fun _ => ⟨trivial, fun _ _ => trivial⟩
  obtain ⟨answer, hrun, hmirrors⟩ := h.renumber (body.alike_reorder order numbering) hinj
    (fun _ _ node _ => hall node) (fun node _ => hall node)
    (Body.mirrors_initialBounds hinj hmem fun _ => True)
  obtain ⟨log, -, hreply⟩ := reply_of_completes (hids'.renumber hinj) hrun
  exact ⟨answer, fun id => hmirrors id trivial, by rw [hreply], by rw [hreply]⟩

end Analysis

/-! ### Reordered bodies -/

/-- Another order of the same nodes, in which each one stays behind those that it reads, and those
that are evaluated by submodules keep their order. -/
structure Reorders (nodes order : List Node) : Prop where
  perm : order.Perm nodes
  inputs : ∀ source ∈ nodes, ∀ node ∈ nodes, source.id ∈ node.inputs →
    [source, node].Sublist nodes → [source, node].Sublist order
  effects : order.filter (·.target.isSubmodule) = nodes.filter (·.target.isSubmodule)

theorem Reorders.keeps {nodes order : List Node} (h : Reorders nodes order) {m n : Node}
    (hprecedes : m.Precedes n) (hbefore : [m, n].Sublist nodes) : [m, n].Sublist order := by
  rcases hprecedes with hinput | ⟨hm, hn⟩
  · exact h.inputs m (hbefore.subset (by simp)) n (hbefore.subset (by simp)) hinput hbefore
  · have hfilter : [m, n].filter (·.target.isSubmodule) = [m, n] := by simp [hm, hn]
    rw [← hfilter]
    refine (hbefore.filter _).trans ?_
    rw [← h.effects]
    exact List.filter_sublist

/-- **Independence of the order.** If the nodes of the root are put in another order, in which each
one stays behind those that it reads and the nodes evaluated by submodules keep their order, then an
answer is given again, with the same scope and counts. A builder numbers the nodes as they come, so
it gives them other numbers in another order; that changes the numbers in the answer and no more. -/
theorem answer_of_reordered {body : Body} {config : Config} {answer : Bounds} {order : List Node}
    (hbuilt : body.Built) (hlocal : body.LocalOperands) (horder : Reorders body.root.nodes order)
    (hanswer : (Engine.new body config).bounds.answer = .ok answer) :
    ((Engine.new (body.reorder order) config).bounds.answer = .ok answer ∧
      (Engine.new (body.reorder order) config).bounds.engine.context =
        (Engine.new body config).bounds.engine.context) ∧
    ∀ numbering : Equiv.Perm NodeId, ∃ renumbered,
      (Engine.new ((body.reorder order).renumber numbering) config).bounds.answer =
        .ok renumbered ∧
      (∀ id, renumbered[numbering id]? = answer[id]?) ∧
      (Engine.new ((body.reorder order).renumber numbering) config).bounds.engine.context =
        (Engine.new body config).bounds.engine.context := by
  have hids := hbuilt.distinctIds
  have hroot : body.graph? .root = some body.root := rfl
  have hnodup : body.root.nodes.Nodup := (hids.nodup_graph hroot).of_map
  have hrun := (Analysis.completes_root hids hanswer).reorder hids hlocal (fun _ hnode => hnode)
    hnodup horder.perm fun _ _ => horder.keeps
  constructor
  · obtain ⟨same, hsame, hreply, hcontext⟩ :=
      hrun.reply_of_reorder hids horder.perm Function.injective_id
    have hself : (body.reorder order).renumber id = body.reorder order :=
      Body.renumber_eq_self (fun _ => rfl) _
    rw [hself] at hreply hcontext
    rw [hreply, Std.ExtTreeMap.ext_getElem? hsame]
    exact ⟨rfl, hcontext⟩
  · intro numbering
    obtain ⟨renumbered, hsame, hreply, hcontext⟩ :=
      hrun.reply_of_reorder hids horder.perm numbering.injective
    exact ⟨renumbered, hreply, hsame, hcontext⟩

/-- The nodes of the root of `layered`: the load comes first, and the output earlier. -/
def layeredOrder : List Node :=
  [5, 9, 7, 6, 8, 10, 12, 11].filterMap layered.node?

/-- The numbers that a builder gives to the nodes in that order. -/
def layeredNumbering : Equiv.Perm NodeId :=
  ((Equiv.swap 8 9).trans (Equiv.swap 6 8)).trans (Equiv.swap 11 12)

/-- The body as a builder makes it in that order. -/
def relayered : Body :=
  (Builder.afterAll [
    .varRange "i" 9,
    .indirectVar "tmp",
    .indexExpr "row" (.sym "i"),
    .indexExpr "cell" (.sym "tmp" * 2 + .sym "i"),
    .subblock,
    .subblock,
    .push (.subblock 0) .getIndex [.name "cell"],
    .push (.subblock 0) .output [.node 0],
    .push (.subblock 1) (.op "constant") [.int 1],
    .push (.subblock 1) (.maskedSubblock 0) [.node 2, .int 0],
    .push (.subblock 1) .output [.node 3],
    .push .root .getIndex [.name "row"],
    .push .root .load [.name "buf", .node 5],
    .push .root (.op "add") [.node 5, .node 5],
    .push .root .getIndex [.name "cell"],
    .push .root (.setIndirect 0) [.node 7],
    .push .root (.maskedSubblock 1) [.node 6, .int 0],
    .push .root .output [.node 7],
    .push .root (.maskedSubblock 0) [.node 6, .int 7]]).body

theorem relayered_eq :
    (layered.reorder layeredOrder).renumber layeredNumbering = relayered := by
  rfl

theorem reorders_layered : Reorders layered.root.nodes layeredOrder where
  perm := by decide
  inputs := by decide
  effects := by decide

theorem answer_of_reordered_layered : ∃ answer renumbered,
    (Engine.new layered {}).bounds.answer = .ok answer ∧
    (Engine.new (layered.reorder layeredOrder) {}).bounds.answer = .ok answer ∧
    (Engine.new relayered {}).bounds.answer = .ok renumbered ∧
    renumbered[12]? = answer[11]? ∧
    (Engine.new relayered {}).bounds.engine.context =
      (Engine.new layered {}).bounds.engine.context := by
  obtain ⟨answer, hanswer⟩ := exists_answer_layered
  have hlocal : layered.LocalOperands := by decide
  obtain ⟨⟨hsame, -⟩, hany⟩ := answer_of_reordered built_layered hlocal reorders_layered hanswer
  obtain ⟨renumbered, hreply, hids, hcontext⟩ := hany layeredNumbering
  rw [relayered_eq] at hreply hcontext
  have heleven : layeredNumbering 11 = 12 := by decide
  have hid := hids 11
  rw [heleven] at hid
  exact ⟨answer, renumbered, hanswer, hsame, hreply, hid, hcontext⟩

end LoopBounds
