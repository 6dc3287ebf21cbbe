/-
What an analysis starts from.

The intervals known in advance are those of the preseeded nodes, and all of them
are unknown (`getElem?_initialBounds`). Symbols with an entry in advance are the
loop variables (`mem_initialScope`).

A node that the analysis must evaluate for its effect is not preseeded, be it
computed from an unbounded node: a masked node and a binding by their targets,
and an index as long as it reads no node (`PlainIndices.not_preseeded`).
-/
import LoopBounds.Analysis.Basic
import LoopBounds.Proofs.Body.Identity
import LoopBounds.Proofs.Bounds
import LoopBounds.Proofs.Dependents

namespace LoopBounds.Body

variable {body : Body}

/-- No index reads a node; this is how a builder adds them. -/
def PlainIndices (body : Body) : Prop :=
  ∀ node ∈ body.nodes, node.target = .getIndex → node.inputs = []

instance (body : Body) : Decidable body.PlainIndices :=
  inferInstanceAs (Decidable (∀ node ∈ body.nodes, _))

theorem mem_preseeded {node : Node} : node ∈ body.preseeded ↔
    node ∈ body.nodes ∧ node.id ∈ body.unbounded ∧ node.target.isRecomputed = false := by
  simp [preseeded, List.mem_filter]

theorem not_preseeded {node : Node} (h : node.target.isRecomputed = true) :
    node ∉ body.preseeded := by
  intro hmem
  rw [(mem_preseeded.1 hmem).2.2] at h
  cases h

/-- A node that depends on nothing and is no seed itself is not unbounded. -/
theorem not_mem_unbounded (hids : body.DistinctIds) {node : Node} (hnode : node ∈ body.nodes)
    (hseed : node.target.isUnboundedSeed = false) (hinputs : node.inputs = []) :
    node.id ∉ body.unbounded := by
  intro hmem
  obtain ⟨seed, hmemseed, hleads⟩ := Users.mem_dependentsAvoiding_iff.1 hmem
  generalize hid : node.id = id at hleads
  cases hleads with
  | start =>
    obtain ⟨other, hother, heq⟩ := List.mem_map.1 hmemseed
    obtain ⟨hother, htarget⟩ := List.mem_filter.1 hother
    rw [hids.eq_of_id_eq hother hnode (heq.trans hid.symm), hseed] at htarget
    cases htarget
  | step _ hreader _ =>
    obtain ⟨other, hother, heq, hinput⟩ := mem_users_iff.1 hreader
    rw [hids.eq_of_id_eq hother hnode (heq.trans hid.symm), hinputs] at hinput
    cases hinput

theorem PlainIndices.not_preseeded (h : body.PlainIndices) (hids : body.DistinctIds)
    {node : Node} (htarget : node.target = .getIndex) : node ∉ body.preseeded := by
  intro hmem
  obtain ⟨hnode, hunbounded, -⟩ := mem_preseeded.1 hmem
  exact not_mem_unbounded hids hnode (by rw [htarget]; rfl) (h node hnode htarget) hunbounded

/-! ### Maps -/

theorem getElem?_foldl_unknown (nodes : List Node) (bounds : Bounds) (id : NodeId) :
    (nodes.foldl (fun bounds node => bounds.insert node.id .unknown) bounds)[id]? =
      if id ∈ nodes.map Node.id then some .unknown else bounds[id]? := by
  induction nodes generalizing bounds with
  | nil => simp
  | cons node rest ih =>
    rw [List.foldl_cons, ih, List.map_cons]
    by_cases hrest : id ∈ rest.map Node.id
    · rw [if_pos hrest, if_pos (List.mem_cons_of_mem _ hrest)]
    · by_cases hid : node.id = id
      · simp [hid]
      · simp [Std.ExtTreeMap.getElem?_insert, hid, Ne.symm hid]

theorem getElem?_initialBounds (body : Body) (id : NodeId) : body.initialBounds[id]? =
    if id ∈ body.preseeded.map Node.id then some .unknown else none := by
  rw [initialBounds, getElem?_foldl_unknown, Std.ExtTreeMap.getElem?_empty]

/-- A node with an interval in advance is preseeded, and the interval is unknown. -/
theorem preseeded_of_initialBounds (hids : body.DistinctIds) {node : Node}
    (hnode : node ∈ body.nodes) {range : Interval}
    (h : body.initialBounds[node.id]? = some range) :
    node ∈ body.preseeded ∧ range = .unknown := by
  rw [getElem?_initialBounds] at h
  split at h
  · rename_i hmem
    obtain ⟨other, hother, hid⟩ := List.mem_map.1 hmem
    rw [← hids.eq_of_id_eq (mem_preseeded.1 hother).1 hnode hid]
    exact ⟨hother, (Option.some.inj h).symm⟩
  · cases h

theorem mem_initialBounds_iff (hids : body.DistinctIds) {node : Node} (hnode : node ∈ body.nodes) :
    node.id ∈ body.initialBounds ↔ node ∈ body.preseeded := by
  rw [Bounds.mem_iff]
  constructor
  · rintro ⟨range, hrange⟩
    exact (preseeded_of_initialBounds hids hnode hrange).1
  · intro hseeded
    rw [getElem?_initialBounds, if_pos (List.mem_map_of_mem hseeded)]
    exact ⟨_, rfl⟩

/-- The symbols with an entry in advance are the loop variables. -/
theorem mem_initialScope {name : Symbol} :
    name ∈ body.initialScope ↔ name ∈ body.varRanges.map Prod.fst := by
  have hfold : ∀ (decls : List (Symbol × Expr)) (scope : Scope),
      name ∈ decls.foldl (fun scope decl => scope.insert decl.1 decl.2.loopRange) scope ↔
        name ∈ scope ∨ name ∈ decls.map Prod.fst := by
    intro decls
    induction decls with
    | nil => simp
    | cons decl rest ih =>
      intro scope
      rw [List.foldl_cons, ih, Std.ExtTreeMap.mem_insert, Std.LawfulEqCmp.compare_eq_iff_eq,
        List.map_cons, List.mem_cons, eq_comm (a := decl.1), or_left_comm, or_assoc]
  rw [initialScope, hfold]
  simp

theorem getElem?_initialScope {name : Symbol} (h : name ∉ body.varRanges.map Prod.fst) :
    body.initialScope[name]? = none :=
  Std.ExtTreeMap.getElem?_eq_none (mt mem_initialScope.1 h)

end LoopBounds.Body
