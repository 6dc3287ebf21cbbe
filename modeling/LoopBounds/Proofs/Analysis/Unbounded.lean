/-
Which nodes are taken as unbounded.

A node depends on another one if a chain of operands leads there, over any number
of nodes and from graph to graph (`Body.DependsOn`). The nodes taken as unbounded
are exactly those that depend on a load, a reduction or a masked node
(`Body.mem_unbounded_iff`): the search follows operands backwards, and every
reader it meets is a node of the body.

No run gives such a node another interval, unless the node is evaluated for its
effect, so an answer has it as unknown even where its subblock is never run
(`dependents_unknown`).
-/
import LoopBounds.Proofs.Analysis.Completion
import LoopBounds.Proofs.Analysis.Start
import Mathlib.Logic.Relation

namespace LoopBounds

namespace Body

variable {body : Body}

/-- The node has the other one among its operands. They need not lie in the same graph. -/
def Reads (body : Body) (node input : Node) : Prop :=
  input ∈ body.nodes ∧ input.id ∈ node.inputs

/-- A chain of operands leads from the node to the other one, or they are the same. -/
def DependsOn (body : Body) : Node → Node → Prop :=
  Relation.ReflTransGen body.Reads

/-- Nothing is known about the value of the node: it loads, reduces, evaluates a subblock, or
depends on a node that does. -/
def Obscured (body : Body) (node : Node) : Prop :=
  ∃ source, body.DependsOn node source ∧
    (source.target = .load ∨ source.target = .reduction ∨
      ∃ index, source.target = .maskedSubblock index)

theorem isUnboundedSeed_iff {target : Target} : target.isUnboundedSeed = true ↔
    target = .load ∨ target = .reduction ∨ ∃ index, target = .maskedSubblock index := by
  cases target <;> simp [Target.isUnboundedSeed]

/-- A node that reads an obscured node is obscured. -/
theorem Obscured.of_reads {node input : Node} (hreads : body.Reads node input)
    (h : body.Obscured input) : body.Obscured node := by
  obtain ⟨source, hdepends, hsource⟩ := h
  exact ⟨source, .head hreads hdepends, hsource⟩

theorem obscured_of_mem_unbounded {id : NodeId} (h : id ∈ body.unbounded) :
    ∃ node ∈ body.nodes, node.id = id ∧ body.Obscured node := by
  obtain ⟨seed, hseed, hleads⟩ := Users.mem_dependentsAvoiding_iff.1 h
  clear h
  -- along the way from the seed, every id belongs to a node that leads back to it
  induction hleads with
  | start =>
    obtain ⟨source, hmem, hid⟩ := List.mem_map.1 hseed
    obtain ⟨hnode, hsource⟩ := List.mem_filter.1 hmem
    exact ⟨source, hnode, hid, source, .refl, isUnboundedSeed_iff.1 hsource⟩
  | step _ hreader _ ih =>
    obtain ⟨input, hinput, rfl, hobscured⟩ := ih
    obtain ⟨node, hnode, hid, hreads⟩ := mem_users_iff.1 hreader
    exact ⟨node, hnode, hid, hobscured.of_reads ⟨hinput, hreads⟩⟩

theorem mem_unbounded_of_obscured {node : Node} (hnode : node ∈ body.nodes)
    (h : body.Obscured node) : node.id ∈ body.unbounded := by
  obtain ⟨source, hdepends, hsource⟩ := h
  refine Users.mem_dependentsAvoiding_iff.2 ?_
  induction hdepends using Relation.ReflTransGen.head_induction_on with
  | refl =>
    refine ⟨source.id, List.mem_map_of_mem ?_, .start⟩
    exact List.mem_filter.2 ⟨hnode, isUnboundedSeed_iff.2 hsource⟩
  | head hreads _ ih =>
    obtain ⟨seed, hseed, hleads⟩ := ih hreads.1
    exact ⟨seed, hseed, hleads.step (mem_users_iff.2 ⟨_, hnode, rfl, hreads.2⟩) rfl⟩

theorem mem_unbounded_iff {id : NodeId} : id ∈ body.unbounded ↔
    ∃ node ∈ body.nodes, node.id = id ∧ body.Obscured node := by
  constructor
  · exact obscured_of_mem_unbounded
  · rintro ⟨node, hnode, rfl, hobscured⟩
    exact mem_unbounded_of_obscured hnode hobscured

end Body

variable {body : Body}

/-- **Pessimism.** The nodes taken as unbounded are those from which operands lead to a load, a
reduction or a masked node. An answer has all of them as unknown, wherever they lie, but for the
masked nodes and the bindings, which are evaluated for their effect. -/
theorem dependents_unknown (hbuilt : body.Built) :
    (∀ id, id ∈ body.unbounded ↔ ∃ node ∈ body.nodes, node.id = id ∧ body.Obscured node) ∧
    ∀ (config : Config) (answer : Bounds),
      (Engine.new body config).bounds.answer = .ok answer →
      ∀ node ∈ body.nodes, body.Obscured node → (∀ index, node.target ≠ .maskedSubblock index) →
        (∀ index, node.target ≠ .setIndirect index) → answer[node.id]? = some .unknown := by
  refine ⟨fun id => Body.mem_unbounded_iff, ?_⟩
  intro config answer hanswer node hnode hobscured hmasked hbinding
  have hrecomputed : node.target.isRecomputed = false := by
    cases htarget : node.target with
    | maskedSubblock index => exact absurd htarget (hmasked index)
    | setIndirect index => exact absurd htarget (hbinding index)
    | _ => rfl
  have hseeded : node ∈ body.preseeded :=
    Body.mem_preseeded.2 ⟨hnode, Body.mem_unbounded_of_obscured hnode hobscured, hrecomputed⟩
  -- no entry of the start is ever changed
  refine (Analysis.completes_root hbuilt.distinctIds hanswer).within node.id .unknown ?_
  rw [Body.getElem?_initialBounds, if_pos (List.mem_map_of_mem hseeded)]

/-- A load in the root that is read by an earlier node of the root, and from a subblock that nothing
refers to. -/
def scattered : Body :=
  (Builder.afterAll [
    .varRange "i" 9, .indexExpr "row" (.sym "i"), .subblock,
    .push .root .getIndex [.name "row"],
    .push .root (.op "neg") [.node 2],
    .push .root .load [.name "buf", .node 0],
    .push (.subblock 0) (.op "add") [.node 1, .node 0],
    .push (.subblock 0) .output [.node 3]]).body

/-- The sum in the subblock depends on the load over a node of the root. -/
theorem obscured_scattered : scattered.Obscured ⟨3, .op "add", [.node 1, .node 0]⟩ := by
  refine ⟨⟨2, .load, [.name "buf", .node 0]⟩, ?_, Or.inl rfl⟩
  have hneg : scattered.Reads ⟨3, .op "add", [.node 1, .node 0]⟩ ⟨1, .op "neg", [.node 2]⟩ :=
    ⟨by decide, by decide⟩
  have hload : scattered.Reads ⟨1, .op "neg", [.node 2]⟩ ⟨2, .load, [.name "buf", .node 0]⟩ :=
    ⟨by decide, by decide⟩
  exact .head hneg (.head hload .refl)

theorem dependents_unknown_scattered : ∃ answer,
    (Engine.new scattered {}).bounds.answer = .ok answer ∧ 3 ∈ scattered.unbounded ∧
    answer[3]? = some .unknown := by
  have hinterval : (Engine.new scattered {}).interval? 0 = some (.between 0 (.finite 9)) := by
    decide +kernel
  obtain ⟨answer, hanswer, -⟩ := Engine.exists_of_interval? hinterval
  have hbuilt : scattered.Built := ⟨_, rfl⟩
  obtain ⟨hunbounded, hunknown⟩ := dependents_unknown hbuilt
  have hnode : ⟨3, .op "add", [.node 1, .node 0]⟩ ∈ scattered.nodes := by decide
  refine ⟨answer, hanswer, (hunbounded 3).2 ⟨_, hnode, rfl, obscured_scattered⟩, ?_⟩
  exact hunknown {} answer hanswer _ hnode obscured_scattered (fun _ h => by cases h)
    (fun _ h => by cases h)

end LoopBounds
