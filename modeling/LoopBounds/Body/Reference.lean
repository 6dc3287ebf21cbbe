/-
References between the graphs of a loop body.

A masked node refers to a subblock. `Body.Chain` follows such references from
block to block and counts them; a block is evaluated with the root only if a
chain leads to it from there.
-/
import LoopBounds.Body

namespace LoopBounds

/-- The subblocks that the masked nodes of the graph refer to, in order. -/
def Graph.references (graph : Graph) : List Nat :=
  graph.nodes.filterMap fun node =>
    match node.target with
    | .maskedSubblock index => some index
    | _ => none

namespace Body

/-- A node of the block refers to the subblock, and the body has it. -/
def Refers (body : Body) (block : Block) (index : Nat) : Prop :=
  index < body.subblocks.length ∧ ∃ graph, body.graph? block = some graph ∧
    index ∈ graph.references

/-- A chain of references from one block to another, with the number of its links. -/
inductive Chain (body : Body) (start : Block) : Nat → Block → Prop where
  | start : Chain body start 0 start
  | link {links : Nat} {block : Block} {index : Nat} : Chain body start links block →
      body.Refers block index → Chain body start (links + 1) (.subblock index)

/-- A chain of references leads from the root to the block. -/
def Reachable (body : Body) (block : Block) : Prop :=
  ∃ links, body.Chain .root links block

end Body

end LoopBounds
