/-
Graphs of a loop body.

A `Graph` is a list of nodes in program order. A `Node` has an id, a target that
says what it computes, and operands: other nodes, names of indices or buffers,
and integer literals. Ids are unique in a loop body across all its graphs, so
one map can hold what is known about the nodes of every nesting level.
-/
import LoopBounds.Text.Quoted

namespace LoopBounds

/-- The number of a node, unique within a loop body. -/
abbrev NodeId := Nat

/-- A node id as it is written. -/
def NodeId.text (id : NodeId) : String :=
  "%" ++ toString id

/-- What a node computes. -/
inductive Target where
  /-- A named operation of arithmetic, comparison or logic. -/
  | op (name : String)
  /-- A read from a buffer. -/
  | load
  /-- An aggregate over an unknown number of elements. -/
  | reduction
  /-- The value of a named index expression. -/
  | getIndex
  /-- Binds the indirect variable of this number to the operand. -/
  | setIndirect (index : Nat)
  /-- Evaluates the subblock of this number where a mask holds. -/
  | maskedSubblock (index : Nat)
  /-- The value that the graph produces. -/
  | output
deriving DecidableEq, Inhabited, Repr

namespace Target

/-- The name of an operation, or the keyword of any other target. -/
def text : Target → String
  | .op name => name
  | .load => "load"
  | .reduction => "reduction"
  | .getIndex => "get_index"
  | .setIndirect index => "set_indirect" ++ toString index
  | .maskedSubblock index => "masked_subblock" ++ toString index
  | .output => "output"

/-- Targets whose value nothing is known about in advance. -/
def isUnboundedSeed : Target → Bool
  | .load | .reduction | .maskedSubblock _ => true
  | _ => false

/-- Targets that are evaluated even where an operand is unbounded. -/
def isRecomputed : Target → Bool
  | .maskedSubblock _ | .setIndirect _ => true
  | _ => false

/-- Targets that are evaluated by a submodule. -/
def isSubmodule : Target → Bool
  | .getIndex | .setIndirect _ | .maskedSubblock _ => true
  | _ => false

end Target

/-- An argument of a node. -/
inductive Operand where
  | node (id : NodeId)
  /-- The name of an index or a buffer. -/
  | name (text : String)
  | int (value : Int)
deriving DecidableEq, Inhabited, Repr

/-- A node by its id, a name in quotes, a literal in decimal. -/
def Operand.text : Operand → String
  | .node id => id.text
  | .name s => Text.quoted s
  | .int value => toString value

/-- A computation step. -/
structure Node where
  id : NodeId
  target : Target
  args : List Operand
deriving DecidableEq, Inhabited, Repr

namespace Node

/-- The nodes that this node reads, as often as it does. -/
def inputs (node : Node) : List NodeId :=
  node.args.filterMap fun
    | .node id => some id
    | _ => none

/-- The node as an assignment. -/
def text (node : Node) : String :=
  node.id.text ++ " = " ++ node.target.text ++
    "(" ++ ", ".intercalate (node.args.map Operand.text) ++ ")"

end Node

/-- Nodes in program order. -/
structure Graph where
  nodes : List Node := []
deriving DecidableEq, Inhabited, Repr

/-- The output nodes of the graph. -/
def Graph.outputs (graph : Graph) : List Node :=
  graph.nodes.filter (·.target = .output)

end LoopBounds
