/-
Loop bodies as drawings.

`Body.toDot` writes the graphs of a body in the DOT language: the root's nodes,
a cluster for each subblock, and an edge for each reading of a node by another.
Where intervals are given, a node shows its own under its text, and is filled if
the interval is unknown.
-/
import LoopBounds.Body
import LoopBounds.Text.Label
import LoopBounds.Value

namespace LoopBounds

/-- How a drawing looks. -/
structure Dot.Style where
  /-- The shape of nodes in general. -/
  nodeShape : String := "box"
  /-- The shape of loads and reductions. -/
  opaqueShape : String := "cylinder"
  /-- The shape of outputs. -/
  outputShape : String := "doubleoctagon"
  /-- The colour of nodes whose interval is unknown. -/
  unknownFill : String := "lightgrey"
  /-- Whether nodes show their intervals. -/
  showBounds : Bool := true
deriving DecidableEq, Repr

namespace Dot

/-- The text of a node as a label, with its interval on a second line if that is shown. -/
def label (style : Style) (node : Node) (interval? : Option Interval) : String :=
  match interval?, style.showBounds with
  | some interval, true =>
    Text.escapeLabel node.text ++ "\\n" ++ Text.escapeLabel interval.text
  | _, _ => Text.escapeLabel node.text

/-- The attributes of a node by its target. -/
def shape (style : Style) : Target → String
  | .load | .reduction => ", shape=" ++ style.opaqueShape
  | .output => ", shape=" ++ style.outputShape
  | _ => ""

/-- The attributes of a node by its interval. -/
def fill (style : Style) : Option Interval → String
  | some interval =>
    if interval.isUnknown then ", style=filled, fillcolor=" ++ style.unknownFill else ""
  | none => ""

/-- The line that declares a node. -/
def nodeLine (style : Style) (node : Node) (interval? : Option Interval) : String :=
  "n" ++ toString node.id ++ " [label=\"" ++ label style node interval? ++ "\"" ++
    shape style node.target ++ fill style interval? ++ "];\n"

/-- The lines that declare the nodes of a graph. -/
def nodeLines (style : Style) (bounds : Bounds) (graph : Graph) : String :=
  String.join (graph.nodes.map fun node => nodeLine style node bounds[node.id]?)

/-- The cluster of a subblock. -/
def cluster (style : Style) (bounds : Bounds) (index : Nat) (graph : Graph) : String :=
  "subgraph cluster_" ++ toString index ++ " \x7b\n" ++
    "label=\"" ++ (Target.maskedSubblock index).text ++ "\";\n" ++
    nodeLines style bounds graph ++ "\x7d\n"

/-- The lines of the edges into a node. -/
def edgeLines (node : Node) : String :=
  String.join (node.inputs.map fun input =>
    "n" ++ toString input ++ " -> n" ++ toString node.id ++ ";\n")

end Dot

/-- The drawing of a body, with the intervals of its nodes as far as they are given. -/
def Body.toDot (body : Body) (bounds : Bounds) (style : Dot.Style) : String :=
  "digraph \x7b\n" ++ "node [shape=" ++ style.nodeShape ++ "];\n" ++
    Dot.nodeLines style bounds body.root ++
    String.join (body.subblocks.mapIdx (Dot.cluster style bounds)) ++
    String.join (body.nodes.map Dot.edgeLines) ++ "\x7d\n"

end LoopBounds
