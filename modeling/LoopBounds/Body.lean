/-
Loop bodies.

A `Body` declares the loop variables with their upper bounds, the index
expressions by name, and the indirect variables by number; it holds a root graph
and the subblocks that masked nodes evaluate.

`Body.users` is the dataflow turned around: for every node, the nodes that read
it, each listed once and in program order of its first reading.
-/
import LoopBounds.Expr.Basic
import LoopBounds.Graph
import Std.Data.ExtTreeMap

namespace LoopBounds

/-- The body of a loop nest. -/
structure Body where
  /-- Loop variables with their upper bounds, which may be symbolic. -/
  varRanges : List (Symbol × Expr) := []
  /-- Index expressions by name. -/
  indexExprs : Std.ExtTreeMap String Expr := ∅
  /-- Indirect variables; a node binds one by its number. -/
  indirectVars : List Symbol := []
  root : Graph := {}
  subblocks : List Graph := []

/-- One of the graphs of a body. -/
inductive Block where
  | root
  | subblock (index : Nat)
deriving DecidableEq, Inhabited, Repr

/-- For every node that is read, its readers. -/
abbrev Users := Std.ExtTreeMap NodeId (List NodeId)

/-- The readers of a node. -/
def Users.of (users : Users) (id : NodeId) : List NodeId :=
  users[id]?.getD []

/-- Notes a reader of a node, unless it is noted already. -/
def Users.add (users : Users) (input reader : NodeId) : Users :=
  if reader ∈ users.of input then users
  else users.insert input (users.of input ++ [reader])

namespace Body

/-- The graph of a block, if the body has it. -/
def graph? (body : Body) : Block → Option Graph
  | .root => some body.root
  | .subblock index => body.subblocks[index]?

/-- All graphs, the root first. -/
def graphs (body : Body) : List Graph :=
  body.root :: body.subblocks

/-- All nodes: those of the root, then those of each subblock. -/
def nodes (body : Body) : List Node :=
  body.graphs.flatMap Graph.nodes

/-- The node with this id. -/
def node? (body : Body) (id : NodeId) : Option Node :=
  body.nodes.find? (·.id = id)

/-- The readers of every node that is read. -/
def users (body : Body) : Users :=
  body.nodes.foldl (fun users node => node.inputs.foldl (·.add · node.id) users) ∅

end Body

end LoopBounds
