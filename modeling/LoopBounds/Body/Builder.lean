/-
Building loop bodies.

A `Build` action extends a body under construction and hands out node ids. Every
attempt to add a node takes the next id, also one that fails because its
subblock was never opened; what was built before a failure stays.
-/
import LoopBounds.Body
import LoopBounds.Misuse

namespace LoopBounds

/-- A body under construction. -/
structure Builder where
  body : Body := {}
  nextId : NodeId := 0

/-- An action on a body under construction that may be a misuse. -/
abbrev Build := ExceptT Misuse (StateM Builder)

/-- The body with one more node at the end of a block; a misuse if there is no such block. -/
def Body.addNode (body : Body) (node : Node) : Block → Except Misuse Body
  | .root => .ok { body with root.nodes := body.root.nodes ++ [node] }
  | .subblock index =>
    match body.subblocks[index]? with
    | some graph =>
      .ok { body with subblocks := body.subblocks.set index ⟨graph.nodes ++ [node]⟩ }
    | none => .error (.unopenedSubblock index)

/-- The action on a builder: its outcome, and the builder after it. -/
def Build.runOn (action : Build α) (builder : Builder) : Except Misuse α × Builder :=
  (ExceptT.run action).run builder

/-- The body that an action builds from nothing. -/
def Build.body (action : Build α) : Body :=
  (action.runOn {}).2.body

namespace Build

/-- Applies a function to the body under construction. -/
def modifyBody (f : Body → Body) : Build Unit :=
  modify fun builder => { builder with body := f builder.body }

/-- Declares a loop variable with its upper bound. -/
def varRange (var : Symbol) (upper : Expr) : Build Unit :=
  modifyBody fun body => { body with varRanges := body.varRanges ++ [(var, upper)] }

/-- Names an index expression; a later one of the same name replaces it. -/
def indexExpr (name : String) (expr : Expr) : Build Unit :=
  modifyBody fun body => { body with indexExprs := body.indexExprs.insert name expr }

/-- Declares an indirect variable and answers its number. -/
def indirectVar (var : Symbol) : Build Nat := do
  let index := (← get).body.indirectVars.length
  modifyBody fun body => { body with indirectVars := body.indirectVars ++ [var] }
  return index

/-- Opens an empty subblock and answers its number. -/
def subblock : Build Nat := do
  let index := (← get).body.subblocks.length
  modifyBody fun body => { body with subblocks := body.subblocks ++ [{}] }
  return index

/-- Adds a node and answers its id. The id is used up even if the block does not exist. -/
def push (block : Block) (target : Target) (args : List Operand) : Build NodeId :=
  ExceptT.mk fun builder =>
    let advanced := { builder with nextId := builder.nextId + 1 }
    match builder.body.addNode ⟨builder.nextId, target, args⟩ block with
    | .ok body => (.ok builder.nextId, { advanced with body })
    | .error misuse => (.error misuse, advanced)

/-- Adds an operation on nodes. -/
def op (block : Block) (name : String) (args : List NodeId) : Build NodeId :=
  push block (.op name) (args.map .node)

/-- Adds an integer constant. -/
def constant (block : Block) (value : Int) : Build NodeId :=
  push block (.op "constant") [.int value]

/-- Adds a resolution of a named index. -/
def getIndex (block : Block) (name : String) : Build NodeId :=
  push block .getIndex [.name name]

/-- Adds a resolution of a named index and its use as a value. -/
def indexValue (block : Block) (name : String) : Build NodeId := do
  let index ← getIndex block name
  op block "index_expr" [index]

/-- Adds a read of a buffer at an index. -/
def load (block : Block) (buffer : String) (index : NodeId) : Build NodeId :=
  push block .load [.name buffer, .node index]

/-- Adds a reduction of a value. -/
def reduction (block : Block) (value : NodeId) : Build NodeId :=
  push block .reduction [.node value]

/-- Adds a binding of an indirect variable to a value. -/
def setIndirect (block : Block) (index : Nat) (value : NodeId) : Build NodeId :=
  push block (.setIndirect index) [.node value]

/-- Adds an evaluation of a subblock under a mask, with a literal for where it does not hold. -/
def maskedSubblock (block : Block) (index : Nat) (mask : NodeId) (other : Int) : Build NodeId :=
  push block (.maskedSubblock index) [.node mask, .int other]

/-- Adds an output of the block. -/
def output (block : Block) (value : NodeId) : Build NodeId :=
  push block .output [.node value]

end Build

end LoopBounds
