/-
Executions of a loop body on integers.

`Execution.Runs` is what the graphs of a body do to actual values, in program
order: operations are exact, loads, reductions and operations that are not
understood give any integer, an index is evaluated and kept under its name, an
indirect variable is assigned, and a masked node runs its subblock and takes the
value of its output.

Whether masks count is a parameter: either every masked node runs its subblock,
or one whose mask is zero has its literal for value and runs nothing.

An execution that cannot go on, by a missing value or a zero divisor, is no run.
-/
import LoopBounds.Body
import LoopBounds.Operation

namespace LoopBounds.Execution

/-- The values that an execution has computed, the latest first, and those of the symbols. -/
structure State where
  values : List (NodeId × Int) := []
  symbols : Symbol → Int

namespace State

/-- The value of an operand: that of a node, once it has one, or the literal itself. A name has
none of its own and counts as zero. -/
def operand? (state : State) : Operand → Option Int
  | .node id => state.values.lookup id
  | .int value => some value
  | .name _ => some 0

/-- The values of operands, if all have one. -/
def operands? (state : State) (args : List Operand) : Option (List Int) :=
  args.mapM state.operand?

/-- Keeps the value of a node. -/
def record (state : State) (id : NodeId) (value : Int) : State :=
  { state with values := (id, value) :: state.values }

/-- Gives a symbol a value. -/
def assign (state : State) (name : Symbol) (value : Int) : State :=
  { state with symbols := fun s => if s = name then value else state.symbols s }

end State

/-- The value of a node other than a masked one, and the state it leaves. -/
inductive Computes (body : Body) (state : State) : Node → Int → State → Prop where
  | operation {id name op args inputs value} : Operation.ofName? name = some op →
      state.operands? args = some inputs → op.eval? inputs = some value →
      Computes body state ⟨id, .op name, args⟩ value state
  | unrecognised {id name args value} : Operation.ofName? name = none →
      Computes body state ⟨id, .op name, args⟩ value state
  | load {id args value} : Computes body state ⟨id, .load, args⟩ value state
  | reduction {id args value} : Computes body state ⟨id, .reduction, args⟩ value state
  | getIndex {id name rest expr value} : body.indexExprs[name]? = some expr →
      expr.eval? (fun s => some (state.symbols s)) = some value →
      Computes body state ⟨id, .getIndex, .name name :: rest⟩ value (state.assign name value)
  | setIndirect {id index var args value rest} : body.indirectVars[index]? = some var →
      state.operands? args = some (value :: rest) →
      Computes body state ⟨id, .setIndirect index, args⟩ value (state.assign var value)
  | output {id source rest value} : state.operand? (.node source) = some value →
      Computes body state ⟨id, .output, .node source :: rest⟩ value state
  | emptyOutput {id args value} : (∀ source, args.head? ≠ some (.node source)) →
      Computes body state ⟨id, .output, args⟩ value state

/-- A run of the nodes from one state to another. -/
inductive Runs (body : Body) (masksCount : Bool) : List Node → State → State → Prop where
  | done {state} : Runs body masksCount [] state state
  | step {node rest state value after final} : Computes body state node value after →
      Runs body masksCount rest (after.record node.id value) final →
      Runs body masksCount (node :: rest) state final
  /-- The subblock is run, as its mask, if that counts, allows. -/
  | enter {id index args rest graph output value state inner final} :
      (masksCount = true → ∃ mask others,
        state.operands? args = some (mask :: others) ∧ mask ≠ 0) →
      body.subblocks[index]? = some graph → Runs body masksCount graph.nodes state inner →
      graph.outputs = [output] → inner.operand? (.node output.id) = some value →
      Runs body masksCount rest (inner.record id value) final →
      Runs body masksCount (⟨id, .maskedSubblock index, args⟩ :: rest) state final
  /-- The mask is zero, and the literal stands for the subblock. -/
  | pass {id index args rest other others state final} : masksCount = true →
      state.operands? args = some (0 :: other :: others) →
      Runs body masksCount rest (state.record id other) final →
      Runs body masksCount (⟨id, .maskedSubblock index, args⟩ :: rest) state final

end LoopBounds.Execution
