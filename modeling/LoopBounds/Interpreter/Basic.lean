/-
The interpreter of graphs.

Running a graph evaluates its nodes in program order and records the interval of
each in the store. A node that has an interval already is left as it is. A node
is evaluated by the submodule for its target, if the interpreter has one, and
else by the handler of named operations.

A submodule sees the state of the analysis, the intervals found so far and the
values of the operands. What it does is a `Procedure`: it can note events, run
further graphs in the same store, and finish with an interval or an error. Running
a graph is its only way to change the intervals of nodes.

Graphs that run graphs may nest without end. `Interpreter.run` therefore takes
the number of levels it may use, and answers nothing where they do not suffice.
What the store recorded before an error stays recorded.
-/
import LoopBounds.Handler

namespace LoopBounds

/-- What a submodule does, step by step. -/
inductive Procedure (σ : Type) where
  /-- Ends with a state and a result. -/
  | finish (state : σ) (result : Except Error Interval)
  /-- Notes an event and goes on. -/
  | note (event : Event) (next : Procedure σ)
  /-- Runs a graph from a state and goes on from its outcome, state and intervals. -/
  | run (graph : Graph) (state : σ) (next : Except Error Unit → σ → Bounds → Procedure σ)

/-- The evaluation of a target, from the state, the intervals of nodes and the values of the
operands. -/
abbrev Submodule (σ : Type) := σ → Bounds → List Value → Procedure σ

/-- What targets mean: submodules for some of them, and a handler for the operations. -/
structure Interpreter (σ : Type) where
  handler : Handler
  submodule? : Target → Option (Submodule σ)

/-- What a run works on: the state, the intervals found so far, and the events noted. -/
structure Store (σ : Type) where
  state : σ
  bounds : Bounds := ∅
  log : Array Event := #[]

namespace Store

/-- Notes an event. -/
def note (store : Store σ) (event : Event) : Store σ :=
  { store with log := store.log.push event }

/-- Notes events in order. -/
def noteAll (store : Store σ) (events : List Event) : Store σ :=
  { store with log := store.log ++ events }

/-- Notes and records the interval of an evaluated node. -/
def record (store : Store σ) (node : Node) (result : Interval) : Store σ :=
  { store.note (.evaluated node result) with bounds := store.bounds.insert node.id result }

end Store

/-- The value of an operand; an error for a node without an interval. -/
def Bounds.value (bounds : Bounds) : Operand → Except Error Value
  | .node id =>
    match bounds[id]? with
    | some interval => .ok (.range interval)
    | none => .error (.undefinedNode id)
  | .name text => .ok (.name text)
  | .int value => .ok (.int value)

/-- The values of operands, or the error of the first that has none. -/
def Bounds.values (bounds : Bounds) (args : List Operand) : Except Error (List Value) :=
  args.mapM bounds.value

/-- A result together with the store it leaves; none if the levels did not suffice. -/
abbrev Outcome (σ α : Type) := Option (Except Error α × Store σ)

/-- Carries a procedure out, given how to run a graph. -/
def Procedure.perform (runGraph : Graph → Store σ → Outcome σ Unit) :
    Procedure σ → Store σ → Outcome σ Interval
  | .finish state result, store => some (result, { store with state })
  | .note event next, store => next.perform runGraph (store.note event)
  | .run graph state next, store =>
    match runGraph graph { store with state } with
    | none => none
    | some (result, after) => (next result after.state after.bounds).perform runGraph after

namespace Interpreter

/-- Calls a named operation. -/
def call (interp : Interpreter σ) (name : String) (args : List Value) (store : Store σ) :
    Except Error Interval × Store σ :=
  (interp.handler.call name args, store.noteAll (interp.handler.notes name))

/-- Evaluates a target on the values of its operands. -/
def eval (interp : Interpreter σ) (runGraph : Graph → Store σ → Outcome σ Unit)
    (target : Target) (args : List Value) (store : Store σ) : Outcome σ Interval :=
  match interp.submodule? target with
  | some submodule => (submodule store.state store.bounds args).perform runGraph store
  | none =>
    match target with
    | .output => some (.ok ((args.head?.bind Value.range?).getD .unknown), store)
    | .op name => some (interp.call name args store)
    | .load => some (interp.call "load" args store)
    | .reduction => some (interp.call "reduction" args store)
    | _ => some (.error (.unregisteredSubmodule target.text), store)

/-- Evaluates the nodes that have no interval yet, in order, up to the first error. -/
def runNodes (interp : Interpreter σ) (runGraph : Graph → Store σ → Outcome σ Unit) :
    List Node → Store σ → Outcome σ Unit
  | [], store => some (.ok (), store)
  | node :: rest, store =>
    if node.id ∈ store.bounds then
      interp.runNodes runGraph rest (store.note (.skipped node.id))
    else
      match store.bounds.values node.args with
      | .error e => some (.error e, store)
      | .ok args =>
        match interp.eval runGraph node.target args store with
        | none => none
        | some (.error e, after) => some (.error e, after)
        | some (.ok result, after) => interp.runNodes runGraph rest (after.record node result)

/-- Runs a graph with as many levels of graphs within graphs. -/
def run (interp : Interpreter σ) : Nat → Graph → Store σ → Outcome σ Unit
  | 0, _, _ => none
  | levels + 1, graph, store => interp.runNodes (interp.run levels) graph.nodes store

end Interpreter

end LoopBounds
