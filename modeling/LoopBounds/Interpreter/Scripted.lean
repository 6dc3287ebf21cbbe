/-
Scripted interpreters.

A `Script` gives targets fixed actions, so that the interpreter can be run and
watched without an analysis. Any target may have an action, which then comes
before the handler. The state of a scripted run is the list of calls made, each
written with its arguments.
-/
import LoopBounds.Body
import LoopBounds.Interpreter.Basic

namespace LoopBounds

/-- A handler that answers every operation by counts: the number of arguments, and that number
increased by the length of the name in bytes. -/
def Handler.arity : Handler where
  call name args := .ok (.between (.finite args.length) (.finite (args.length + name.utf8ByteSize)))

/-- What a scripted target does. -/
inductive Action where
  /-- Answers a fixed interval. -/
  | const (interval : Interval)
  /-- Answers the argument at a position. -/
  | arg (position : Nat)
  /-- Answers the first integer argument, or `-1` if there is none. -/
  | literal
  /-- Runs a subblock and answers the size of the script. -/
  | run (subblock : Nat)
  /-- Fails and shows the arguments. -/
  | fail
deriving DecidableEq, Repr

/-- Actions of targets, each target at most once. -/
structure Script where
  entries : List (Target × Action) := []
deriving Repr

namespace Script

/-- The script with an action for the target in place of any earlier one. -/
def insert (script : Script) (target : Target) (action : Action) : Script :=
  ⟨script.entries.filter (·.1 ≠ target) ++ [(target, action)]⟩

/-- The script of a list of actions, of which later ones replace earlier ones. -/
def ofList (entries : List (Target × Action)) : Script :=
  entries.foldl (fun script entry => script.insert entry.1 entry.2) {}

/-- The action of a target. -/
def action? (script : Script) (target : Target) : Option Action :=
  script.entries.lookup target

/-- The number of targets with an action. -/
def size (script : Script) : Nat :=
  script.entries.length

/-- The targets with an action, as sorted texts. -/
def text (script : Script) : String :=
  let targets := (script.entries.map (·.1.text)).mergeSort (· ≤ ·)
  "Submodules \x7b targets: [" ++ ", ".intercalate (targets.map Text.quoted) ++ "] \x7d"

/-- The calls made in a scripted run. -/
abbrev Calls := List String

/-- The texts of arguments in a row. -/
def argsText (args : List Value) : String :=
  "; ".intercalate (args.map Value.text)

/-- The first integer among the arguments. -/
def literal? (args : List Value) : Option Int :=
  args.findSome? fun
    | .int value => some value
    | _ => none

/-- The submodule that records the call and acts on it. -/
def submodule (script : Script) (body : Body) (target : Target) (action : Action) :
    Submodule Calls := fun calls _ args =>
  let calls := calls ++ [target.text ++ "(" ++ argsText args ++ ")"]
  match action with
  | .const interval => .finish calls (.ok interval)
  | .arg position =>
    match args[position]? with
    | some (.range interval) => .finish calls (.ok interval)
    | _ => .finish calls (.error (.invalidOperand target.text position))
  | .literal => .finish calls (.ok (.singleton ((literal? args).getD (-1))))
  | .run index =>
    match body.subblocks[index]? with
    | none => .finish calls (.error (.malformedSubblock index 0))
    | some graph =>
      .run graph calls fun result calls _ =>
        .finish calls (result.map fun _ => .singleton script.size)
  | .fail => .finish calls (.error (.notAnInterval target.text (argsText args)))

/-- The interpreter of the script for the graphs of a body. -/
def interpreter (script : Script) (handler : Handler) (body : Body) : Interpreter Calls where
  handler
  submodule? target := (script.action? target).map (script.submodule body target)

/-- Runs a graph of the body. The levels are as many as there are graphs: a run that ends never
enters a graph from within itself. -/
def run (script : Script) (handler : Handler) (body : Body) (graph : Graph) (bounds : Bounds) :
    Outcome Calls Unit :=
  (script.interpreter handler body).run body.graphs.length graph { state := [], bounds }

end Script

end LoopBounds
