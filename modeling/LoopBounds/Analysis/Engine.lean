/-
Engines: analyses that are run once and asked often.

An `Engine` analyses its body when it is first asked for the intervals. It keeps
the answer, be it an error, and gives it again without another run; each time it
counts that.
-/
import LoopBounds.Analysis.Basic

namespace LoopBounds

/-- An analysis with its answer, once it has one. -/
structure Engine where
  body : Body
  config : Config
  context : Context
  answer? : Option (Except Error Bounds) := none

/-- The answer of an engine, with the engine afterwards and the events of the run. -/
structure Engine.Reply where
  answer : Except Error Bounds
  engine : Engine
  events : Array Event := #[]

namespace Engine

/-- An engine that was not asked yet. -/
def new (body : Body) (config : Config) : Engine where
  body
  config
  context := { scope := body.initialScope }

/-- Counts an answer given again. -/
def countHit (engine : Engine) : Engine :=
  { engine with context.stats.cacheHits := engine.context.stats.cacheHits + 1 }

/-- The intervals of the nodes: by a run if this is the first question, else as answered then. -/
def bounds (engine : Engine) : Reply :=
  match engine.answer? with
  | some answer => { answer, engine := engine.countHit }
  | none =>
    let (answer, store) := engine.body.analyze engine.config
    { answer
      engine := { engine with context := store.state, answer? := some answer }
      events := store.log }

end Engine

end LoopBounds
