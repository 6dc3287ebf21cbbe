/-
The demonstration: a scenario analysed and reported.

`Demo.report` does all but the input and output: from the arguments it computes
what is printed, the drawing that is written to a file, and the exit code.
-/
import LoopBounds.Analysis.Engine
import LoopBounds.Demo.Options
import LoopBounds.Dot

namespace LoopBounds.Demo

/-- What the demonstration leaves behind. -/
structure Report where
  /-- `0` for success, `1` for a failed analysis, `2` for wrong arguments. -/
  exit : Nat
  lines : List String := []
  /-- The file to write, by path and text. -/
  drawing : Option (String × String) := none
  /-- Why it failed. -/
  complaint : Option String := none
  /-- What the analysis told, if that was asked for. -/
  events : List Event := []

/-- A scenario as it is shown among the options. -/
def Scenario.title : Scenario → String
  | .strided => "Strided"
  | .gather => "Gather"
  | .masked => "Masked"
  | .reduction => "Reduction"

/-- A truth value as a word. -/
def boolText (b : Bool) : String :=
  if b then "true" else "false"

/-- The options in one line. -/
def Options.text (options : Options) : String :=
  "Cli \x7b scenario: " ++ options.scenario.title ++
    ", extent: " ++ toString options.extent ++
    ", strict: " ++ boolText options.strict ++
    ", max_depth: " ++ toString options.maxDepth ++
    ", dot: " ++ (match options.dot with
      | some path => "Some(" ++ Text.quoted path ++ ")"
      | none => "None") ++
    ", verbose: " ++ boolText options.verbose ++ " \x7d"

/-- The counts of an analysis in one line. -/
def statsText (stats : Stats) : String :=
  "BoundsStats \x7b resolutions: " ++ toString stats.resolutions ++
    ", subblock_runs: " ++ toString stats.subblockRuns ++
    ", indirect_bindings: " ++ toString stats.indirectBindings ++
    ", cache_hits: " ++ toString stats.cacheHits ++ " \x7d"

/-- The text with blanks behind it, up to a width. -/
def padded (width : Nat) (s : String) : String :=
  s.pushn ' ' (width - s.length)

/-- A node with its interval, or with a dash if it has none. -/
def nodeLine (bounds : Bounds) (node : Node) : String :=
  padded 40 node.text ++ " " ++ ((bounds[node.id]?).map Interval.text).getD "-"

/-- The settings of the analysis that the options ask for. -/
def Options.config (options : Options) : Config where
  recheck := if options.strict then .equal else .subset
  maxDepth := options.maxDepth

/-- The analysis of the scenario, reported. -/
def Options.report (options : Options) : Report :=
  let body := options.scenario.body options.extent
  let reply := (Engine.new body options.config).bounds
  let header := "args = " ++ options.text
  let events := if options.verbose then reply.events.toList.filter (·.level = .debug) else []
  match reply.answer with
  | .error e => { exit := 1, lines := [header], complaint := some e.message, events }
  | .ok bounds =>
    { exit := 0
      lines :=
        header :: body.nodes.map (nodeLine bounds) ++
          ["", "unbounded nodes: " ++ toString body.unbounded.size,
            "stats = " ++ statsText reply.engine.context.stats] ++
          (options.dot.map ("wrote " ++ ·)).toList ++ [""]
      drawing := options.dot.map fun path => (path, body.toDot bounds {})
      events }

/-- The demonstration for a list of arguments. -/
def report (arguments : List String) : Report :=
  match Options.parse arguments with
  | .ok options => options.report
  | .error e => { exit := 2, complaint := some e.message }

end LoopBounds.Demo
