/-
What the demonstration finds, for every extent.

The scenarios are analysed here with the extent of the outer loop as a variable.
Their graphs do not depend on it (`root_body`, `subblocks_body`), nor do the nodes
that nothing is known about (`initialBounds_body`), and the outer loop variable
ends at the extent, or at zero if that is negative (`initialScope_body`). From
there the runs are followed node by node, with the upper ends of ranges computed on
natural numbers.

An index that is resolved again has the range it had before, so it passes either
recheck. Only the masked scenario can be refused, by a depth limit that leaves no
room for its subblock (`scenario_intervals`).
-/
import LoopBounds.Demo.Report
import LoopBounds.Proofs.Analysis.Stepping
import LoopBounds.Proofs.Interval.UpTo

namespace LoopBounds.Demo

open Analysis LoopBounds.Interval

namespace Scenario

/-! ### The bodies -/

/-- The nodes of the root graph. -/
def root : Scenario → List Node
  | .strided =>
    [⟨0, .getIndex, [.name "index0"]⟩, ⟨1, .load, [.name "in", .node 0]⟩,
      ⟨2, .op "constant", [.int 2]⟩, ⟨3, .op "mul", [.node 1, .node 2]⟩,
      ⟨4, .getIndex, [.name "index1"]⟩, ⟨5, .op "index_expr", [.node 4]⟩,
      ⟨6, .op "store", [.node 5, .node 3]⟩, ⟨7, .output, [.node 3]⟩]
  | .gather =>
    [⟨0, .getIndex, [.name "index0"]⟩, ⟨1, .op "index_expr", [.node 0]⟩,
      ⟨2, .getIndex, [.name "index1"]⟩, ⟨3, .op "index_expr", [.node 2]⟩,
      ⟨4, .op "minimum", [.node 1, .node 3]⟩, ⟨5, .setIndirect 0, [.node 4]⟩,
      ⟨6, .getIndex, [.name "index2"]⟩, ⟨7, .load, [.name "table", .node 6]⟩,
      ⟨8, .output, [.node 7]⟩]
  | .masked =>
    [⟨5, .getIndex, [.name "index0"]⟩, ⟨6, .op "index_expr", [.node 5]⟩,
      ⟨7, .op "constant", [.int 100]⟩, ⟨8, .op "lt", [.node 6, .node 7]⟩,
      ⟨9, .maskedSubblock 0, [.node 8, .int 0]⟩, ⟨10, .output, [.node 9]⟩]
  | .reduction =>
    [⟨0, .getIndex, [.name "index0"]⟩, ⟨1, .load, [.name "in", .node 0]⟩,
      ⟨2, .reduction, [.node 1]⟩, ⟨3, .getIndex, [.name "index0"]⟩,
      ⟨4, .op "index_expr", [.node 3]⟩, ⟨5, .op "maximum", [.node 2, .node 4]⟩,
      ⟨6, .output, [.node 5]⟩]

/-- The graphs of the subblocks. -/
def subblocks : Scenario → List Graph
  | .masked =>
    [⟨[⟨0, .getIndex, [.name "index0"]⟩, ⟨1, .op "index_expr", [.node 0]⟩,
      ⟨2, .op "constant", [.int 2]⟩, ⟨3, .op "mul", [.node 1, .node 2]⟩,
      ⟨4, .output, [.node 3]⟩]⟩]
  | _ => []

/-- The nodes that nothing is known about, from the last one on. -/
def seeded : Scenario → List NodeId
  | .strided => [7, 6, 3, 1]
  | .gather => [8, 7]
  | .masked => [10]
  | .reduction => [6, 5, 2, 1]

/-- The intervals known before the scenario is run. -/
def start (scenario : Scenario) : Entries :=
  scenario.seeded.map (·, .unknown)

/-- What is known about the loop variables, of which the outer one ends at a natural number. -/
def scope (upper : Nat) : Scenario → Scope
  | .strided => ((∅ : Scope).insert "i0" (upTo upper)).insert "i1" (upTo 63)
  | _ => (∅ : Scope).insert "i0" (upTo upper)

theorem root_body (scenario : Scenario) (extent : Int) :
    (scenario.body extent).root = ⟨scenario.root⟩ := by
  cases scenario <;> rfl

theorem subblocks_body (scenario : Scenario) (extent : Int) :
    (scenario.body extent).subblocks = scenario.subblocks := by
  cases scenario <;> rfl

theorem nodes_body (scenario : Scenario) (extent : Int) :
    (scenario.body extent).nodes = scenario.root ++ scenario.subblocks.flatMap Graph.nodes := by
  simp only [Body.nodes, Body.graphs, root_body, subblocks_body, List.flatMap_cons]

theorem distinctIds_body (scenario : Scenario) (extent : Int) :
    (scenario.body extent).DistinctIds := by
  rw [Body.DistinctIds, nodes_body]
  cases scenario <;> decide

theorem initialBounds_body (scenario : Scenario) (extent : Int) :
    (scenario.body extent).initialBounds = scenario.start.bounds := by
  have hnodes : (scenario.body extent).nodes = (scenario.body 0).nodes := by
    rw [nodes_body, nodes_body]
  have hseeded : ((scenario.body 0).preseeded.map Node.id).reverse = scenario.seeded := by
    cases scenario <;> decide +kernel
  rw [Body.initialBounds_eq, Body.preseeded_eq_of_nodes_eq hnodes, hseeded, start]

theorem initialScope_body (scenario : Scenario) (extent : Int) :
    (scenario.body extent).initialScope = scenario.scope extent.toNat := by
  have hinner : upTo 63 = (63 : Expr).loopRange := (Expr.loopRange_const 63).symm
  cases scenario <;> simp only [scope, hinner, ← Expr.loopRange_const] <;> rfl

/-! ### The runs -/

/-- What the root graph reaches is the interval of a node. -/
theorem interval?_of_reaches {scenario : Scenario} {extent : Int} {config : Config} {id : NodeId}
    {range : Interval} (h : Reaches (scenario.body extent) config scenario.root
      { scope := scenario.scope extent.toNat } scenario.start
      fun _ known => known.lookup id = some range) :
    (Engine.new (scenario.body extent) config).interval? id = some range := by
  have hroot : Reaches (scenario.body extent) config (scenario.body extent).root.nodes
      { scope := (scenario.body extent).initialScope } scenario.start
      fun _ known => known.lookup id = some range := by
    rw [root_body, initialScope_body]
    exact h
  obtain ⟨_, known, hanswer, hid⟩ :=
    answer_of_reaches (distinctIds_body scenario extent) (initialBounds_body scenario extent) hroot
  rw [Engine.interval?, hanswer]
  exact (Entries.getElem?_bounds known id).trans hid

variable (extent : Int) (config : Config)

theorem interval?_strided : (Engine.new (strided.body extent) config).interval? 4 =
    some (upTo (64 * extent.toNat + 63)) := by
  refine interval?_of_reaches ?_
  generalize extent.toNat = n
  have hindex1 : singleton 64 * upTo n + upTo 63 = upTo (64 * n + 63) := by
    rw [← upTo_add, ← upTo_mul, Interval.mul_comm]
    rfl
  refine .step rfl rfl (.index rfl rfl (.inl rfl)) ?_
  refine .skip rfl ?_
  refine .step rfl rfl (.operation rfl) ?_
  refine .skip rfl ?_
  refine .step rfl rfl (.index rfl hindex1 (.inl rfl)) ?_
  refine .step rfl rfl (.operation rfl) ?_
  refine .skip rfl ?_
  refine .skip rfl ?_
  exact .done rfl

theorem interval?_gather : (Engine.new (gather.body extent) config).interval? 6 =
    some (upTo (32 * min (extent.toNat / 4) 31 + extent.toNat)) := by
  refine interval?_of_reaches ?_
  generalize extent.toNat = n
  have hindex0 : (upTo n).floorDiv (singleton 4) = upTo (n / 4) := upTo_floorDiv n 4 (by omega)
  have hindex1 : (upTo n).mod (singleton 32) = upTo (min n 31) := upTo_mod n 32 (by omega)
  -- below the divisor the remainder is the dividend, which is more than its quotient
  have hslot : (upTo (n / 4)).minimum (upTo (min n 31)) = upTo (min (n / 4) 31) := by
    rw [upTo_minimum]
    congr 1
    omega
  have hindex2 : upTo (min (n / 4) 31) * singleton 32 + upTo n =
      upTo (32 * min (n / 4) 31 + n) := by
    rw [← upTo_add, ← upTo_mul]
    rfl
  refine .step rfl rfl (.index rfl hindex0 (.inl rfl)) ?_
  refine .step rfl rfl (.operation rfl) ?_
  refine .step rfl rfl (.index rfl hindex1 (.inl rfl)) ?_
  refine .step rfl rfl (.operation rfl) ?_
  refine .step rfl rfl (.operation (congrArg Except.ok hslot)) ?_
  refine .step rfl rfl (.setIndirect rfl) ?_
  refine .step rfl rfl (.index rfl hindex2 (.inl rfl)) ?_
  refine .skip rfl ?_
  refine .skip rfl ?_
  exact .done rfl

theorem interval?_reduction : (Engine.new (reduction.body extent) config).interval? 4 =
    some (upTo extent.toNat) := by
  refine interval?_of_reaches ?_
  generalize extent.toNat = n
  refine .step rfl rfl (.index rfl rfl (.inl rfl)) ?_
  refine .skip rfl ?_
  refine .skip rfl ?_
  -- the index is resolved again, to the range that it has
  refine .step rfl rfl (.index rfl rfl (.inr rfl)) ?_
  refine .step rfl rfl (.operation rfl) ?_
  refine .skip rfl ?_
  refine .skip rfl ?_
  exact .done rfl

/-- The nodes in front of the masked one. The interval of the mask plays no part later. -/
theorem reaches_mask (n : Nat) {goal : Context → Entries → Prop}
    (h : ∀ mask, goal
      (({ scope := masked.scope n } : Context).countResolution.assign "index0" (upTo n))
      [(8, mask), (7, singleton 100), (6, upTo n), (5, upTo n), (10, .unknown)]) :
    Reaches (masked.body extent) config (masked.root.take 4) { scope := masked.scope n }
      masked.start goal := by
  refine .step rfl rfl (.index rfl rfl (.inl rfl)) ?_
  refine .step rfl rfl (.operation rfl) ?_
  refine .step rfl rfl (.operation rfl) ?_
  refine .step rfl rfl (.operation rfl) ?_
  exact .done (h _)

variable {config}

theorem interval?_masked (hdepth : 0 < config.maxDepth) :
    (Engine.new (masked.body extent) config).interval? 9 = some (upTo (2 * extent.toNat)) := by
  refine interval?_of_reaches ?_
  generalize extent.toNat = n
  have hsub : (masked.body extent).subblocks[0]? = masked.subblocks[0]? := by
    rw [subblocks_body]
  have hdoubled : upTo n * singleton 2 = upTo (2 * n) := upTo_mul n 2
  rw [← List.take_append_drop 4 masked.root]
  refine .append (reaches_mask extent config n fun mask => ?_)
  refine .enter (upTo (2 * n)) rfl rfl rfl hsub hdepth rfl ?_
  -- the root has resolved the index, and the subblock finds the same range
  refine .step rfl rfl (.index rfl rfl (.inr rfl)) ?_
  refine .step rfl rfl (.operation rfl) ?_
  refine .step rfl rfl (.operation rfl) ?_
  refine .step rfl rfl (.operation (congrArg Except.ok hdoubled)) ?_
  refine .step rfl rfl .output ?_
  refine .done ⟨rfl, rfl, ?_⟩
  refine .skip rfl ?_
  exact .done rfl

/-- A depth limit of zero leaves no room for the subblock. -/
theorem answer_masked (hdepth : config.maxDepth = 0) :
    (Engine.new (masked.body extent) config).bounds.answer = .error (.nestingTooDeep 0) := by
  have hroot : (masked.body extent).root.nodes = masked.root.take 4 ++
      ⟨9, .maskedSubblock 0, [.node 8, .int 0]⟩ :: masked.root.drop 5 := by
    rw [root_body]
    rfl
  have hsub : (masked.body extent).subblocks[0]? = masked.subblocks[0]? := by
    rw [subblocks_body]
  rw [← hdepth]
  refine answer_of_refuses (distinctIds_body masked extent) (initialBounds_body masked extent)
    hroot ?_
  rw [initialScope_body]
  exact reaches_mask extent config extent.toNat fun mask =>
    ⟨rfl, _, _, rfl, .tooDeep hsub (Nat.le_of_eq hdepth)⟩

end Scenario

/-! ### The results -/

namespace Options

/-- The engine that analyses the scenario. -/
def engine (options : Options) : Engine :=
  .new (options.scenario.body options.extent) options.config

/-- The intervals of the nodes that are picked, of each of them in order. -/
def intervals (options : Options) (picks : Node → Bool) : List (Option Interval) :=
  ((options.scenario.body options.extent).nodes.filter picks).map fun node =>
    options.engine.interval? node.id

theorem engine_eq {options : Options} {scenario : Scenario} (h : options.scenario = scenario) :
    options.engine = .new (scenario.body options.extent) options.config := by
  rw [engine, h]

/-- Unless the subblock has no room, there is an interval of a node and so no error. -/
theorem answer_ne_error {options : Options}
    (h : ¬ (options.scenario = .masked ∧ options.maxDepth = 0)) (e : Error) :
    options.engine.bounds.answer ≠ .error e := by
  have hanswered {id : NodeId} {range : Interval}
      (hid : options.engine.interval? id = some range) :
      options.engine.bounds.answer ≠ .error e := by
    obtain ⟨bounds, hok, -⟩ := Engine.exists_of_interval? hid
    simp [hok]
  cases hscenario : options.scenario with
  | strided => exact hanswered (engine_eq hscenario ▸ Scenario.interval?_strided _ _)
  | gather => exact hanswered (engine_eq hscenario ▸ Scenario.interval?_gather _ _)
  | masked =>
    have hdepth : 0 < options.config.maxDepth :=
      Nat.pos_of_ne_zero fun hzero => h ⟨hscenario, hzero⟩
    exact hanswered (engine_eq hscenario ▸ Scenario.interval?_masked _ hdepth)
  | reduction => exact hanswered (engine_eq hscenario ▸ Scenario.interval?_reduction _ _)

theorem answer_eq_error {options : Options} (h : options.scenario = .masked)
    (hdepth : options.maxDepth = 0) :
    options.engine.bounds.answer = .error (.nestingTooDeep 0) := by
  rw [engine_eq h]
  exact Scenario.answer_masked _ hdepth

end Options

/-- The nodes that resolve an index. -/
def resolves (name : String) (node : Node) : Bool :=
  node.target = .getIndex && node.args = [.name name]

/-- The nodes that run a subblock. -/
def isMasked (node : Node) : Bool :=
  node.target matches .maskedSubblock _

/-- **Intervals of the scenarios.** Whatever the options are, the analysis fails for the masked
scenario with a depth limit of zero and for nothing else, and then because of that limit. Otherwise,
with `E` for the extent or zero, whichever is larger, the range of the gathered read's index goes
from zero to `32 * min (E / 4) 31 + E`, that of the strided store's index to `64 * E + 63`, and
that of the masked node to `2 * E`. In each case there is just one such node. -/
theorem scenario_intervals (options : Options) :
    ((∃ e, options.engine.bounds.answer = .error e) ↔
      options.scenario = .masked ∧ options.maxDepth = 0) ∧
    (∀ e, options.engine.bounds.answer = .error e → e = .nestingTooDeep 0) ∧
    (options.scenario = .gather → options.intervals (resolves "index2") =
      [some (upTo (32 * min (options.extent.toNat / 4) 31 + options.extent.toNat))]) ∧
    (options.scenario = .strided → options.intervals (resolves "index1") =
      [some (upTo (64 * options.extent.toNat + 63))]) ∧
    (options.scenario = .masked → options.maxDepth ≠ 0 → options.intervals isMasked =
      [some (upTo (2 * options.extent.toNat))]) := by
  have hfails : ∀ e, options.engine.bounds.answer = .error e →
      options.scenario = .masked ∧ options.maxDepth = 0 := by
    intro e he
    by_contra h
    exact Options.answer_ne_error h e he
  refine ⟨⟨?_, ?_⟩, ?_, ?_, ?_, ?_⟩
  · rintro ⟨e, he⟩
    exact hfails e he
  · rintro ⟨h, hdepth⟩
    exact ⟨_, Options.answer_eq_error h hdepth⟩
  · intro e he
    obtain ⟨h, hdepth⟩ := hfails e he
    rw [Options.answer_eq_error h hdepth, Except.error.injEq] at he
    exact he.symm
  · intro h
    rw [Options.intervals, Options.engine_eq h, h, Scenario.nodes_body]
    show [(Engine.new _ _).interval? 6] = _
    rw [Scenario.interval?_gather]
  · intro h
    rw [Options.intervals, Options.engine_eq h, h, Scenario.nodes_body]
    show [(Engine.new _ _).interval? 4] = _
    rw [Scenario.interval?_strided]
  · intro h hdepth
    rw [Options.intervals, Options.engine_eq h, h, Scenario.nodes_body]
    show [(Engine.new _ _).interval? 9] = _
    rw [Scenario.interval?_masked _ (Nat.pos_of_ne_zero hdepth)]

/-- At the default extent, at a negative one, at the largest of 64 bits, and without room for the
subblock. -/
theorem scenario_intervals_extremes :
    Options.intervals { scenario := .gather } (resolves "index2") = [some (upTo 1119)] ∧
    Options.intervals { scenario := .strided, extent := -5, strict := true } (resolves "index1") =
      [some (upTo 63)] ∧
    Options.intervals { scenario := .masked, extent := 9223372036854775807, maxDepth := 1 }
      isMasked = [some (upTo 18446744073709551614)] ∧
    ∃ e, (Options.engine { scenario := .masked, maxDepth := 0 }).bounds.answer = .error e :=
  ⟨(scenario_intervals _).2.2.1 rfl, (scenario_intervals _).2.2.2.1 rfl,
    (scenario_intervals _).2.2.2.2 rfl (by decide), (scenario_intervals _).1.2 ⟨rfl, rfl⟩⟩

end LoopBounds.Demo
