/-
Soundness of engines.

The answer of an engine is compared with the executions of its body that start
within the ranges of the loop variables (`State.Starts`):

* `bounds_sound` — all values lie in their intervals, and all symbols in their
  ranges, where every subblock is referred to at most once and all are run;
* `bounds_sound_of_not_rebound` — where a subblock is run more than once this
  holds except for what a rebound symbol reaches. `rebinding_escapes` shows that
  the exception is needed: an index in the subblock keeps the interval that it
  had before its symbol was bound anew;
* `bounds_sound_of_not_passedOver` — where masks decide whether a subblock is run
  this holds except for what a subblock that was passed over reaches.
  `default_escapes` and `effect_escapes` show that this exception is needed too:
  the literal of a masked node is not part of its interval, and a symbol that an
  index reads has the range that the subblock would have given it.

All three are the simulation with their own sources.
-/
import LoopBounds.Proofs.Soundness.Simulation

namespace LoopBounds

namespace Execution

/-- Nothing is computed yet, and the symbols are within what the analysis starts from. -/
structure State.Starts (state : State) (body : Body) : Prop where
  values : state.values = []
  symbols : ∀ name, state.symbols name ∈ body.initialScope.range name

/-- With one loop variable, only that is restricted. -/
theorem State.starts_of_varRanges {state : State} {body : Body} {loopVar : Symbol} {upper : Expr}
    (hvalues : state.values = []) (hloop : body.varRanges = [(loopVar, upper)])
    (hmem : state.symbols loopVar ∈ body.initialScope.range loopVar) : state.Starts body := by
  refine ⟨hvalues, ?_⟩
  intro name
  by_cases hname : name = loopVar
  · rw [hname]
    exact hmem
  · have hother : name ∉ body.varRanges.map Prod.fst := by
      rw [hloop]
      exact List.not_mem_cons_of_ne_of_not_mem hname List.not_mem_nil
    rw [Scope.range, Body.getElem?_initialScope hother]
    exact Interval.mem_unknown _

end Execution

open Execution

variable {body : Body} {config : Config} {bounds : Bounds} {masksCount : Bool}
  {source : Place → Prop} {start final : State}

theorem Body.Flows.false_of_source (hsource : ∀ place, ¬ source place) {place : Place} :
    ¬ body.Flows source place := by
  intro h
  induction h with
  | source h => exact hsource _ h
  | operand _ _ _ _ _ ih => exact ih
  | result _ _ _ _ _ ih => exact ih
  | index _ _ _ _ ih => exact ih
  | assigned _ _ _ ih => exact ih

theorem Body.ReferredOnce.not_rebound (h : body.ReferredOnce) (place : Place) :
    ¬ body.Rebound place := by
  have hblock : ∀ block, ¬ body.RepeatedBlock block := by
    intro block
    cases block with
    | root => exact id
    | subblock index => exact h.not_repeated index
  intro hrebound
  cases hrebound with
  | index hrep _ _ _ _ => exact hblock _ hrep
  | symbol hrep _ _ _ => exact hblock _ hrep

/-- An execution stays within the answer of an engine, at the places that no source reaches. -/
theorem agrees_of_answer (hbuilt : body.Built) (hplain : body.PlainIndices)
    (hanswer : (Engine.new body config).bounds.answer = .ok bounds) (hstart : start.Starts body)
    (hruns : Runs body masksCount body.root.nodes start final)
    (hrebound : ∀ place, body.Rebound place → source place)
    (hpassedOver : masksCount = true →
      ∀ place, body.PassedOver bounds final.values place → source place)
    (hliterals : masksCount = true → body.LiteralMasks) :
    Agrees (body.Flows source) bounds (Engine.new body config).bounds.engine.context.scope
      final := by
  have hids := hbuilt.distinctIds
  have hcompletes := (Analysis.completes_root hids hanswer).skips hids
  have hsolves := hcompletes.solves hids
  have setting : Setting body masksCount bounds final.values source :=
    ⟨hids, hplain, hsolves, hrebound, hpassedOver, hliterals⟩
  have hagrees : Agrees (body.Flows source) bounds body.initialScope start := by
    constructor
    · intro id value hvalue
      rw [hstart.values] at hvalue
      cases hvalue
    · intro name _
      exact hstart.symbols name
  exact setting.agrees hcompletes Body.has_root (Analysis.settled_initial hids hplain) (.refl _)
    hruns (fun _ hentry => hentry) hagrees

/-! ### Subblocks run once -/

/-- **Engines are sound.** Where each subblock is referred to at most once, an execution that runs
all of them has its values in the intervals of the answer, and its symbols end in the ranges that
the engine is left with. -/
theorem bounds_sound (hbuilt : body.Built) (honce : body.ReferredOnce) (hplain : body.PlainIndices)
    (hanswer : (Engine.new body config).bounds.answer = .ok bounds) (hstart : start.Starts body)
    (hruns : Runs body false body.root.nodes start final) :
    (∀ id value, (id, value) ∈ final.values → ∃ range, bounds[id]? = some range ∧ value ∈ range) ∧
    ∀ name, final.symbols name ∈
      (Engine.new body config).bounds.engine.context.scope.range name := by
  have hagrees := agrees_of_answer hbuilt hplain hanswer hstart hruns (fun _ h => h) nofun nofun
  have hnot (place : Place) : ¬ body.Flows body.Rebound place :=
    Body.Flows.false_of_source honce.not_rebound
  constructor
  · intro id value hvalue
    exact hagrees.values id value hvalue (hnot _)
  · intro name
    exact hagrees.symbols name (hnot _)

/-- A loop variable, an indirect variable computed from it, and a subblock with an index of both. -/
def gathering : Body :=
  (Builder.afterAll [
    .varRange "i" 9, .indirectVar "tmp", .indexExpr "row" (.sym "i"),
    .indexExpr "cell" (.sym "tmp" * 2 + .sym "i"), .subblock,
    .push (.subblock 0) .getIndex [.name "cell"],
    .push (.subblock 0) .output [.node 0],
    .push .root .getIndex [.name "row"],
    .push .root (.op "add") [.node 2, .node 2],
    .push .root (.setIndirect 0) [.node 3],
    .push .root .load [.name "buffer", .node 2],
    .push .root (.maskedSubblock 0) [.node 5, .int 0]]).body

theorem bounds_sound_gathering : ∃ bounds final,
    (Engine.new gathering {}).bounds.answer = .ok bounds ∧
    Runs gathering false gathering.root.nodes { symbols := fun _ => 3 } final ∧
    bounds[6]? = some (.between 0 45) ∧ (6, 15) ∈ final.values ∧
    (∀ id value, (id, value) ∈ final.values → ∃ range, bounds[id]? = some range ∧ value ∈ range) ∧
    ∀ name, final.symbols name ∈
      (Engine.new gathering {}).bounds.engine.context.scope.range name := by
  have hinterval : (Engine.new gathering {}).interval? 6 = some (.between 0 45) := by decide +kernel
  obtain ⟨bounds, hanswer, hrange⟩ := Engine.exists_of_interval? hinterval
  have hruns : ∃ final, Runs gathering false gathering.root.nodes { symbols := fun _ => 3 } final ∧
      (6, 15) ∈ final.values :=
    ⟨_, .step (.getIndex rfl rfl) <| .step (.operation rfl rfl rfl) <|
      .step (.setIndirect rfl rfl) <| .step (.load : Computes _ _ _ 8 _) <|
      .enter Bool.false_ne_true.elim rfl
        (.step (.getIndex rfl rfl) <| .step (.output rfl) .done) rfl rfl .done,
      List.mem_cons_self⟩
  obtain ⟨final, hruns, hvalue⟩ := hruns
  have hstart : State.Starts { symbols := fun _ => 3 } gathering :=
    State.starts_of_varRanges rfl rfl (by decide)
  exact ⟨bounds, final, hanswer, hruns, hrange, hvalue,
    bounds_sound ⟨_, rfl⟩ (by decide) (by decide) hanswer hstart hruns⟩

/-! ### Subblocks run more than once -/

/-- **Soundness with subblocks run more than once.** Every value and symbol that is not reached by
a rebound symbol is where the answer says. -/
theorem bounds_sound_of_not_rebound (hbuilt : body.Built) (hplain : body.PlainIndices)
    (hanswer : (Engine.new body config).bounds.answer = .ok bounds) (hstart : start.Starts body)
    (hruns : Runs body false body.root.nodes start final) :
    (∀ id value, (id, value) ∈ final.values → ¬ body.Flows body.Rebound (.node id) →
      ∃ range, bounds[id]? = some range ∧ value ∈ range) ∧
    ∀ name, ¬ body.Flows body.Rebound (.symbol name) → final.symbols name ∈
      (Engine.new body config).bounds.engine.context.scope.range name := by
  have hagrees := agrees_of_answer hbuilt hplain hanswer hstart hruns (fun _ h => h) nofun nofun
  exact ⟨hagrees.values, hagrees.symbols⟩

/-- A subblock with the index of an indirect variable, run twice. -/
def sharing : Body :=
  (Builder.afterAll [
    .indirectVar "tmp", .indexExpr "index" (.sym "tmp"), .subblock,
    .push (.subblock 0) .getIndex [.name "index"],
    .push (.subblock 0) .output [.node 0],
    .push .root (.op "constant") [.int 1],
    .push .root (.setIndirect 0) [.node 2],
    .push .root (.maskedSubblock 0) [.node 2, .int 0],
    .push .root (.maskedSubblock 0) [.node 2, .int 0]]).body

theorem stable_sharing (name : Symbol) : sharing.Stable name := by
  have honce : ∀ m ∈ sharing.nodes, ∀ n ∈ sharing.nodes,
      m.assigned? sharing = n.assigned? sharing → m.assigned? sharing = none ∨ m = n := by decide
  constructor
  · intro m hm n hn hmname hnname
    rcases honce m hm n hn (hmname.trans hnname.symm) with hnone | heq
    · rw [hmname] at hnone
      cases hnone
    · exact heq
  · intro n hn hname
    exact List.not_mem_nil

theorem bounds_sound_of_not_rebound_sharing : ∃ bounds final,
    (Engine.new sharing {}).bounds.answer = .ok bounds ∧
    Runs sharing false sharing.root.nodes { symbols := fun _ => 0 } final ∧
    (5, 1) ∈ final.values ∧ ¬ sharing.Flows sharing.Rebound (.node 5) ∧
    ∃ range, bounds[5]? = some range ∧ 1 ∈ range := by
  have hinterval : (Engine.new sharing {}).interval? 5 = some (.singleton 1) := by decide +kernel
  obtain ⟨bounds, hanswer, -⟩ := Engine.exists_of_interval? hinterval
  have hruns : ∃ final, Runs sharing false sharing.root.nodes { symbols := fun _ => 0 } final ∧
      (5, 1) ∈ final.values :=
    ⟨_, .step (.operation rfl rfl rfl) <| .step (.setIndirect rfl rfl) <|
      .enter Bool.false_ne_true.elim rfl
        (.step (.getIndex rfl rfl) <| .step (.output rfl) .done) rfl rfl <|
      .enter Bool.false_ne_true.elim rfl
        (.step (.getIndex rfl rfl) <| .step (.output rfl) .done) rfl rfl .done,
      List.mem_cons_self⟩
  obtain ⟨final, hruns, hvalue⟩ := hruns
  have hstart : State.Starts { symbols := fun _ => 0 } sharing :=
    ⟨rfl, fun _ => Interval.mem_unknown _⟩
  have hnot : ¬ sharing.Flows sharing.Rebound (.node 5) := by
    refine Body.Flows.false_of_source ?_
    intro place hrebound
    cases hrebound with
    | index _ _ _ _ hstable => exact hstable (stable_sharing _)
    | symbol _ _ _ hstable => exact hstable (stable_sharing _)
  exact ⟨bounds, final, hanswer, hruns, hvalue, hnot,
    (bounds_sound_of_not_rebound ⟨_, rfl⟩ (by decide) hanswer hstart hruns).1 5 1 hvalue hnot⟩

/-- The same subblock, run before and after the indirect variable is bound anew. -/
def rebinding : Body :=
  (Builder.afterAll [
    .indirectVar "tmp", .indexExpr "index" (.sym "tmp"), .subblock,
    .push (.subblock 0) .getIndex [.name "index"],
    .push (.subblock 0) .output [.node 0],
    .push .root (.op "constant") [.int 1],
    .push .root (.setIndirect 0) [.node 2],
    .push .root (.maskedSubblock 0) [.node 2, .int 0],
    .push .root (.op "constant") [.int 5],
    .push .root (.setIndirect 0) [.node 5],
    .push .root (.maskedSubblock 0) [.node 2, .int 0]]).body

/-- The second run of the subblock gives `5`, while the answer for it is that of the first. -/
theorem rebinding_escapes : ∃ bounds start final, rebinding.Built ∧ rebinding.PlainIndices ∧
    (Engine.new rebinding {}).bounds.answer = .ok bounds ∧ start.Starts rebinding ∧
    Runs rebinding false rebinding.root.nodes start final ∧
    ∃ value range, (7, value) ∈ final.values ∧ bounds[7]? = some range ∧ value ∉ range := by
  have hinterval : (Engine.new rebinding {}).interval? 7 = some (.singleton 1) := by decide +kernel
  obtain ⟨bounds, hanswer, hrange⟩ := Engine.exists_of_interval? hinterval
  have hruns : ∃ final, Runs rebinding false rebinding.root.nodes { symbols := fun _ => 0 } final ∧
      (7, 5) ∈ final.values :=
    ⟨_, .step (.operation rfl rfl rfl) <| .step (.setIndirect rfl rfl) <|
      .enter Bool.false_ne_true.elim rfl
        (.step (.getIndex rfl rfl) <| .step (.output rfl) .done) rfl rfl <|
      .step (.operation rfl rfl rfl) <| .step (.setIndirect rfl rfl) <|
      .enter Bool.false_ne_true.elim rfl
        (.step (.getIndex rfl rfl) <| .step (.output rfl) .done) rfl rfl .done,
      List.mem_cons_self⟩
  obtain ⟨final, hruns, hvalue⟩ := hruns
  exact ⟨bounds, { symbols := fun _ => 0 }, final, ⟨_, rfl⟩, by decide, hanswer,
    ⟨rfl, fun _ => Interval.mem_unknown _⟩, hruns, 5, _, hvalue, hrange, by decide⟩

/-! ### Subblocks passed over -/

/-- **Soundness with masks.** Every value that is not reached by a subblock that was passed over is
in its interval. -/
theorem bounds_sound_of_not_passedOver (hbuilt : body.Built) (honce : body.ReferredOnce)
    (hplain : body.PlainIndices) (hliterals : body.LiteralMasks)
    (hanswer : (Engine.new body config).bounds.answer = .ok bounds) (hstart : start.Starts body)
    (hruns : Runs body true body.root.nodes start final) (id : NodeId) (value : Int)
    (hvalue : (id, value) ∈ final.values)
    (hnot : ¬ body.Flows (body.PassedOver bounds final.values) (.node id)) :
    ∃ range, bounds[id]? = some range ∧ value ∈ range := by
  have hagrees := agrees_of_answer hbuilt hplain hanswer hstart hruns
    (fun place h => absurd h (honce.not_rebound place)) (fun _ _ h => h) (fun _ => hliterals)
  exact hagrees.values id value hvalue hnot

/-- A masked node whose mask is zero and whose literal is one of the values that its subblock can
give. The literal is assigned to an indirect variable, and an index reads that. -/
def substituting : Body :=
  (Builder.afterAll [
    .varRange "i" 9, .indirectVar "tmp", .indexExpr "row" (.sym "i"),
    .indexExpr "cell" (.sym "tmp" * 2 + .sym "i"), .subblock,
    .push (.subblock 0) .getIndex [.name "row"],
    .push (.subblock 0) .output [.node 0],
    .push .root (.op "constant") [.int 0],
    .push .root (.maskedSubblock 0) [.node 2, .int 4],
    .push .root (.setIndirect 0) [.node 3],
    .push .root .getIndex [.name "cell"]]).body

theorem masked_substituting : ∀ node ∈ substituting.nodes, node.subblock? = none ∨
    node = ⟨3, .maskedSubblock 0, [.node 2, .int 4]⟩ := by
  decide

theorem literalMasks_substituting : substituting.LiteralMasks :=
  Body.literalMasks_of_args fun node hnode => (masked_substituting node hnode).imp_right
    (congrArg Node.args)

/-- The subblock would have assigned the symbol of its index, and nothing else. -/
theorem eq_of_below_substituting {node : Node} {name : Symbol}
    (h : substituting.Below (.subblock 0) node) (hname : node.assigned? substituting = some name) :
    name = "row" := by
  have hreferences : ∀ graph ∈ substituting.subblocks, graph.references = [] := by decide
  have hassigned : ∀ graph ∈ substituting.subblocks, ∀ node ∈ graph.nodes,
      node.assigned? substituting = some "row" ∨ node.assigned? substituting = none := by decide
  have hplain : ∀ index, ¬ substituting.Refers (.subblock 0) index := by
    rintro index ⟨-, graph, hgraph, hmem⟩
    rw [hreferences graph (List.mem_of_getElem? hgraph)] at hmem
    cases hmem
  obtain ⟨graph, hgraph, hnode⟩ := h.has hplain
  rcases hassigned graph (List.mem_of_getElem? hgraph) node hnode with hrow | hnone
  · rw [hrow, Option.some_inj] at hname
    exact hname.symm
  · rw [hnone] at hname
    cases hname

theorem not_read_substituting {name : String} {expr : Expr}
    (h : substituting.indexExprs[name]? = some expr) : "row" ∉ expr.occurrences := by
  have hexprs : substituting.indexExprs = ((∅ : Std.ExtTreeMap String Expr).insert "row"
      (.sym "i")).insert "cell" (.sym "tmp" * 2 + .sym "i") := rfl
  rw [hexprs, Std.ExtTreeMap.getElem?_insert] at h
  split at h
  · cases h
    decide
  · rw [Std.ExtTreeMap.getElem?_insert] at h
    split at h
    · cases h
      decide
    · rw [Std.ExtTreeMap.getElem?_empty] at h
      cases h

/-- The literal is in the interval and so no source, and the symbol that is one is not read. -/
theorem eq_of_flows_substituting {history : List (NodeId × Int)} {place : Place}
    (hrange : bounds[3]? = some (.between 0 9))
    (h : substituting.Flows (substituting.PassedOver bounds history) place) :
    place = .symbol "row" := by
  have hpassed : ∀ node ∈ substituting.nodes, ∀ index other, node.Passed history index other →
      node = ⟨3, .maskedSubblock 0, [.node 2, .int 4]⟩ := by
    intro node hnode index other h
    rcases masked_substituting node hnode with hnone | heq
    · rw [Node.subblock?_eq_some.2 h.target] at hnone
      cases hnone
    · exact heq
  induction h with
  | source h =>
    cases h with
    | value hnode h hrange' hother =>
      cases hpassed _ hnode _ _ h
      obtain ⟨_, hargs, -⟩ := h.mask
      cases hargs
      rw [hrange, Option.some_inj] at hrange'
      subst hrange'
      exact absurd (by decide) hother
    | effect hnode h hlower hname =>
      cases hpassed _ hnode _ _ h
      cases h.target
      rw [eq_of_below_substituting hlower hname]
  | operand _ _ _ _ _ ih => cases ih
  | result _ _ _ _ _ ih => cases ih
  | index _ hexpr hname _ ih =>
    cases ih
    obtain ⟨_, _, _, _, hexpr⟩ := hexpr
    exact absurd hname (not_read_substituting hexpr)
  | assigned _ _ _ ih => cases ih

theorem bounds_sound_of_not_passedOver_substituting : ∃ bounds final,
    (Engine.new substituting {}).bounds.answer = .ok bounds ∧
    Runs substituting true substituting.root.nodes { symbols := fun _ => 3 } final ∧
    bounds[3]? = some (.between 0 9) ∧ (3, 4) ∈ final.values ∧
    bounds[5]? = some (.between 0 27) ∧ (5, 11) ∈ final.values ∧
    ¬ substituting.Flows (substituting.PassedOver bounds final.values) (.node 5) ∧
    ∃ range, bounds[5]? = some range ∧ 11 ∈ range := by
  have hmasked : (Engine.new substituting {}).interval? 3 = some (.between 0 9) := by
    decide +kernel
  have hindex : (Engine.new substituting {}).interval? 5 = some (.between 0 27) := by
    decide +kernel
  obtain ⟨bounds, hanswer, hmasked⟩ := Engine.exists_of_interval? hmasked
  obtain ⟨_, hanswer', hindex⟩ := Engine.exists_of_interval? hindex
  cases hanswer.symm.trans hanswer'
  have hruns : ∃ final,
      Runs substituting true substituting.root.nodes { symbols := fun _ => 3 } final ∧
      (3, 4) ∈ final.values ∧ (5, 11) ∈ final.values :=
    ⟨_, .step (.operation rfl rfl rfl) <| .pass rfl rfl <| .step (.setIndirect rfl rfl) <|
      .step (.getIndex rfl rfl) .done,
      List.mem_cons_of_mem _ (List.mem_cons_of_mem _ List.mem_cons_self), List.mem_cons_self⟩
  obtain ⟨final, hruns, hliteral, hvalue⟩ := hruns
  have hstart : State.Starts { symbols := fun _ => 3 } substituting :=
    State.starts_of_varRanges rfl rfl (by decide)
  have hnot : ¬ substituting.Flows (substituting.PassedOver bounds final.values) (.node 5) := by
    intro hflows
    cases eq_of_flows_substituting hmasked hflows
  exact ⟨bounds, final, hanswer, hruns, hmasked, hliteral, hindex, hvalue, hnot,
    bounds_sound_of_not_passedOver ⟨_, rfl⟩ (by decide) (by decide) literalMasks_substituting
      hanswer hstart hruns 5 11 hvalue hnot⟩

/-- A masked node whose mask is zero and whose literal is not what its subblock gives. -/
def defaulting : Body :=
  (Builder.afterAll [
    .subblock,
    .push (.subblock 0) (.op "constant") [.int 1],
    .push (.subblock 0) .output [.node 0],
    .push .root (.op "constant") [.int 0],
    .push .root (.maskedSubblock 0) [.node 2, .int 5],
    .push .root (.op "add") [.node 2, .node 2]]).body

theorem literalMasks_defaulting : defaulting.LiteralMasks :=
  Body.literalMasks_of_args (show ∀ node ∈ defaulting.nodes, node.subblock? = none ∨
    node.args = [.node 2, .int 5] by decide)

/-- The masked node has the literal for value, and the interval of its subblock. -/
theorem default_escapes : ∃ bounds start final, defaulting.Built ∧ defaulting.ReferredOnce ∧
    defaulting.PlainIndices ∧ defaulting.LiteralMasks ∧
    (Engine.new defaulting {}).bounds.answer = .ok bounds ∧ start.Starts defaulting ∧
    Runs defaulting true defaulting.root.nodes start final ∧
    ∃ value range, (3, value) ∈ final.values ∧ bounds[3]? = some range ∧ value ∉ range := by
  have hinterval : (Engine.new defaulting {}).interval? 3 = some (.singleton 1) := by decide +kernel
  obtain ⟨bounds, hanswer, hrange⟩ := Engine.exists_of_interval? hinterval
  have hruns : ∃ final, Runs defaulting true defaulting.root.nodes { symbols := fun _ => 0 } final ∧
      (3, 5) ∈ final.values :=
    ⟨_, .step (.operation rfl rfl rfl) <| .pass rfl rfl <| .step (.operation rfl rfl rfl) .done,
      List.mem_cons_of_mem _ List.mem_cons_self⟩
  obtain ⟨final, hruns, hvalue⟩ := hruns
  exact ⟨bounds, { symbols := fun _ => 0 }, final, ⟨_, rfl⟩, by decide, by decide,
    literalMasks_defaulting, hanswer, ⟨rfl, fun _ => Interval.mem_unknown _⟩, hruns, 5, _, hvalue,
    hrange, by decide⟩

/-- An indirect variable that is assigned, would be assigned again in a subblock that is passed
over, and is then read by an index. -/
def overruling : Body :=
  (Builder.afterAll [
    .indirectVar "tmp", .indexExpr "index" (.sym "tmp"), .subblock,
    .push (.subblock 0) (.op "constant") [.int 1],
    .push (.subblock 0) (.setIndirect 0) [.node 0],
    .push (.subblock 0) .output [.node 0],
    .push .root (.op "constant") [.int 5],
    .push .root (.setIndirect 0) [.node 3],
    .push .root (.op "constant") [.int 0],
    .push .root (.maskedSubblock 0) [.node 5, .int 1],
    .push .root .getIndex [.name "index"]]).body

theorem literalMasks_overruling : overruling.LiteralMasks :=
  Body.literalMasks_of_args (show ∀ node ∈ overruling.nodes, node.subblock? = none ∨
    node.args = [.node 5, .int 1] by decide)

/-- The literal is in the interval of the masked node, but the index has the value assigned before,
and the interval of what the subblock would have assigned. -/
theorem effect_escapes : ∃ bounds start final, overruling.Built ∧ overruling.ReferredOnce ∧
    overruling.PlainIndices ∧ overruling.LiteralMasks ∧
    (Engine.new overruling {}).bounds.answer = .ok bounds ∧ start.Starts overruling ∧
    Runs overruling true overruling.root.nodes start final ∧
    (∃ range, (6, 1) ∈ final.values ∧ bounds[6]? = some range ∧ 1 ∈ range) ∧
    ∃ value range, (7, value) ∈ final.values ∧ bounds[7]? = some range ∧ value ∉ range := by
  have hmasked : (Engine.new overruling {}).interval? 6 = some (.singleton 1) := by decide +kernel
  have hindex : (Engine.new overruling {}).interval? 7 = some (.singleton 1) := by decide +kernel
  obtain ⟨bounds, hanswer, hmasked⟩ := Engine.exists_of_interval? hmasked
  obtain ⟨_, hanswer', hindex⟩ := Engine.exists_of_interval? hindex
  cases hanswer.symm.trans hanswer'
  have hruns : ∃ final,
      Runs overruling true overruling.root.nodes { symbols := fun _ => 0 } final ∧
      (6, 1) ∈ final.values ∧ (7, 5) ∈ final.values :=
    ⟨_, .step (.operation rfl rfl rfl) <| .step (.setIndirect rfl rfl) <|
      .step (.operation rfl rfl rfl) <| .pass rfl rfl <| .step (.getIndex rfl rfl) .done,
      List.mem_cons_of_mem _ List.mem_cons_self, List.mem_cons_self⟩
  obtain ⟨final, hruns, hliteral, hvalue⟩ := hruns
  exact ⟨bounds, { symbols := fun _ => 0 }, final, ⟨_, rfl⟩, by decide, by decide,
    literalMasks_overruling, hanswer, ⟨rfl, fun _ => Interval.mem_unknown _⟩, hruns,
    ⟨_, hliteral, hmasked, by decide⟩, 5, _, hvalue, hindex, by decide⟩

end LoopBounds
