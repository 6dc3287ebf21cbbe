/-
Where values go, and how they compare with intervals.

`Body.Flows` follows values from given sources through the places of an
execution: from operands to the nodes that read them, from the output of a
subblock to the masked node, from a node to the symbol it assigns and from there
to the indices. It stops at nodes that are taken as unbounded.

`Agrees` compares an execution with an analysis at the places that are not
reached: values lie in the intervals of their nodes, and symbols in their ranges.
One node keeps this up (`Agrees.step`), as long as its own value is in its
interval, and `Agrees.mem_of_explains` says that this is so for every node that
no source reaches and whose interval is explained.
-/
import LoopBounds.Execution
import LoopBounds.Proofs.Analysis.Equations
import LoopBounds.Proofs.Analysis.Settled
import LoopBounds.Proofs.Transfer

namespace LoopBounds

/-- Where an execution keeps a value. -/
inductive Place where
  | node (id : NodeId)
  | symbol (name : Symbol)

/-- A value from one of the sources goes into that of the place. -/
inductive Body.Flows (body : Body) (source : Place → Prop) : Place → Prop where
  | source {place : Place} : source place → Flows body source place
  /-- Into a node from those it reads, except where it is unbounded anyway. -/
  | operand {node : Node} {input : NodeId} : node ∈ body.nodes → node ∉ body.preseeded →
      (∀ index, node.target ≠ .maskedSubblock index) → input ∈ node.inputs →
      Flows body source (.node input) → Flows body source (.node node.id)
  /-- Into a masked node from the output of its subblock. -/
  | result {node output : Node} {index : Nat} {graph : Graph} : node ∈ body.nodes →
      node.target = .maskedSubblock index → body.subblocks[index]? = some graph →
      output ∈ graph.outputs → Flows body source (.node output.id) →
      Flows body source (.node node.id)
  /-- Into an index from the symbols of its expression. -/
  | index {node : Node} {expr : Expr} {name : Symbol} : node ∈ body.nodes →
      node.Resolves body expr → name ∈ expr.occurrences → Flows body source (.symbol name) →
      Flows body source (.node node.id)
  /-- Into a symbol from the nodes that assign it. -/
  | assigned {node : Node} {name : Symbol} : node ∈ body.nodes →
      node.assigned? body = some name → Flows body source (.node node.id) →
      Flows body source (.symbol name)

namespace Execution

/-- The values of nodes and symbols lie in their intervals, except at the places reached. -/
structure Agrees (reached : Place → Prop) (answer : Bounds) (scope : Scope) (state : State) :
    Prop where
  values : ∀ id value, (id, value) ∈ state.values → ¬ reached (.node id) →
    ∃ range, answer[id]? = some range ∧ value ∈ range
  symbols : ∀ name, ¬ reached (.symbol name) → state.symbols name ∈ scope.range name

variable {body : Body} {source reached : Place → Prop} {answer : Bounds} {scope : Scope}
  {state after : State} {node : Node} {value : Int} {range : Interval}

/-! ### Operands -/

theorem mem_of_lookup {values : List (NodeId × Int)} {id : NodeId}
    (h : values.lookup id = some value) : (id, value) ∈ values := by
  obtain ⟨before, rest, rfl, -⟩ := List.lookup_eq_some_iff.1 h
  exact List.mem_append_right _ List.mem_cons_self

theorem operands?_eq_some {operands : List Operand} {inputs : List Int}
    (h : state.operands? operands = some inputs) :
    List.Forall₂ (fun operand x => state.operand? operand = some x) operands inputs := by
  induction operands generalizing inputs with
  | nil =>
    cases h
    exact .nil
  | cons operand rest ih =>
    rw [State.operands?, List.mapM_cons] at h
    obtain ⟨x, hx, h⟩ := Option.bind_eq_some_iff.1 h
    obtain ⟨xs, hxs, h⟩ := Option.bind_eq_some_iff.1 h
    cases h
    exact .cons hx (ih hxs)

theorem Agrees.operand (h : Agrees reached answer scope state) {operand : Operand}
    {resolved : Value} (hvalue : state.operand? operand = some value)
    (hresolved : answer.value operand = .ok resolved)
    (hnot : ∀ id, operand = .node id → ¬ reached (.node id)) : resolved.Admits value := by
  cases operand with
  | node id =>
    obtain ⟨range, hrange, hmem⟩ := h.values id value (mem_of_lookup hvalue) (hnot id rfl)
    obtain ⟨range', hrange', rfl⟩ := Bounds.value_node hresolved
    rw [hrange, Option.some_inj] at hrange'
    subst hrange'
    exact hmem
  | name text =>
    cases hresolved
    trivial
  | int n =>
    cases hresolved
    exact (Option.some.inj hvalue).symm

theorem Agrees.operands (h : Agrees reached answer scope state) {operands : List Operand}
    {inputs : List Int} {args : List Value} (hvalues : state.operands? operands = some inputs)
    (hargs : answer.values operands = .ok args)
    (hnot : ∀ id, .node id ∈ operands → ¬ reached (.node id)) :
    List.Forall₂ Value.Admits args inputs := by
  replace hvalues := operands?_eq_some hvalues
  rw [Bounds.values_eq_ok_iff] at hargs
  induction hvalues generalizing args with
  | nil =>
    cases hargs
    exact .nil
  | cons hvalue _ ih =>
    cases hargs with
    | cons harg hargs =>
      refine .cons (h.operand hvalue harg ?_) (ih hargs ?_)
      · rintro id rfl
        exact hnot id List.mem_cons_self
      · intro id hid
        exact hnot id (List.mem_cons_of_mem _ hid)

/-! ### The value of a node -/

/-- A node that no source reaches and whose interval is explained has its value in there. -/
theorem Agrees.mem_of_explains (h : Agrees (body.Flows source) answer scope state)
    (hnode : node ∈ body.nodes) (hseeded : node ∉ body.preseeded)
    (hexplains : Analysis.Explains body answer node range)
    (hcomputes : Computes body state node value after) (hindex : node.target ≠ .getIndex)
    (hnot : ¬ body.Flows source (.node node.id)) : value ∈ range := by
  have hinputs : ∀ id, .node id ∈ node.args → ¬ body.Flows source (.node id) := by
    intro id hid hflows
    exact hnot (.operand hnode hseeded hcomputes.target_ne (Node.mem_inputs_of_mem_args hid) hflows)
  cases hcomputes with
  | operation hop hinputs' heval =>
    obtain ⟨args, hargs, hcall⟩ := hexplains
    have hadmits := h.operands hinputs' hargs hinputs
    rw [Handler.valueRange_call_some args hop] at hcall
    rcases Operation.apply_mem hcall hadmits with hzero | ⟨v, hv, hmem⟩
    · rw [Operation.eval?_of_dividesByZero hzero] at heval
      cases heval
    · rw [heval, Option.some_inj] at hv
      rw [hv]
      exact hmem
  | unrecognised hop =>
    obtain ⟨args, -, hcall⟩ := hexplains
    rw [Handler.valueRange_call_none args hop] at hcall
    cases hcall
    exact Interval.mem_unknown _
  | load =>
    cases hexplains
    exact Interval.mem_unknown _
  | reduction =>
    cases hexplains
    exact Interval.mem_unknown _
  | getIndex => exact absurd rfl hindex
  | setIndirect _ hinputs' =>
    obtain ⟨rest, hargs⟩ := hexplains
    cases h.operands hinputs' hargs hinputs with
    | cons hmem _ => exact hmem
  | @output _ source' _ _ hvalue =>
    obtain ⟨args, hargs, hrange⟩ := hexplains
    cases Bounds.values_eq_ok_iff.1 hargs with
    | cons hfirst _ =>
      have hadmits := h.operand hvalue hfirst ?_
      obtain ⟨range', -, rfl⟩ := Bounds.value_node hfirst
      · rw [hrange]
        exact hadmits
      · rintro id hid
        exact hinputs id (hid ▸ List.mem_cons_self)
  | emptyOutput hhead =>
    obtain ⟨args, hargs, rfl⟩ := hexplains
    match args, hargs with
    | [], _ => exact Interval.mem_unknown _
    | .range _ :: _, hargs =>
      obtain ⟨id, tail, rfl⟩ := Bounds.head_of_range hargs
      exact absurd rfl (hhead id)
    | .name _ :: _, _ => exact Interval.mem_unknown _
    | .int _ :: _, _ => exact Interval.mem_unknown _

/-- An index has its value in the range of its expression wherever all symbols are in theirs. -/
theorem Computes.mem_range {expr : Expr} {earlier : Scope}
    (h : Computes body state node value after) (hexpr : node.Resolves body expr)
    (hsymbols : ∀ name ∈ expr.occurrences, state.symbols name ∈ earlier.range name) :
    value ∈ expr.range earlier := by
  obtain ⟨name, rest, htarget, hargs, hexpr⟩ := hexpr
  cases h with
  | getIndex hexpr' heval =>
    cases hargs
    rw [hexpr', Option.some_inj] at hexpr
    rw [← hexpr] at hsymbols ⊢
    refine Expr.mem_range ?_ heval
    intro s hs x hx
    cases hx
    exact hsymbols s hs
  | _ => cases htarget

theorem Computes.resolves (h : Computes body state node value after)
    (htarget : node.target = .getIndex) : ∃ expr, node.Resolves body expr := by
  cases h with
  | getIndex hexpr _ => exact ⟨_, _, _, rfl, rfl, hexpr⟩
  | _ => cases htarget

/-! ### One step -/

theorem Agrees.record {id : NodeId} (h : Agrees reached answer scope state)
    (hrange : answer[id]? = some range) (hmem : ¬ reached (.node id) → value ∈ range) :
    Agrees reached answer scope (state.record id value) where
  values other v hv hnot := by
    rcases List.mem_cons.1 hv with heq | hold
    · cases heq
      exact ⟨range, hrange, hmem hnot⟩
    · exact h.values other v hold hnot
  symbols := h.symbols

/-- What is known about the symbols that are reached may change. -/
theorem Agrees.of_scope {scope' : Scope} (h : Agrees reached answer scope state)
    (hsame : ∀ name, ¬ reached (.symbol name) → scope'[name]? = scope[name]?) :
    Agrees reached answer scope' state where
  values := h.values
  symbols name hnot := by
    rw [Scope.range, hsame name hnot]
    exact h.symbols name hnot

/-- The node assigns its symbol in the execution and in the analysis, and is recorded. -/
theorem Agrees.step (h : Agrees (body.Flows source) answer scope state)
    (hnode : node ∈ body.nodes) (hcomputes : Computes body state node value after)
    (hrange : answer[node.id]? = some range)
    (hmem : ¬ body.Flows source (.node node.id) → value ∈ range) :
    Agrees (body.Flows source) answer (scope.insert? (node.assigned? body) range)
      (after.record node.id value) := by
  refine Agrees.record ?_ hrange hmem
  rw [hcomputes.after_eq]
  cases hassigned : node.assigned? body with
  | none => exact h
  | some name =>
    refine ⟨h.values, ?_⟩
    intro other hnot
    simp only [State.assign?, State.assign, Scope.insert?, Scope.range,
      Std.ExtTreeMap.getElem?_insert, Std.LawfulEqCmp.compare_eq_iff_eq]
    by_cases heq : name = other
    · subst heq
      rw [if_pos rfl, if_pos rfl]
      refine hmem ?_
      -- if the node were reached, the symbol would be too
      intro hflows
      exact hnot (.assigned hnode hassigned hflows)
    · rw [if_neg (Ne.symm heq), if_neg heq]
      exact h.symbols other hnot

end Execution

end LoopBounds
