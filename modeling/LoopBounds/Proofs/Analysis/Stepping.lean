/-
Runs followed node by node.

What an analysis answers is found here without carrying it out, from what its
nodes do one after the other. `Reaches` says that nodes are run without an error,
to a context and intervals with some property, and its rules take the nodes off
one by one while the property stays as it is.

* `Reaches.done`, `Reaches.skip`, `Reaches.step`, `Reaches.enter` — the rules; a
  masked node has its subblock run first, and the nodes behind it are part of the
  property that is asked of the subblock;
* `answer_of_reaches` — what the root graph reaches is answered by a new engine;
* `answer_of_refuses` — if it reaches a node that is refused, that error is.

The intervals are kept as a list of entries (`Entries`), where a look-up is a short
computation even if the intervals are not known as numbers.
-/
import LoopBounds.Proofs.Analysis.Adequacy

namespace LoopBounds

/-- Intervals of nodes one by one, the newest first. -/
abbrev Entries := List (NodeId × Interval)

namespace Entries

/-- The intervals that are entered. -/
def bounds (known : Entries) : Bounds :=
  known.foldr (fun entry bounds => bounds.insert entry.1 entry.2) ∅

theorem getElem?_bounds (known : Entries) (id : NodeId) : known.bounds[id]? = known.lookup id := by
  induction known with
  | nil => rfl
  | cons entry rest ih =>
    show ((bounds rest).insert entry.1 entry.2)[id]? = _
    rw [Bounds.getElem?_insert, ih, List.lookup_cons, beq_eq_decide]
    by_cases hid : id = entry.1
    · rw [if_pos hid.symm, decide_eq_true hid]
    · rw [if_neg (Ne.symm hid), decide_eq_false hid]

theorem mem_bounds {known : Entries} {id : NodeId} {range : Interval}
    (h : known.lookup id = some range) : id ∈ known.bounds :=
  Bounds.mem_iff.2 ⟨range, by rw [getElem?_bounds, h]⟩

theorem not_mem_bounds {known : Entries} {id : NodeId} (h : known.lookup id = none) :
    id ∉ known.bounds := by
  simp [Bounds.mem_iff, getElem?_bounds, h]

/-- The value of an operand by the entries. -/
def value (known : Entries) : Operand → Except Error Value
  | .node id =>
    match known.lookup id with
    | some interval => .ok (.range interval)
    | none => .error (.undefinedNode id)
  | .name text => .ok (.name text)
  | .int value => .ok (.int value)

theorem values_bounds (known : Entries) (args : List Operand) :
    known.bounds.values args = args.mapM known.value := by
  have hvalue : known.bounds.value = known.value := by
    funext operand
    cases operand with
    | node id =>
      have hid := known.getElem?_bounds id
      cases hknown : known.lookup id <;> simp [Bounds.value, value, hid, hknown]
    | name text => rfl
    | int value => rfl
  rw [Bounds.values, hvalue]

end Entries

namespace Body

variable {body other : Body}

theorem preseeded_eq_of_nodes_eq (h : body.nodes = other.nodes) :
    body.preseeded = other.preseeded := by
  simp only [preseeded, unbounded, users, h]
  rfl

/-- An analysis starts with an entry for every seeded node. -/
theorem initialBounds_eq (body : Body) : body.initialBounds =
    Entries.bounds ((body.preseeded.map Node.id).reverse.map (·, .unknown)) := by
  rw [Entries.bounds, List.foldr_map, List.foldr_reverse, List.foldl_map]
  rfl

end Body

namespace Analysis

variable {body : Body} {config : Config} {node : Node} {rest : List Node} {ctx after : Context}
  {known : Entries} {args : List Value} {range : Interval} {goal : Context → Entries → Prop}

/-! ### Single targets -/

/-- An index with the range it had before, or with none before, is resolved under every recheck. -/
theorem resolve_of_same (recheck : Recheck) {name : String} {expr : Expr}
    (hrange : expr.range ctx.scope = range)
    (h : ctx.scope[name]? = none ∨ ctx.scope[name]? = some range) :
    ctx.resolve recheck name expr = (.ok range, ctx.countResolution.assign name range) := by
  have haccepts : recheck.accepts range range = true := by
    cases recheck <;> simp [Recheck.accepts, Interval.le_refl]
  simp only [Context.resolve, hrange]
  rcases h with hnone | hsome
  · rw [hnone]
  · rw [hsome]
    simp only [haccepts, if_true, Interval.inter?_of_le (Interval.le_refl range)]

theorem Yields.index {name : String} {expr : Expr} (hexpr : body.indexExprs[name]? = some expr)
    (hrange : expr.range ctx.scope = range)
    (h : ctx.scope[name]? = none ∨ ctx.scope[name]? = some range) :
    Yields body config ctx .getIndex [.name name] range (ctx.countResolution.assign name range) :=
  .getIndex hexpr (resolve_of_same _ hrange h)

/-- What is refused is an error of the interpreter too. -/
theorem eval_of_refuses {target : Target} {store : Store Context} {e : Error}
    (h : Refuses body config store.state target args e after)
    (runGraph : Graph → Store Context → Outcome Context Unit) :
    ∃ final, (interpreter body config).eval runGraph target args store =
      some (.error e, final) := by
  cases h with
  | @operation name _ _ hcall =>
    refine ⟨store.noteAll (Handler.valueRange.notes name), ?_⟩
    show some (Handler.valueRange.call name args, _) = _
    rw [hcall]
    rfl
  | unnamed hargs =>
    show ∃ final, (getIndex body config.recheck store.state args).perform runGraph store = _
    unfold getIndex
    split
    · exact absurd rfl (hargs _ _)
    · exact ⟨_, rfl⟩
  | @unknownIndex name rest hexpr =>
    show ∃ final, (getIndex body config.recheck store.state (.name name :: rest)).perform runGraph
      store = _
    simp only [getIndex, hexpr]
    exact ⟨_, rfl⟩
  | @unresolved name rest expr previous hexpr hprevious hrefused =>
    show ∃ final, (getIndex body config.recheck store.state (.name name :: rest)).perform runGraph
      store = _
    simp only [getIndex, hexpr, Context.resolve, hprevious, hrefused]
    exact ⟨_, rfl⟩
  | @unbound index var _ hvar hargs =>
    simp only [Interpreter.eval, interpreter, submodule?, hvar, Option.map_some]
    unfold setIndirect
    split
    · exact absurd rfl (hargs _ _)
    · exact ⟨_, rfl⟩
  | undeclared hvar =>
    simp only [Interpreter.eval, interpreter, submodule?, hvar, Option.map_none]
    exact ⟨_, rfl⟩
  | unopened hgraph =>
    simp only [Interpreter.eval, interpreter, submodule?, hgraph, Option.map_none]
    exact ⟨_, rfl⟩
  | tooDeep hgraph hdepth =>
    simp only [Interpreter.eval, interpreter, submodule?, hgraph, Option.map_some, maskedSubblock,
      if_neg (Nat.not_lt.2 hdepth)]
    exact ⟨_, rfl⟩

/-! ### The rules -/

/-- The nodes are run without an error, to a context and entries with the property. -/
def Reaches (body : Body) (config : Config) (nodes : List Node) (ctx : Context) (known : Entries)
    (goal : Context → Entries → Prop) : Prop :=
  ∃ ctx' known', Completes body config (fun _ => True) nodes ctx known.bounds ctx'
    (Entries.bounds known') ∧ goal ctx' known'

namespace Reaches

theorem done (h : goal ctx known) : Reaches body config [] ctx known goal :=
  ⟨ctx, known, .done, h⟩

theorem skip (hmem : known.lookup node.id = some range)
    (h : Reaches body config rest ctx known goal) :
    Reaches body config (node :: rest) ctx known goal := by
  obtain ⟨ctx', known', hrest, hgoal⟩ := h
  exact ⟨ctx', known', .skipped (Entries.mem_bounds hmem) trivial hrest, hgoal⟩

theorem step (hnew : known.lookup node.id = none) (hargs : node.args.mapM known.value = .ok args)
    (hyields : Yields body config ctx node.target args range after)
    (h : Reaches body config rest after ((node.id, range) :: known) goal) :
    Reaches body config (node :: rest) ctx known goal := by
  obtain ⟨ctx', known', hrest, hgoal⟩ := h
  rw [← known.values_bounds] at hargs
  exact ⟨ctx', known', .evaluated (Entries.not_mem_bounds hnew) hargs hyields hrest, hgoal⟩

theorem append {front : List Node}
    (h : Reaches body config front ctx known fun mid known' =>
      Reaches body config rest mid known' goal) :
    Reaches body config (front ++ rest) ctx known goal := by
  obtain ⟨mid, between, hfront, ctx', known', hrest, hgoal⟩ := h
  exact ⟨ctx', known', hfront.append hrest, hgoal⟩

/-- The subblock is run on the same entries, and the nodes behind the masked one after it. -/
theorem enter (range : Interval) {index : Nat} {graph : Graph} {output : Node}
    (hnew : known.lookup node.id = none) (hargs : node.args.mapM known.value = .ok args)
    (htarget : node.target = .maskedSubblock index)
    (hgraph : body.subblocks[index]? = some graph) (hdepth : ctx.depth < config.maxDepth)
    (houtputs : graph.outputs = [output])
    (h : Reaches body config graph.nodes ctx.enter known fun inner mid =>
      mid.lookup node.id = none ∧ mid.lookup output.id = some range ∧
        Reaches body config rest inner.leave.countSubblock ((node.id, range) :: mid) goal) :
    Reaches body config (node :: rest) ctx known goal := by
  obtain ⟨inner, mid, hsub, hmid, houtput, ctx', known', hrest, hgoal⟩ := h
  rw [← known.values_bounds] at hargs
  rw [← mid.getElem?_bounds] at houtput
  exact ⟨ctx', known', .entered (Entries.not_mem_bounds hnew) hargs htarget hgraph hdepth hsub
    (Entries.not_mem_bounds hmid) houtputs houtput hrest, hgoal⟩

end Reaches

/-! ### Answers -/

theorem runNodes_append {interp : Interpreter Context} {front : List Node}
    {runGraph : Graph → Store Context → Outcome Context Unit} {store mid : Store Context}
    (h : interp.runNodes runGraph front store = some (.ok (), mid)) :
    interp.runNodes runGraph (front ++ rest) store = interp.runNodes runGraph rest mid := by
  induction front generalizing store with
  | nil =>
    cases h
    rfl
  | cons node front ih =>
    rw [List.cons_append, Interpreter.runNodes]
    rw [Interpreter.runNodes] at h
    split at h
    · rename_i hmem
      rw [if_pos hmem]
      exact ih h
    · rename_i hmem
      rw [if_neg hmem]
      split at h
      · cases h
      · split at h
        · cases h
        · cases h
        · exact ih h

/-- What the root graph reaches is answered by a new engine. -/
theorem answer_of_reaches (hids : body.DistinctIds) (hstart : body.initialBounds = known.bounds)
    (h : Reaches body config body.root.nodes { scope := body.initialScope } known goal) :
    ∃ ctx after, (Engine.new body config).bounds.answer = .ok (Entries.bounds after) ∧
      goal ctx after := by
  obtain ⟨ctx, after, hrun, hgoal⟩ := h
  rw [← hstart] at hrun
  obtain ⟨log, -, hreply⟩ := reply_of_completes hids hrun
  exact ⟨ctx, after, by rw [hreply], hgoal⟩

/-- If the root graph reaches a node that is refused, its error is answered by a new engine. -/
theorem answer_of_refuses (hids : body.DistinctIds) (hstart : body.initialBounds = known.bounds)
    {front : List Node} {e : Error} (hroot : body.root.nodes = front ++ node :: rest)
    (h : Reaches body config front { scope := body.initialScope } known fun ctx mid =>
      mid.lookup node.id = none ∧ ∃ args after, node.args.mapM mid.value = .ok args ∧
        Refuses body config ctx node.target args e after) :
    (Engine.new body config).bounds.answer = .error e := by
  obtain ⟨ctx, mid, hfront, hnew, args, after, hargs, hrefuses⟩ := h
  have hnodes : ∀ m ∈ front, m ∈ body.nodes := by
    intro m hm
    refine (Body.has_root m ?_).mem_nodes
    rw [hroot]
    exact List.mem_append_left _ hm
  have hlevels : config.maxDepth ≤ 0 + config.maxDepth := Nat.le_add_left _ _
  obtain ⟨store, hmid, rfl, hbounds, -⟩ :=
    hfront.runNodes hids hnodes hlevels (traced_initialStore body) rfl hstart
  obtain ⟨final, heval⟩ := eval_of_refuses hrefuses ((interpreter body config).run config.maxDepth)
  have herror : (interpreter body config).run (config.maxDepth + 1) body.root body.initialStore =
      some (.error e, final) := by
    rw [Interpreter.run, hroot, runNodes_append hmid, Interpreter.runNodes, hbounds,
      if_neg (Entries.not_mem_bounds hnew), mid.values_bounds, hargs]
    simp only [heval]
  obtain ⟨result, _, hrun, -, hreply⟩ := exists_run body config
  rw [herror, Option.some_inj, Prod.mk.injEq] at hrun
  rw [hreply, ← hrun.1]
  rfl

end Analysis

end LoopBounds
