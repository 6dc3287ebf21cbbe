/-
Successful runs are carried out by the interpreter.

`completes_of_run` takes the interpreter to the relation; here is the way back.

* `Completes.runNodes` — what the relation derives the interpreter does, with as
  many levels as the depth limit asks for;
* `reply_of_completes` — so a derivation for the root graph is the answer of a
  new engine.

The relation knows nothing of the log. Its nodes are recorded one by one and each
of them only once, so the log tells exactly the nodes that have an interval now
and had none in advance, each of them once (`Traced`).
-/
import LoopBounds.Proofs.Analysis.Coverage

namespace LoopBounds

/-- The node that an event tells to be evaluated. -/
def Event.evaluated? : Event → Option Node
  | .evaluated node _ => some node
  | _ => none

/-- The nodes that a log tells to be evaluated, in order. -/
def evaluations (log : Array Event) : List Node :=
  log.toList.filterMap Event.evaluated?

theorem evaluations_push (log : Array Event) (event : Event) :
    evaluations (log.push event) = evaluations log ++ event.evaluated?.toList := by
  simp only [evaluations, Array.toList_push, List.filterMap_append]
  cases h : event.evaluated? <;> simp [h]

/-- To call an operation notes no evaluation. -/
theorem evaluations_notes (log : Array Event) (name : String) :
    evaluations (log ++ Handler.valueRange.notes name) = evaluations log := by
  simp only [evaluations, Handler.valueRange, Array.toList_appendList, List.filterMap_append]
  split <;> simp [Event.evaluated?]

/-- The nodes that have an interval, but for those known in advance. -/
def Body.evaluated (body : Body) (bounds : Bounds) : List Node :=
  body.nodes.filter fun node => node.id ∈ bounds ∧ node.id ∉ body.initialBounds

variable {body : Body} {config : Config}

theorem Body.mem_evaluated {bounds : Bounds} {node : Node} : node ∈ body.evaluated bounds ↔
    node ∈ body.nodes ∧ node.id ∈ bounds ∧ node.id ∉ body.initialBounds := by
  simp [evaluated, List.mem_filter]

theorem Body.evaluated_initialBounds (body : Body) : body.evaluated body.initialBounds = [] := by
  refine List.filter_eq_nil_iff.2 ?_
  simp

theorem Body.DistinctIds.nodup_evaluated (hids : body.DistinctIds) (bounds : Bounds) :
    (body.evaluated bounds).Nodup :=
  hids.of_map.filter _

/-- To record a node adds it to those evaluated. -/
theorem Body.DistinctIds.evaluated_insert (hids : body.DistinctIds) {bounds : Bounds} {node : Node}
    (hnode : node ∈ body.nodes) (hmem : node.id ∉ bounds) (hstart : node.id ∉ body.initialBounds)
    (range : Interval) :
    (body.evaluated (bounds.insert node.id range)).Perm (node :: body.evaluated bounds) := by
  have hnew : node ∉ body.evaluated bounds := fun h => hmem (mem_evaluated.1 h).2.1
  refine (List.perm_ext_iff_of_nodup (hids.nodup_evaluated _)
    (List.nodup_cons.2 ⟨hnew, hids.nodup_evaluated _⟩)).2 ?_
  intro m
  rw [List.mem_cons, mem_evaluated, mem_evaluated, Bounds.mem_insert]
  constructor
  · rintro ⟨hm, hid | hin, hseeded⟩
    · exact Or.inl (hids.eq_of_id_eq hm hnode hid.symm)
    · exact Or.inr ⟨hm, hin, hseeded⟩
  · rintro (rfl | ⟨hm, hin, hseeded⟩)
    · exact ⟨hnode, Or.inl rfl, hstart⟩
    · exact ⟨hm, Or.inr hin, hseeded⟩

namespace Analysis

variable {skippable : Node → Prop} {nodes : List Node} {ctx ctx' after : Context}
  {bounds bounds' : Bounds} {args : List Value} {range : Interval}

/-! ### Single targets -/

theorem eval_of_yields {target : Target} {store : Store Context}
    (h : Yields body config store.state target args range after)
    (runGraph : Graph → Store Context → Outcome Context Unit) :
    ∃ final, (interpreter body config).eval runGraph target args store = some (.ok range, final) ∧
      final.state = after ∧ final.bounds = store.bounds ∧
      evaluations final.log = evaluations store.log := by
  cases h with
  | @operation name _ _ hcall =>
    refine ⟨store.noteAll (Handler.valueRange.notes name), ?_, rfl, rfl, evaluations_notes _ _⟩
    show some (Handler.valueRange.call name args, _) = _
    rw [hcall]
    rfl
  | load => exact ⟨_, rfl, rfl, rfl, evaluations_notes _ "load"⟩
  | reduction => exact ⟨_, rfl, rfl, rfl, evaluations_notes _ "reduction"⟩
  | output => exact ⟨store, rfl, rfl, rfl, rfl⟩
  | @getIndex name rest expr _ _ hexpr hresolve =>
    refine ⟨{ store.note (.resolved name expr range) with state := after }, ?_, rfl, rfl, ?_⟩
    · show (getIndex body config.recheck store.state (.name name :: rest)).perform runGraph store =
        _
      simp only [getIndex, hexpr, hresolve, Procedure.perform]
    · simp [Store.note, evaluations_push, Event.evaluated?]
  | @setIndirect index var _ rest hvar =>
    refine ⟨{ store.note (.bound var range) with state := store.state.bind var range },
      ?_, rfl, rfl, ?_⟩
    · simp only [Interpreter.eval, interpreter, submodule?, hvar, Option.map_some, setIndirect,
        Procedure.perform]
    · simp [Store.note, evaluations_push, Event.evaluated?]

theorem eval_of_maskedSubblock (runGraph : Graph → Store Context → Outcome Context Unit)
    (args : List Value) {index : Nat} {graph : Graph} {output : Node} {store inner : Store Context}
    (hgraph : body.subblocks[index]? = some graph) (hdepth : store.state.depth < config.maxDepth)
    (hrun : runGraph graph { store.note (.entered index (store.state.depth + 1)) with
      state := store.state.enter } = some (.ok (), inner))
    (houtputs : graph.outputs = [output]) (houtput : inner.bounds[output.id]? = some range) :
    (interpreter body config).eval runGraph (.maskedSubblock index) args store =
      some (.ok range, { inner.note (.left index range) with
        state := inner.state.leave.countSubblock }) := by
  simp only [Interpreter.eval, interpreter, submodule?, hgraph, Option.map_some, maskedSubblock,
    if_pos hdepth, Procedure.perform, hrun, houtputs, houtput]

/-! ### Runs -/

/-- The log tells the nodes that were evaluated, each of them once. -/
structure Traced (body : Body) (store : Store Context) : Prop where
  start : body.initialBounds.Within store.bounds
  perm : (evaluations store.log).Perm (body.evaluated store.bounds)

theorem Traced.of_eq {store other : Store Context} (h : Traced body store)
    (hbounds : other.bounds = store.bounds) (hlog : evaluations other.log = evaluations store.log) :
    Traced body other := by
  refine ⟨?_, ?_⟩
  · rw [hbounds]
    exact h.start
  · rw [hbounds, hlog]
    exact h.perm

theorem Traced.note {store : Store Context} (h : Traced body store) (event : Event)
    (hevent : event.evaluated? = none) : Traced body (store.note event) := by
  refine h.of_eq rfl ?_
  simp [Store.note, evaluations_push, hevent]

theorem Traced.record (hids : body.DistinctIds) {store : Store Context} {node : Node}
    (h : Traced body store) (hnode : node ∈ body.nodes) (hmem : node.id ∉ store.bounds)
    (range : Interval) : Traced body (store.record node range) := by
  refine ⟨h.start.trans (Bounds.within_insert hmem range), ?_⟩
  have hlog : evaluations (store.record node range).log = evaluations store.log ++ [node] := by
    simp [Store.record, Store.note, evaluations_push, Event.evaluated?]
  have hinsert := hids.evaluated_insert hnode hmem (fun h' => hmem (h.start.mem h')) range
  rw [hlog]
  exact (List.perm_append_singleton _ _).trans ((h.perm.cons _).trans hinsert.symm)

theorem Completes.depth_eq (h : Completes body config skippable nodes ctx bounds ctx' bounds') :
    ctx'.depth = ctx.depth := by
  induction h with
  | done => rfl
  | skipped _ _ _ ih => exact ih
  | evaluated _ _ hyields _ ih => exact ih.trans hyields.depth_eq
  | entered _ _ _ _ _ _ _ _ _ _ ihsub ihrest =>
    rw [ihrest]
    show _ - 1 = _
    rw [ihsub]
    exact Nat.add_sub_cancel ..

/-- The interpreter does what the relation says. -/
theorem Completes.runNodes (hids : body.DistinctIds)
    (h : Completes body config skippable nodes ctx bounds ctx' bounds')
    (hnodes : ∀ node ∈ nodes, node ∈ body.nodes) {levels : Nat}
    (hlevels : config.maxDepth ≤ ctx.depth + levels) {store : Store Context}
    (htraced : Traced body store) (hstate : store.state = ctx) (hbounds : store.bounds = bounds) :
    ∃ final, (interpreter body config).runNodes ((interpreter body config).run levels) nodes store =
        some (.ok (), final) ∧
      final.state = ctx' ∧ final.bounds = bounds' ∧ Traced body final := by
  induction h generalizing levels store with
  | done => exact ⟨store, rfl, hstate, hbounds, htraced⟩
  | skipped hmem _ _ ih =>
    subst hstate hbounds
    rw [Interpreter.runNodes, if_pos hmem]
    exact ih (List.forall_mem_cons.1 hnodes).2 hlevels (htraced.note (.skipped _) rfl) rfl rfl
  | @evaluated node rest args range ctx bounds after _ _ hmem hargs hyields _ ih =>
    obtain ⟨hnode, hrest⟩ := List.forall_mem_cons.1 hnodes
    subst hstate hbounds
    obtain ⟨mid, heval, rfl, hmid, hlog⟩ :=
      eval_of_yields hyields ((interpreter body config).run levels)
    have hrecorded : Traced body (mid.record node range) :=
      (htraced.of_eq hmid hlog).record hids hnode (hmid ▸ hmem) range
    rw [Interpreter.runNodes, if_neg hmem, hargs]
    simp only [heval]
    refine ih hrest (hyields.depth_eq ▸ hlevels) hrecorded rfl ?_
    rw [← hmid]
    rfl
  | @entered node rest args index graph output range ctx bounds inner mid _ _ hmem hargs htarget
      hgraph hdepth hrun hnew houtputs houtput _ ihsub ihrest =>
    obtain ⟨hnode, hrest⟩ := List.forall_mem_cons.1 hnodes
    subst hstate hbounds
    -- the depth is below the limit, so there is a level left for the subblock
    obtain ⟨levels, rfl⟩ : ∃ l, levels = l + 1 := ⟨levels - 1, by omega⟩
    have hentered : Traced body { store.note (.entered index (store.state.depth + 1)) with
        state := store.state.enter } :=
      (htraced.note (.entered index _) rfl).of_eq rfl rfl
    have hdeeper : config.maxDepth ≤ store.state.enter.depth + levels := by
      show _ ≤ store.state.depth + 1 + levels
      omega
    obtain ⟨left, hleft, rfl, rfl, hsub⟩ :=
      ihsub (subblock_mem_nodes hgraph) hdeeper hentered rfl rfl
    have heval := eval_of_maskedSubblock ((interpreter body config).run (levels + 1)) args hgraph
      hdepth hleft houtputs houtput
    rw [Interpreter.runNodes, if_neg hmem, hargs, htarget]
    simp only [heval]
    have hleaving : Traced body { left.note (.left index range) with
        state := left.state.leave.countSubblock } :=
      (hsub.note (.left index range) rfl).of_eq rfl rfl
    refine ihrest hrest ?_ (hleaving.record hids hnode hnew range) rfl rfl
    show _ ≤ left.state.depth - 1 + (levels + 1)
    rw [hrun.depth_eq]
    show _ ≤ store.state.depth + 1 - 1 + (levels + 1)
    omega

theorem traced_initialStore (body : Body) : Traced body body.initialStore where
  start := .refl _
  perm := by
    show (evaluations #[.seeded _ _]).Perm (body.evaluated body.initialBounds)
    rw [Body.evaluated_initialBounds]
    rfl

/-- A derivation for the root graph is what a new engine replies. -/
theorem reply_of_completes (hids : body.DistinctIds)
    (h : Completes body config skippable body.root.nodes { scope := body.initialScope }
      body.initialBounds ctx bounds) :
    ∃ log : Array Event, (evaluations log).Perm (body.evaluated bounds) ∧
      (Engine.new body config).bounds =
        { answer := .ok bounds
          engine := { body, config, context := ctx, answer? := some (.ok bounds) }
          events := log } := by
  obtain ⟨final, hrun, rfl, rfl, htraced⟩ := h.runNodes hids
    (fun node hnode => (Body.has_root node hnode).mem_nodes) (Nat.le_add_left _ _)
    (traced_initialStore body) rfl rfl
  have hanalyze : body.analyze config = (.ok final.bounds, final) := by
    simp only [Body.analyze, Body.run, Interpreter.run, hrun, Option.get_some]
    rfl
  refine ⟨final.log, htraced.perm, ?_⟩
  simp only [Engine.bounds, Engine.new, hanalyze]

end Analysis

end LoopBounds
