/-
Two runs of an analysis, side by side.

* `Completes.relax`: a run that succeeds also succeeds, step by step in the same
  way, if repeated indices may be narrower and subblocks may lie deeper;
* `Completes.narrower`: two runs of the same nodes, one from a scope and
  intervals that lie within those of the other, stay in lockstep. The same nodes
  are skipped and the same subblocks entered, as this depends only on which nodes
  have an interval, and every interval of the one lies within that of the other.

For engines these say that a more liberal configuration gives the same answer
(`answer_of_relaxed`), and that answers are monotone in the extents of the loop
variables (`answers_narrower`).
-/
import LoopBounds.Proofs.Analysis.Adequacy
import LoopBounds.Proofs.Monotone.Operation

namespace LoopBounds

/-! ### Maps with the same keys -/

section Narrower

variable {κ : Type} [Ord κ] [Std.TransOrd κ]
  {narrow wide : Std.ExtTreeMap κ Interval} {a b : Interval}

/-- The maps have the same keys, and each interval of the first lies within that of the second. -/
structure Narrower (narrow wide : Std.ExtTreeMap κ Interval) : Prop where
  mem_iff : ∀ key, key ∈ narrow ↔ key ∈ wide
  le : ∀ (key : κ) (a b : Interval), narrow[key]? = some a → wide[key]? = some b → a ≤ b

theorem Narrower.refl (map : Std.ExtTreeMap κ Interval) : Narrower map map where
  mem_iff _ := Iff.rfl
  le key a b ha hb := by
    rw [ha, Option.some_inj] at hb
    rw [hb]
    exact Interval.le_refl b

theorem Narrower.insert (h : Narrower narrow wide) (key : κ) (hle : a ≤ b) :
    Narrower (narrow.insert key a) (wide.insert key b) where
  mem_iff other := by
    rw [Std.ExtTreeMap.mem_insert, Std.ExtTreeMap.mem_insert, h.mem_iff]
  le other r s hr hs := by
    rw [Std.ExtTreeMap.getElem?_insert] at hr hs
    split at hr
    · rename_i hkey
      rw [if_pos hkey] at hs
      cases hr
      cases hs
      exact hle
    · rename_i hkey
      rw [if_neg hkey] at hs
      exact h.le other r s hr hs

end Narrower

theorem Narrower.insert? {narrow wide : Scope} {a b : Interval} (h : Narrower narrow wide)
    (name? : Option Symbol) (hle : a ≤ b) :
    Narrower (narrow.insert? name? a) (wide.insert? name? b) := by
  cases name? with
  | none => exact h
  | some name => exact h.insert name hle

theorem Narrower.narrows {narrow wide : Scope} (h : Narrower narrow wide) :
    narrow.Narrows wide := by
  intro name
  rw [Scope.range, Scope.range]
  cases hwide : wide[name]? with
  | none => exact Interval.le_unknown _
  | some b =>
    have hmem : name ∈ narrow := by
      rw [h.mem_iff, Std.ExtTreeMap.mem_iff_isSome_getElem?, hwide]
      rfl
    rw [Std.ExtTreeMap.mem_iff_isSome_getElem?, Option.isSome_iff_exists] at hmem
    obtain ⟨a, ha⟩ := hmem
    rw [ha]
    exact h.le name a b ha hwide

/-- Scopes with the same keys are compared entry by entry. -/
theorem narrower_of_narrows {narrow wide : Scope} (hkeys : ∀ name, name ∈ narrow ↔ name ∈ wide)
    (h : narrow.Narrows wide) : Narrower narrow wide := by
  refine ⟨hkeys, ?_⟩
  intro name a b ha hb
  have hle := h name
  rw [Scope.range, Scope.range, ha, hb] at hle
  exact hle

/-- Operands have values alike in maps of which one is narrower. -/
theorem Narrower.values {narrow wide : Bounds} {operands : List Operand} {args args' : List Value}
    (h : Narrower narrow wide) (hargs : narrow.values operands = .ok args)
    (hargs' : wide.values operands = .ok args') : List.Forall₂ Value.Narrows args args' := by
  rw [Bounds.values_eq_ok_iff] at hargs hargs'
  induction hargs generalizing args' with
  | nil =>
    cases hargs'
    exact .nil
  | @cons operand value _ _ hvalue _ ih =>
    cases hargs' with
    | cons hvalue' hrest =>
      refine .cons ?_ (ih hrest)
      cases operand with
      | node id =>
        obtain ⟨a, ha, rfl⟩ := Bounds.value_node hvalue
        obtain ⟨b, hb, rfl⟩ := Bounds.value_node hvalue'
        exact .range (h.le id a b ha hb)
      | name text =>
        cases hvalue
        cases hvalue'
        exact .name
      | int n =>
        cases hvalue
        cases hvalue'
        exact .int

namespace Analysis

variable {body : Body} {config other : Config} {skippable skippable' : Node → Prop}
  {nodes : List Node} {ctx ctx' after after' : Context} {bounds bounds' : Bounds}
  {args args' : List Value} {range range' : Interval} {target : Target}

/-! ### More liberal configurations -/

/-- An index that passes some check passes the one for narrower ranges, with the same effect. -/
theorem resolve_subset {recheck : Recheck} {name : String} {expr : Expr}
    (h : ctx.resolve recheck name expr = (.ok range, after)) :
    ctx.resolve .subset name expr = (.ok range, after) := by
  simp only [Context.resolve] at h ⊢
  split at h
  · exact h
  · rename_i previous hprevious
    split at h
    · rename_i haccepts
      have hsubset : Recheck.subset.accepts (expr.range ctx.scope) previous = true := by
        simpa [Recheck.accepts] using le_of_accepts haccepts
      rw [if_pos hsubset]
      exact h
    · cases h

theorem Yields.relax (h : Yields body config ctx target args range after)
    (hrecheck : other.recheck = .subset) : Yields body other ctx target args range after := by
  cases h with
  | operation hcall => exact .operation hcall
  | load => exact .load
  | reduction => exact .reduction
  | output => exact .output
  | getIndex hexpr hresolve => exact .getIndex hexpr (hrecheck ▸ resolve_subset hresolve)
  | setIndirect hvar => exact .setIndirect hvar

theorem Completes.relax (h : Completes body config skippable nodes ctx bounds ctx' bounds')
    (hrecheck : other.recheck = .subset) (hdepth : config.maxDepth ≤ other.maxDepth) :
    Completes body other skippable nodes ctx bounds ctx' bounds' := by
  induction h with
  | done => exact .done
  | skipped hmem hskip _ ih => exact .skipped hmem hskip ih
  | evaluated hmem hargs hyields _ ih => exact .evaluated hmem hargs (hyields.relax hrecheck) ih
  | entered hmem hargs htarget hgraph hlt _ hmid houtputs houtput _ ihsub ihrest =>
    exact .entered hmem hargs htarget hgraph (Nat.lt_of_lt_of_le hlt hdepth) ihsub hmid houtputs
      houtput ihrest

/-! ### Lockstep -/

theorem Yields.le (h : Yields body config ctx target args range after)
    (h' : Yields body other ctx' target args' range' after')
    (hargs : List.Forall₂ Value.Narrows args args') (hscope : ctx.scope.Narrows ctx'.scope) :
    range ≤ range' := by
  cases h with
  | operation hcall =>
    cases h' with
    | operation hcall' => exact Handler.valueRange_call_le hargs hcall hcall'
  | load =>
    cases h'
    exact Interval.le_refl _
  | reduction =>
    cases h'
    exact Interval.le_refl _
  | output =>
    cases h'
    cases hargs with
    | nil => exact Interval.le_refl _
    | cons hhead _ =>
      cases hhead with
      | range hle => exact hle
      | _ => exact Interval.le_refl _
  | getIndex hexpr hresolve =>
    cases h' with
    | getIndex hexpr' hresolve' =>
      cases hargs with
      | cons hhead _ =>
        cases hhead
        rw [hexpr, Option.some_inj] at hexpr'
        rw [(scope_of_resolve hresolve).1, (scope_of_resolve hresolve').1, ← hexpr']
        exact Expr.range_le_range hscope _
  | setIndirect =>
    cases h' with
    | setIndirect =>
      cases hargs with
      | cons hhead _ =>
        cases hhead with
        | range hle => exact hle

/-- Two runs of the same nodes, of which one starts from narrower intervals, end with narrower
intervals. -/
theorem Completes.narrower {wctx wctx' : Context} {wide wide' : Bounds}
    (h : Completes body config skippable nodes ctx bounds ctx' bounds')
    (h' : Completes body other skippable' nodes wctx wide wctx' wide')
    (hscope : Narrower ctx.scope wctx.scope) (hbounds : Narrower bounds wide) :
    Narrower ctx'.scope wctx'.scope ∧ Narrower bounds' wide' := by
  induction h generalizing wctx wctx' wide wide' with
  | done =>
    cases h'
    exact ⟨hscope, hbounds⟩
  | @skipped node _ _ _ _ _ hmem _ _ ih =>
    rw [hbounds.mem_iff] at hmem
    cases h' with
    | skipped _ _ hrest' => exact ih hrest' hscope hbounds
    | evaluated hmem' => exact absurd hmem hmem'
    | entered hmem' => exact absurd hmem hmem'
  | @evaluated node _ _ _ _ _ _ _ _ hmem hargs hyields _ ih =>
    rw [hbounds.mem_iff] at hmem
    cases h' with
    | skipped hmem' => exact absurd hmem' hmem
    | evaluated _ hargs' hyields' hrest' =>
      have hle := hyields.le hyields' (hbounds.values hargs hargs') hscope.narrows
      refine ih hrest' ?_ (hbounds.insert node.id hle)
      rw [hyields.scope_eq hargs, hyields'.scope_eq hargs']
      exact hscope.insert? (node.assigned? body) hle
    | entered _ _ htarget' =>
      rw [htarget'] at hyields
      cases hyields
  | @entered node _ _ _ _ _ _ _ _ _ _ _ _ hmem _ htarget hgraph _ _ _ houtputs houtput _ ihsub
      ihrest =>
    rw [hbounds.mem_iff] at hmem
    cases h' with
    | skipped hmem' => exact absurd hmem' hmem
    | evaluated _ _ hyields' =>
      rw [htarget] at hyields'
      cases hyields'
    | entered _ _ htarget' hgraph' _ hrun' _ houtputs' houtput' hrest' =>
      -- both runs enter the same subblock and read the same output of it
      rw [htarget, Target.maskedSubblock.injEq] at htarget'
      rw [← htarget', hgraph, Option.some_inj] at hgraph'
      subst hgraph'
      rw [houtputs, List.cons.injEq] at houtputs'
      rw [← houtputs'.1] at houtput'
      obtain ⟨hinner, hmid⟩ := ihsub hrun' hscope hbounds
      have hle := hmid.le _ _ _ houtput houtput'
      exact ihrest hrest' hinner (hmid.insert node.id hle)

end Analysis

/-! ### Engines -/

variable {body : Body} {config : Config}

/-- **A more liberal configuration changes nothing.** If a new engine answers under some check of
repeated indices and some depth limit, then one that lets indices become narrower and subblocks lie
at least as deep gives the same answer. It is left with the same context: the same scope and the
same counts. -/
theorem answer_of_relaxed {answer : Bounds} {deeper : Nat} (hbuilt : body.Built)
    (hdepth : config.maxDepth ≤ deeper)
    (hanswer : (Engine.new body config).bounds.answer = .ok answer) :
    (Engine.new body { recheck := .subset, maxDepth := deeper }).bounds.answer = .ok answer ∧
    (Engine.new body { recheck := .subset, maxDepth := deeper }).bounds.engine.context =
      (Engine.new body config).bounds.engine.context := by
  have hids := hbuilt.distinctIds
  have hrelaxed : Analysis.Completes body { recheck := .subset, maxDepth := deeper } (fun _ => True)
      body.root.nodes { scope := body.initialScope } body.initialBounds
      (Engine.new body config).bounds.engine.context answer :=
    (Analysis.completes_root hids hanswer).relax rfl hdepth
  obtain ⟨log, -, hreply⟩ := Analysis.reply_of_completes hids hrelaxed
  rw [hreply]
  exact ⟨rfl, rfl⟩

/-- A body that resolves the same index in the root and in a subblock. -/
def echoing : Body :=
  (Builder.afterAll [
    .varRange "i" 9,
    .indexExpr "row" (.sym "i"),
    .subblock,
    .push (.subblock 0) .getIndex [.name "row"],
    .push (.subblock 0) .output [.node 0],
    .push .root .getIndex [.name "row"],
    .push .root (.maskedSubblock 0) [.node 2, .int 0],
    .push .root .output [.node 3]]).body

theorem answer_of_relaxed_echoing : ∃ answer,
    (Engine.new echoing { recheck := .equal, maxDepth := 1 }).bounds.answer = .ok answer ∧
    (Engine.new echoing { recheck := .subset, maxDepth := 5 }).bounds.answer = .ok answer ∧
    (Engine.new echoing { recheck := .subset, maxDepth := 5 }).bounds.engine.context.stats =
      { resolutions := 2, subblockRuns := 1 } := by
  have hinterval : (Engine.new echoing { recheck := .equal, maxDepth := 1 }).interval? 3 =
      some (.between 0 (.finite 9)) := by decide +kernel
  obtain ⟨answer, hanswer, -⟩ := Engine.exists_of_interval? hinterval
  have hbuilt : echoing.Built := ⟨_, rfl⟩
  have hdepth : ({ recheck := .equal, maxDepth := 1 } : Config).maxDepth ≤ 5 := by decide
  obtain ⟨hrelaxed, hcontext⟩ := answer_of_relaxed hbuilt hdepth hanswer
  refine ⟨answer, hanswer, hrelaxed, ?_⟩
  rw [hcontext]
  decide +kernel

/-- The body with these loop variables and upper bounds in place of its own. -/
def Body.withExtents (body : Body) (extents : List (Symbol × Expr)) : Body :=
  { body with varRanges := extents }

namespace Body

variable {extents : List (Symbol × Expr)}

/-- The range of every variable is wider if its upper bound is. -/
theorem narrower_initialScope (h : List.Forall₂ (fun decl wider =>
      decl.1 = wider.1 ∧ decl.2.loopRange ≤ wider.2.loopRange) body.varRanges extents) :
    Narrower body.initialScope (body.withExtents extents).initialScope := by
  have hfold : ∀ (narrow wide : Scope), Narrower narrow wide →
      Narrower
        (body.varRanges.foldl (fun scope decl => scope.insert decl.1 decl.2.loopRange) narrow)
        (extents.foldl (fun scope decl => scope.insert decl.1 decl.2.loopRange) wide) := by
    generalize body.varRanges = decls at h
    induction h with
    | nil => exact fun _ _ hscope => hscope
    | @cons decl wider _ _ hhead _ ih =>
      intro narrow wide hscope
      obtain ⟨hname, hle⟩ := hhead
      rw [List.foldl_cons, List.foldl_cons, ← hname]
      exact ih _ _ (hscope.insert decl.1 hle)
  exact hfold ∅ ∅ (.refl ∅)

/-- The run behind an answer for other upper bounds is one of the body itself, from another
scope. -/
theorem completes_withExtents (hids : body.DistinctIds) {answer : Bounds}
    (h : (Engine.new (body.withExtents extents) config).bounds.answer = .ok answer) :
    Analysis.Completes body config (fun _ => True) body.root.nodes
      { scope := (body.withExtents extents).initialScope } body.initialBounds
      (Engine.new (body.withExtents extents) config).bounds.engine.context answer := by
  obtain ⟨result, store, hrun, -, hreply⟩ := Analysis.exists_run (body.withExtents extents) config
  rw [hreply] at h ⊢
  cases result with
  | error e => cases h
  | ok u =>
    cases h
    -- the interpreter does not know the upper bounds
    exact Analysis.completes_of_run hids
      (fun node hnode => (Body.has_root node hnode).mem_nodes) hrun

end Body

/-- **Answers are monotone in the extents.** Let two bodies differ in the upper bounds of their loop
variables only, and let the ranges of the variables of the first lie within those of the second. If
new engines answer for both, then the answers have the same nodes, every interval of the first lies
within that of the second, and the same holds of the symbols in the scopes that are left. -/
theorem answers_narrower {extents : List (Symbol × Expr)} {answer wider : Bounds}
    (hbuilt : body.Built) (hnames : body.varRanges.map Prod.fst = extents.map Prod.fst)
    (hscope : body.initialScope.Narrows (body.withExtents extents).initialScope)
    (hanswer : (Engine.new body config).bounds.answer = .ok answer)
    (hwider : (Engine.new (body.withExtents extents) config).bounds.answer = .ok wider) :
    Narrower answer wider ∧
    Narrower (Engine.new body config).bounds.engine.context.scope
      (Engine.new (body.withExtents extents) config).bounds.engine.context.scope := by
  have hids := hbuilt.distinctIds
  have hkeys : ∀ name, name ∈ body.initialScope ↔
      name ∈ (body.withExtents extents).initialScope := by
    intro name
    rw [Body.mem_initialScope, Body.mem_initialScope, hnames]
    rfl
  have hstart := narrower_of_narrows hkeys hscope
  exact ((Analysis.completes_root hids hanswer).narrower (Body.completes_withExtents hids hwider)
    hstart (.refl body.initialBounds)).symm

theorem answers_narrower_layered : ∃ answer wider,
    (Engine.new layered {}).bounds.answer = .ok answer ∧
    (Engine.new (layered.withExtents [("i", .sym "n")]) {}).bounds.answer = .ok wider ∧
    answer[11]? = some (.between 0 (.finite 45)) ∧ wider[11]? = some .nonnegative ∧
    Narrower answer wider := by
  have hinterval : (Engine.new layered {}).interval? 11 = some (.between 0 (.finite 45)) := by
    decide +kernel
  have hinterval' : (Engine.new (layered.withExtents [("i", .sym "n")]) {}).interval? 11 =
      some .nonnegative := by decide +kernel
  obtain ⟨answer, hanswer, hrange⟩ := Engine.exists_of_interval? hinterval
  obtain ⟨wider, hwider, hrange'⟩ := Engine.exists_of_interval? hinterval'
  have hscope : Narrower layered.initialScope
      (layered.withExtents [("i", .sym "n")]).initialScope :=
    Body.narrower_initialScope (.cons ⟨rfl, by decide +kernel⟩ .nil)
  refine ⟨answer, wider, hanswer, hwider, hrange, hrange', ?_⟩
  exact (answers_narrower built_layered (by rfl) hscope.narrows hanswer hwider).1

end LoopBounds
