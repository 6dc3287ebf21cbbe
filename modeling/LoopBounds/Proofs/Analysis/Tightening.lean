/-
Recorded ranges only tighten.

The scope of an analysis is shared by all nesting levels. An index is recorded
there under its own name, which may be that of a loop variable, and may depend on
itself. Still nothing but an indirect variable is ever widened or removed: what is
recorded of a symbol lies within all that was recorded of it before
(`recorded_ranges_tighten`).

The step is `tightens_of_resolve`: the check of an index that is resolved again
lets only a range through that lies within the previous one, in both modes. What
it means for a run is said twice, of the contexts that the run goes through
(`Body.history_tightens`), and of the ranges that its log tells of evaluated
indices (`descending_events`).
-/
import LoopBounds.Proofs.Analysis.Failure
import LoopBounds.Proofs.Interpreter.History

namespace LoopBounds

/-- Of the symbols other than the indirect variables, the later scope has all that the earlier one
has, within the same ranges. -/
def Body.Tightens (body : Body) (earlier later : Scope) : Prop :=
  ∀ name ∉ body.indirectVars, ∀ range, earlier[name]? = some range →
    ∃ tighter, later[name]? = some tighter ∧ tighter ≤ range

variable {body : Body} {config : Config}

namespace Body.Tightens

theorem refl (scope : Scope) : body.Tightens scope scope :=
  fun _ _ range hrange => ⟨range, hrange, Interval.le_refl range⟩

theorem trans {a b c : Scope} (hab : body.Tightens a b) (hbc : body.Tightens b c) :
    body.Tightens a c := by
  intro name hname range hrange
  obtain ⟨mid, hmid, hle⟩ := hab name hname range hrange
  obtain ⟨last, hlast, hle'⟩ := hbc name hname mid hmid
  exact ⟨last, hlast, Interval.le_trans hle' hle⟩

/-- A new entry tightens a scope if it is one of an indirect variable, or lies within the previous
one. -/
theorem insert {scope : Scope} {name : Symbol} {range : Interval}
    (h : name ∉ body.indirectVars → ∀ previous, scope[name]? = some previous → range ≤ previous) :
    body.Tightens scope (scope.insert name range) := by
  intro other hother previous hprevious
  rw [Std.ExtTreeMap.getElem?_insert]
  split
  · rename_i heq
    obtain rfl := Std.LawfulEqCmp.compare_eq_iff_eq.1 heq
    exact ⟨range, rfl, h hother previous hprevious⟩
  · exact ⟨previous, hprevious, Interval.le_refl previous⟩

end Body.Tightens

namespace Analysis

variable {ctx after : Context} {target : Target} {args : List Value} {range : Interval}

theorem le_of_resolve {recheck : Recheck} {name : String} {expr : Expr} {previous : Interval}
    (h : ctx.resolve recheck name expr = (.ok range, after))
    (hprevious : ctx.scope[name]? = some previous) : range ≤ previous := by
  obtain ⟨rfl, -⟩ := scope_of_resolve h
  simp only [Context.resolve, hprevious] at h
  split at h
  · rename_i haccepts
    exact le_of_accepts haccepts
  · cases h

theorem tightens_of_resolve {recheck : Recheck} {name : String} {expr : Expr}
    (h : ctx.resolve recheck name expr = (.ok range, after)) :
    body.Tightens ctx.scope after.scope := by
  rw [(scope_of_resolve h).2]
  exact .insert fun _ _ => le_of_resolve h

theorem tightens_bind {var : Symbol} (hvar : var ∈ body.indirectVars) :
    body.Tightens ctx.scope (ctx.bind var range).scope :=
  .insert fun hname => absurd hvar hname

/-- To evaluate a node tightens the scope. -/
theorem Yields.tightens (h : Yields body config ctx target args range after) :
    body.Tightens ctx.scope after.scope := by
  cases h with
  | getIndex _ hresolve => exact tightens_of_resolve hresolve
  | setIndirect hvar => exact tightens_bind (List.mem_of_getElem? hvar)
  | _ => exact .refl _

/-! ### The contexts of a run -/

theorem follows_getIndex (recheck : Recheck) :
    (getIndex body recheck ctx args).Follows (fun a b => body.Tightens a.scope b.scope) ctx := by
  unfold getIndex
  split
  · split
    · exact .refl _
    · split
      · rename_i hresolve
        exact tightens_of_resolve hresolve
      · rename_i hresolve
        obtain ⟨_, -, -, -, rfl⟩ := exists_of_resolve_error hresolve
        exact .refl _
  · exact .refl _

theorem follows_setIndirect {var : Symbol} (hvar : var ∈ body.indirectVars) :
    (setIndirect var ctx args).Follows (fun a b => body.Tightens a.scope b.scope) ctx := by
  unfold setIndirect
  split
  · exact tightens_bind hvar
  · exact .refl _

theorem follows_maskedSubblock (maxDepth index : Nat) (graph : Graph) :
    (maskedSubblock maxDepth index graph ctx).Follows
      (fun a b => body.Tightens a.scope b.scope) ctx := by
  unfold maskedSubblock
  split
  · refine ⟨.refl _, ?_⟩
    intro result inner bounds
    dsimp only
    split
    · exact .refl _
    · split <;> exact .refl _
    · exact .refl _
  · exact .refl _

theorem follows_tightens (body : Body) (config : Config) :
    (interpreter body config).Follows fun a b => body.Tightens a.scope b.scope := by
  intro target submodule hsub ctx _ args
  cases target with
  | getIndex =>
    cases hsub
    exact follows_getIndex config.recheck
  | setIndirect index =>
    obtain ⟨var, hvar, rfl⟩ := Option.map_eq_some_iff.1 hsub
    exact follows_setIndirect (List.mem_of_getElem? hvar)
  | maskedSubblock index =>
    obtain ⟨graph, -, rfl⟩ := Option.map_eq_some_iff.1 hsub
    exact follows_maskedSubblock config.maxDepth index graph
  | op _ => cases hsub
  | load => cases hsub
  | reduction => cases hsub
  | output => cases hsub

end Analysis

/-- The contexts that the run behind an answer goes through, the latest first. -/
def Body.history (body : Body) (config : Config) : List Context :=
  match (Analysis.interpreter body config).recording.run (config.maxDepth + 1) body.root
    body.initialStore.recording with
  | some (_, store) => store.state.states
  | none => []

/-- The history of an analysis leads from its start to what its engine is left with, and every
context tightens the ones before it. -/
theorem Body.history_tightens (body : Body) (config : Config) :
    (body.history config).getLast? = some { scope := body.initialScope } ∧
    (body.history config).head? = some (Engine.new body config).bounds.engine.context ∧
    (body.history config).Pairwise fun later earlier =>
      body.Tightens earlier.scope later.scope := by
  obtain ⟨result, store, hrun, -, hreply⟩ := Analysis.exists_run body config
  obtain ⟨history, hrecorded, hcurrent, hstart, htightens⟩ :=
    (Analysis.follows_tightens body config).run (fun hab hbc => hab.trans hbc) hrun
  have hhistory : body.history config = history.states := by
    rw [Body.history, hrecorded]
  rw [hhistory, hreply]
  exact ⟨hstart, congrArg some hcurrent, htightens⟩

/-- What is left of an analysis tightens what it started from. -/
theorem Body.tightens_final (body : Body) (config : Config) :
    body.Tightens body.initialScope (Engine.new body config).bounds.engine.context.scope := by
  obtain ⟨hstart, hlast, htightens⟩ := body.history_tightens config
  generalize (Engine.new body config).bounds.engine.context = context at hlast ⊢
  cases hhistory : body.history config with
  | nil =>
    rw [hhistory] at hlast
    cases hlast
  | cons later rest =>
    rw [hhistory] at hstart hlast htightens
    cases hlast
    rcases List.mem_cons.1 (List.mem_of_getLast? hstart) with heq | hmem
    · rw [← heq]
      exact .refl _
    · exact (List.pairwise_cons.1 htightens).1 _ hmem

/-! ### The ranges of an index -/

/-- The range that the event tells of an evaluated index of this name. -/
def Event.indexRange? (name : String) : Event → Option Interval
  | .evaluated node range =>
    if node.target = .getIndex ∧ node.args.head? = some (.name name) then some range else none
  | _ => none

/-- The ranges of the evaluated indices of this name, in order. -/
def indexRanges (log : Array Event) (name : String) : List Interval :=
  log.toList.filterMap (Event.indexRange? name)

namespace Analysis

variable {store after : Store Context} {node : Node} {range : Interval}

theorem Noted.indexRanges_eq (h : Noted store after) (name : String) :
    indexRanges after.log name = indexRanges store.log name := by
  obtain ⟨events, hlog, hevents⟩ := h.log
  have hnone : events.filterMap (Event.indexRange? name) = [] := by
    rw [List.filterMap_eq_nil_iff]
    intro event hevent
    cases event with
    | evaluated node range => exact absurd rfl (hevents _ hevent node range)
    | _ => rfl
  rw [indexRanges, hlog, List.filterMap_append, hnone, List.append_nil]
  rfl

theorem indexRanges_record (name : String) : indexRanges (store.record node range).log name =
    indexRanges store.log name ++ (Event.indexRange? name (.evaluated node range)).toList := by
  simp only [indexRanges, Store.record, Store.note, Array.toList_push, List.filterMap_append,
    List.filterMap_cons, List.filterMap_nil]
  cases Event.indexRange? name (.evaluated node range) <;> rfl

/-- The ranges that the log tells of an index shrink, and the scope has one within all of them. -/
structure Descending (body : Body) (store : Store Context) : Prop where
  ordered : ∀ name ∉ body.indirectVars,
    (indexRanges store.log name).Pairwise fun earlier later => later ≤ earlier
  recorded : ∀ name ∉ body.indirectVars, ∀ range ∈ indexRanges store.log name,
    ∃ tighter, store.state.scope[name]? = some tighter ∧ tighter ≤ range

/-- A scope may be tightened without a new range in the log. -/
theorem Descending.of_tightens (h : Descending body store)
    (hlog : ∀ name, indexRanges after.log name = indexRanges store.log name)
    (htightens : body.Tightens store.state.scope after.state.scope) : Descending body after where
  ordered name hname := by
    rw [hlog]
    exact h.ordered name hname
  recorded name hname range hrange := by
    rw [hlog] at hrange
    obtain ⟨previous, hprevious, hle⟩ := h.recorded name hname range hrange
    obtain ⟨tighter, htighter, hle'⟩ := htightens name hname previous hprevious
    exact ⟨tighter, htighter, Interval.le_trans hle' hle⟩

/-- A node may be recorded, if the scope has the range of it in case it is an index. -/
theorem Descending.record (h : Descending body store)
    (hindex : ∀ name, node.target = .getIndex → node.args.head? = some (.name name) →
      store.state.scope[name]? = some range) : Descending body (store.record node range) := by
  have hnew : ∀ {name r}, r ∈ (Event.indexRange? name (.evaluated node range)).toList →
      store.state.scope[name]? = some r := by
    intro name r hr
    rw [Option.mem_toList, Event.indexRange?, Option.ite_none_right_eq_some] at hr
    obtain ⟨⟨htarget, hargs⟩, heq⟩ := hr
    cases heq
    exact hindex name htarget hargs
  constructor
  · intro name hname
    rw [indexRanges_record, List.pairwise_append]
    refine ⟨h.ordered name hname, ?_, ?_⟩
    · cases Event.indexRange? name (.evaluated node range) <;> simp
    · intro earlier hearlier later hlater
      obtain ⟨tighter, htighter, hle⟩ := h.recorded name hname earlier hearlier
      rw [hnew hlater, Option.some_inj] at htighter
      rw [htighter]
      exact hle
  · intro name hname r hr
    rw [indexRanges_record, List.mem_append] at hr
    rcases hr with hr | hr
    · exact h.recorded name hname r hr
    · exact ⟨r, hnew hr, Interval.le_refl r⟩

/-- Logs descend, whether or not a run fails. -/
def descends (body : Body) : Contract Context Unit :=
  .always fun _ store => Descending body store

/-- To run a subblock leaves a log that descends. -/
theorem Enters.descending {runGraph : Graph → Store Context → Outcome Context Unit} {index : Nat}
    {result : Except Error Interval} (h : Enters body config runGraph store index result after)
    (hstore : Descending body store) (hkept : (descends body).KeptBy runGraph) :
    Descending body after := by
  have hentering : Descending body (entering store index) :=
    hstore.of_tightens (noted_entering store index).indexRanges_eq (.refl _)
  obtain ⟨graph, ran, inner, hrun, hnoted, hscope⟩ := h.exists_run
  have hinner := Contract.ends_always.1 (hkept () graph _ _ _ hentering hrun)
  refine hinner.of_tightens hnoted.indexRanges_eq ?_
  rw [hscope]
  exact .refl _

theorem obeys_descends (body : Body) (config : Config) :
    (interpreter body config).Obeys (descends body) where
  skip {_ _ store id} h _ :=
    h.of_tightens (noted_one store store.state fun _ _ => Event.noConfusion).indexRanges_eq
      (.refl _)
  unread _ h _ := h
  evaluate := by
    intro _ graph node store args runGraph result after _ hholds _ hargs hkept heval
    rcases eval_cases heval with ⟨range, rfl, hyields, hnoted⟩ | ⟨e, rfl, hrefuses, hnoted⟩ |
      ⟨index, htarget, henters⟩
    · refine (hholds.of_tightens hnoted.indexRanges_eq hyields.tightens).record ?_
      intro name htarget hhead
      obtain ⟨rest, hoperands⟩ := List.head?_eq_some_iff.1 hhead
      rw [hyields.scope_eq hargs, Node.assigned?, htarget, hoperands]
      exact Scope.getElem?_insert?_self
    · refine hholds.of_tightens hnoted.indexRanges_eq ?_
      rw [hrefuses.scope_eq]
      exact .refl _
    · have hafter := henters.descending hholds hkept
      cases result with
      | error e => exact hafter
      | ok range =>
        refine hafter.record ?_
        intro name hindex
        rw [htarget] at hindex
        cases hindex

/-- The log of an analysis descends. -/
theorem descending_events (body : Body) (config : Config) {name : Symbol}
    (hname : name ∉ body.indirectVars) :
    (indexRanges (Engine.new body config).bounds.events name).Pairwise
      fun earlier later => later ≤ earlier := by
  obtain ⟨result, store, hrun, -, hreply⟩ := exists_run body config
  have hstart : Descending body body.initialStore :=
    ⟨fun _ _ => List.Pairwise.nil, fun _ _ _ hrange => nomatch hrange⟩
  have hends := (obeys_descends body config).run _ () _ _ _ _ hstart hrun
  rw [hreply]
  exact (Contract.ends_always.1 hends).ordered name hname

/-! ### Single evaluations -/

variable {runGraph : Graph → Store Context → Outcome Context Unit} {args : List Value}

/-- An index that is resolved gets the range of its expression, and that is what is recorded. -/
theorem eval_getIndex_ok
    (h : (interpreter body config).eval runGraph .getIndex args store = some (.ok range, after)) :
    ∃ name rest expr, args = .name name :: rest ∧ body.indexExprs[name]? = some expr ∧
      range = expr.range store.state.scope ∧
      after.state.scope = store.state.scope.insert name range := by
  rcases eval_cases h with ⟨_, ⟨⟩, hyields, -⟩ | ⟨_, ⟨⟩, -⟩ | ⟨_, ⟨⟩, -⟩
  generalize after.state = ctx at hyields ⊢
  cases hyields with
  | @getIndex name rest expr _ _ hexpr hresolve =>
    obtain ⟨hrange, hscope⟩ := scope_of_resolve hresolve
    exact ⟨name, rest, expr, rfl, hexpr, hrange, hscope⟩

/-- A node that is refused and is not a masked one leaves the scope as it was. -/
theorem scope_of_eval_error {target : Target} {e : Error}
    (hmasked : ∀ index, target ≠ .maskedSubblock index)
    (h : (interpreter body config).eval runGraph target args store = some (.error e, after)) :
    after.state.scope = store.state.scope := by
  rcases eval_cases h with ⟨_, ⟨⟩, -⟩ | ⟨_, ⟨⟩, hrefuses, -⟩ | ⟨index, htarget, -⟩
  · exact hrefuses.scope_eq
  · exact absurd htarget (hmasked index)

end Analysis

/-- **Recorded ranges only tighten.** In every run of an analysis, failed or not:

* along the contexts from the first to the last, a symbol other than an indirect variable keeps its
  entry once it has one, and every later entry lies within every earlier one;
* so the last entry of a loop variable lies within its initial range, and the ranges of successive
  indices of one name lie within each other;
* an index that is resolved is given, and recorded with, exactly the range of its expression;
* the ranges of an index are never found disjoint;
* an index or a binding that fails leaves the scope as it was. -/
theorem recorded_ranges_tighten (body : Body) (config : Config) :
    ((body.history config).getLast? = some { scope := body.initialScope } ∧
      (body.history config).head? = some (Engine.new body config).bounds.engine.context ∧
      (body.history config).Pairwise fun later earlier =>
        body.Tightens earlier.scope later.scope) ∧
    body.Tightens body.initialScope (Engine.new body config).bounds.engine.context.scope ∧
    (∀ name ∉ body.indirectVars,
      (indexRanges (Engine.new body config).bounds.events name).Pairwise
        fun earlier later => later ≤ earlier) ∧
    (∀ runGraph args store range after,
      (Analysis.interpreter body config).eval runGraph .getIndex args store =
        some (.ok range, after) →
      ∃ name rest expr, args = .name name :: rest ∧ body.indexExprs[name]? = some expr ∧
        range = expr.range store.state.scope ∧
        after.state.scope = store.state.scope.insert name range) ∧
    (∀ name left right,
      (Engine.new body config).bounds.answer ≠ .error (.disjointBounds name left right)) ∧
    ∀ runGraph target args store e after,
      (target = .getIndex ∨ ∃ index, target = .setIndirect index) →
      (Analysis.interpreter body config).eval runGraph target args store =
        some (.error e, after) →
      after.state.scope = store.state.scope := by
  refine ⟨body.history_tightens config, body.tightens_final config, ?_, ?_, ?_, ?_⟩
  · intro name hname
    exact Analysis.descending_events body config hname
  · intro runGraph args store range after heval
    exact Analysis.eval_getIndex_ok heval
  · exact Analysis.answer_ne_disjointBounds
  · intro runGraph target args store e after htarget heval
    refine Analysis.scope_of_eval_error ?_ heval
    rintro index rfl
    rcases htarget with h | ⟨_, h⟩ <;> cases h

/-- A body whose index has the name of the loop variable it reads. -/
def halving : Body :=
  (Builder.afterAll [
    .varRange "i" 9,
    .indexExpr "i" (.sym "i" / 2),
    .push .root .getIndex [.name "i"],
    .push .root .getIndex [.name "i"]]).body

example : indexRanges (Engine.new halving {}).bounds.events "i" =
    [.between 0 (.finite 4), .between 0 (.finite 2)] := by decide +kernel

end LoopBounds
