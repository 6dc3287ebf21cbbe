/-
Indices and bindings in any order.

A context can be used by itself, without a graph: a `Call` resolves an index in it
or binds a variable. Calls may come in any order and number, an index may be
resolved before and after the ones it mentions, and it may mention itself.

As long as variables are only ever bound to parts of what they were, no index is
refused (`tightening_never_refused`). One call keeps every recorded range around
the range of its expression (`Call.keeps`), since the scope gets narrower and
ranges are monotone in the scope; so do any number of calls (`expected_stage`).
-/
import LoopBounds.Proofs.Analysis.Progress

namespace LoopBounds

namespace Analysis

/-- A use of a context: to resolve an index, or to bind a variable to the first of some values. -/
inductive Call where
  | getIndex (name : String)
  | setIndirect (var : Symbol) (args : List Value)

variable {body : Body} {ctx start : Context} {calls : List Call} {call : Call} {n : Nat}

namespace Call

/-- What a call does. An index that is resolved again may be narrower. -/
def procedure (body : Body) (ctx : Context) : Call → Procedure Context
  | .getIndex name => Analysis.getIndex body .subset ctx [.name name]
  | .setIndirect var args => Analysis.setIndirect var ctx args

/-- A call runs no graph. -/
theorem isSome_perform (body : Body) (ctx : Context) (call : Call) :
    ((call.procedure body ctx).perform (fun _ _ => none) { state := ctx }).isSome = true := by
  cases call with
  | getIndex name =>
    obtain ⟨_, _, h, -⟩ := endsAt_getIndex body .subset [.name name] (fun _ _ => none)
      { state := ctx }
    rw [procedure, h]
    rfl
  | setIndirect var args =>
    obtain ⟨_, _, h, -⟩ := endsAt_setIndirect var args (fun _ _ => none) { state := ctx }
    rw [procedure, h]
    rfl

/-- The result of a call, and the context it leaves. -/
def reply (body : Body) (ctx : Context) (call : Call) : Except Error Interval × Context :=
  let (result, store) := ((call.procedure body ctx).perform (fun _ _ => none) { state := ctx }).get
    (isSome_perform body ctx call)
  (result, store.state)

/-- The context after a call. -/
def after (body : Body) (ctx : Context) (call : Call) : Context :=
  (call.reply body ctx).2

theorem reply_getIndex {name : String} {expr : Expr} (hexpr : body.indexExprs[name]? = some expr) :
    (getIndex name).reply body ctx = ctx.resolve .subset name expr := by
  have hperform : ∃ store : Store Context,
      ((getIndex name).procedure body ctx).perform (fun _ _ => none) { state := ctx } =
        some ((ctx.resolve .subset name expr).1, store) ∧
      store.state = (ctx.resolve .subset name expr).2 := by
    simp only [procedure, Analysis.getIndex, hexpr]
    split <;> rename_i hresolve <;> rw [hresolve] <;> exact ⟨_, rfl, rfl⟩
  obtain ⟨store, hperform, hstate⟩ := hperform
  simp only [reply, hperform, Option.get_some, hstate]

theorem after_setIndirect (var : Symbol) (range : Interval) (rest : List Value) :
    (setIndirect var (.range range :: rest)).after body ctx = ctx.bind var range :=
  rfl

/-- A call that has no interval to bind changes nothing. -/
theorem after_setIndirect_of_ne {var : Symbol} {args : List Value}
    (h : ∀ range rest, args ≠ .range range :: rest) :
    (setIndirect var args).after body ctx = ctx := by
  cases args with
  | nil => rfl
  | cons value rest =>
    cases value with
    | range range => exact absurd rfl (h range rest)
    | name text => rfl
    | int value => rfl

end Call

/-- The context after so many of the calls. -/
def stage (body : Body) (start : Context) (calls : List Call) (n : Nat) : Context :=
  (calls.take n).foldl (Call.after body) start

theorem stage_succ (h : calls[n]? = some call) :
    stage body start calls (n + 1) = call.after body (stage body start calls n) := by
  rw [stage, List.take_add_one, h, List.foldl_append]
  rfl

theorem stage_succ_of_none (h : calls[n]? = none) :
    stage body start calls (n + 1) = stage body start calls n := by
  rw [stage, List.take_add_one, h, Option.toList_none, List.append_nil]
  rfl

/-- The calls resolve indices that the body has, whose names are neither known from the start nor
bound as variables. -/
def Separate (body : Body) (start : Context) (calls : List Call) : Prop :=
  ∀ name, .getIndex name ∈ calls →
    name ∈ body.indexExprs ∧ name ∉ start.scope ∧ ∀ args, .setIndirect name args ∉ calls

/-- Every variable is bound to a part of what it was when the call is made. A variable without an
entry may be bound to anything. -/
def Tightening (body : Body) (start : Context) (calls : List Call) : Prop :=
  ∀ (n : Nat) (var : Symbol) (range : Interval) (rest : List Value),
    calls[n]? = some (.setIndirect var (.range range :: rest)) →
    range ≤ (stage body start calls n).scope.range var

/-- The recorded ranges of the indices that are resolved are around those of their expressions. -/
def Expected (body : Body) (calls : List Call) (scope : Scope) : Prop :=
  ∀ name, .getIndex name ∈ calls → ∀ expr, body.indexExprs[name]? = some expr →
    scope.Surrounds name expr

/-- An index is resolved to the range of its expression. -/
theorem Expected.exists_reply {name : String} (h : Expected body calls ctx.scope)
    (hseparate : Separate body start calls) (hcall : .getIndex name ∈ calls) :
    ∃ expr after, body.indexExprs[name]? = some expr ∧
      (Call.getIndex name).reply body ctx = (.ok (expr.range ctx.scope), after) ∧
      after.scope = ctx.scope.insert? (some name) (expr.range ctx.scope) := by
  obtain ⟨expr, hexpr⟩ := Body.exists_indexExpr (hseparate name hcall).1
  obtain ⟨after, hresolve⟩ := exists_resolve (h name hcall expr hexpr)
  refine ⟨expr, after, hexpr, ?_, (scope_of_resolve hresolve).2⟩
  rw [Call.reply_getIndex hexpr, hresolve]

/-- To assign a part of its range to a symbol keeps recorded ranges around their expressions, if an
index is assigned the range of its own. -/
theorem Expected.assign {scope : Scope} {name : Symbol} {range : Interval}
    (h : Expected body calls scope) (hrange : range ≤ scope.range name)
    (hsame : .getIndex name ∈ calls → ∀ expr, body.indexExprs[name]? = some expr →
      range = expr.range scope) :
    (scope.insert? (some name) range).Narrows scope ∧
    Expected body calls (scope.insert? (some name) range) := by
  constructor
  · refine Scope.narrows_insert? ?_
    rintro _ ⟨⟩
    exact hrange
  · intro other hother expr hexpr
    refine (h other hother expr hexpr).insert? hrange ?_
    rintro rfl
    exact hsame hother expr hexpr

/-- One call narrows the scope and keeps recorded ranges around their expressions. -/
theorem Call.keeps (hseparate : Separate body start calls) (hcall : call ∈ calls)
    (htight : ∀ var range rest, call = .setIndirect var (.range range :: rest) →
      range ≤ ctx.scope.range var) (h : Expected body calls ctx.scope) :
    (call.after body ctx).scope.Narrows ctx.scope ∧
    Expected body calls (call.after body ctx).scope := by
  cases call with
  | getIndex name =>
    obtain ⟨expr, after, hexpr, hreply, hscope⟩ := h.exists_reply hseparate hcall
    rw [Call.after, hreply, hscope]
    refine h.assign (h name hcall expr hexpr).range_le ?_
    intro _ other hother
    rw [hexpr, Option.some_inj] at hother
    rw [hother]
  | setIndirect var args =>
    by_cases hargs : ∃ range rest, args = .range range :: rest
    · obtain ⟨range, rest, rfl⟩ := hargs
      rw [Call.after_setIndirect]
      refine h.assign (htight var range rest rfl) ?_
      -- a name that is resolved is never bound
      intro hindex
      exact absurd hcall ((hseparate var hindex).2.2 _)
    · rw [Call.after_setIndirect_of_ne fun range rest heq => hargs ⟨range, rest, heq⟩]
      exact ⟨fun _ => Interval.le_refl _, h⟩

theorem Expected.stage_succ (hseparate : Separate body start calls)
    (htight : Tightening body start calls)
    (h : Expected body calls (stage body start calls n).scope) :
    (stage body start calls (n + 1)).scope.Narrows (stage body start calls n).scope ∧
    Expected body calls (stage body start calls (n + 1)).scope := by
  cases hcall : calls[n]? with
  | none =>
    rw [stage_succ_of_none hcall]
    exact ⟨fun _ => Interval.le_refl _, h⟩
  | some call =>
    rw [Analysis.stage_succ hcall]
    refine call.keeps hseparate (List.mem_of_getElem? hcall) ?_ h
    rintro var range rest rfl
    exact htight n var range rest hcall

/-- After any number of calls, recorded ranges are around their expressions. -/
theorem expected_stage (hseparate : Separate body start calls)
    (htight : Tightening body start calls) (n : Nat) :
    Expected body calls (stage body start calls n).scope := by
  induction n with
  | zero =>
    -- in the beginning none of the indices has a range
    intro name hname expr _ previous hprevious
    have hnone := Std.ExtTreeMap.getElem?_eq_none (hseparate name hname).2.1
    have hstart : start.scope[name]? = some previous := hprevious
    rw [hnone] at hstart
    cases hstart
  | succ n ih => exact (ih.stage_succ hseparate htight).2

theorem narrows_stage (hseparate : Separate body start calls)
    (htight : Tightening body start calls) {m : Nat} (hle : m ≤ n) :
    (stage body start calls n).scope.Narrows (stage body start calls m).scope := by
  induction hle with
  | refl => exact fun _ => Interval.le_refl _
  | @step n _ ih =>
    intro name
    have hlast := (expected_stage hseparate htight n).stage_succ hseparate htight
    exact Interval.le_trans (hlast.1 name) (ih name)

end Analysis

/-- **Bindings that tighten never make an index fail.** Take any calls on any context that resolve
indices and bind variables, where every index is one of the body, its name is neither known from the
start nor bound as a variable, and every variable is bound to a part of what it was. Then every
index is resolved, and the scope gets narrower with every call. -/
theorem tightening_never_refused {body : Body} {start : Context} {calls : List Analysis.Call}
    (hseparate : Analysis.Separate body start calls)
    (htight : Analysis.Tightening body start calls) :
    (∀ (n : Nat) (name : String), calls[n]? = some (.getIndex name) →
      ∃ range, ((Analysis.Call.getIndex name).reply body
        (Analysis.stage body start calls n)).1 = .ok range) ∧
    ∀ m n, m ≤ n → (Analysis.stage body start calls n).scope.Narrows
      (Analysis.stage body start calls m).scope := by
  constructor
  · intro n name hcall
    have hexpected := Analysis.expected_stage hseparate htight n
    obtain ⟨expr, after, -, hreply, -⟩ :=
      hexpected.exists_reply hseparate (List.mem_of_getElem? hcall)
    rw [hreply]
    exact ⟨_, rfl⟩
  · intro m n hle
    exact Analysis.narrows_stage hseparate htight hle

/-- A body with two indices that mention each other. One of them also mentions itself, and the other
one a variable. -/
def entwined : Body :=
  (Builder.afterAll [
    .indirectVar "tmp",
    .indexExpr "row" ((.sym "row" + .sym "cell") % 10),
    .indexExpr "cell" (.sym "tmp" * .sym "row")]).body

/-- The indices are resolved before the variable is bound, and again each time it is. -/
def interleaved : List Analysis.Call := [
  .getIndex "cell",
  .getIndex "row",
  .setIndirect "tmp" [.range (.between 0 (.finite 100))],
  .getIndex "cell",
  .setIndirect "tmp" [.range (.between 0 (.finite 3))],
  .getIndex "cell",
  .getIndex "row"]

theorem tightening_never_refused_interleaved :
    ((Analysis.Call.getIndex "cell").reply entwined
      (Analysis.stage entwined { scope := ∅ } interleaved 5)).1 = .ok (.between 0 (.finite 27)) ∧
    (Analysis.stage entwined { scope := ∅ } interleaved 4).scope["cell"]? =
      some (.between 0 (.finite 900)) ∧
    (Analysis.stage entwined { scope := ∅ } interleaved 7).scope.Narrows
      (Analysis.stage entwined { scope := ∅ } interleaved 4).scope := by
  have hseparate : Analysis.Separate entwined { scope := ∅ } interleaved := by
    intro name hname
    have hcases : name = "cell" ∨ name = "row" := by
      simp only [interleaved, List.mem_cons, Analysis.Call.getIndex.injEq, reduceCtorEq] at hname
      tauto
    rcases hcases with rfl | rfl
    · exact ⟨by decide, by simp, by simp [interleaved]⟩
    · exact ⟨by decide, by simp, by simp [interleaved]⟩
  have htight : Analysis.Tightening entwined { scope := ∅ } interleaved := by
    intro n var range rest hcall
    match n, hcall with
    | 2, rfl => decide +kernel
    | 4, rfl => decide +kernel
    | n + 7, hcall => cases hcall
  obtain ⟨-, hnarrows⟩ := tightening_never_refused hseparate htight
  exact ⟨by decide +kernel, by decide +kernel, hnarrows 4 7 (by decide)⟩

end LoopBounds
