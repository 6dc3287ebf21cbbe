/-
Runs only add intervals.

Whatever the handler and the submodules of an interpreter are, a run leaves every
interval as it is that was there when the run began, also where it ends with an
error (`run_within`). A run without an error gives all nodes of its graph an
interval (`mem_of_run`), so to run the graph once more only skips them, and no
part of the interpreter is asked (`run_of_mem`).

A submodule may run any graphs in between, and even the one whose node it is just
evaluating. A run within may therefore give that node an interval, and the outer
run replaces it afterwards. This is no exception: the outer run began without that
interval, and the inner one is over.
-/
import LoopBounds.Proofs.Bounds
import LoopBounds.Proofs.Interpreter.Contract

namespace LoopBounds

variable {σ : Type}

/-- The given intervals are kept. -/
def Contract.keeps (σ : Type) : Contract σ Bounds :=
  .always fun known store => known.Within store.bounds

theorem Procedure.perform_within {runGraph : Graph → Store σ → Outcome σ Unit}
    (hkept : (Contract.keeps σ).KeptBy runGraph) {procedure : Procedure σ} {known : Bounds}
    {store after : Store σ} {result : Except Error Interval} (hknown : known.Within store.bounds)
    (h : procedure.perform runGraph store = some (result, after)) : known.Within after.bounds := by
  induction procedure generalizing store with
  | finish state outcome =>
    cases h
    exact hknown
  | note event next ih =>
    have hnoted : known.Within (store.note event).bounds := hknown
    exact ih hnoted h
  | run graph state next ih =>
    rw [perform] at h
    split at h
    · cases h
    · rename_i ran inner hrun
      have hinner : known.Within inner.bounds :=
        Contract.ends_always.1 (hkept known graph { store with state } ran inner hknown hrun)
      exact ih _ _ _ hinner h

namespace Interpreter

variable {interp : Interpreter σ} {graph : Graph} {store after : Store σ}

theorem eval_within {runGraph : Graph → Store σ → Outcome σ Unit}
    (hkept : (Contract.keeps σ).KeptBy runGraph) {target : Target} {args : List Value}
    {known : Bounds} {result : Except Error Interval} (hknown : known.Within store.bounds)
    (h : interp.eval runGraph target args store = some (result, after)) :
    known.Within after.bounds := by
  unfold eval at h
  split at h
  · exact Procedure.perform_within hkept hknown h
  · -- without a submodule the store is at most given notes
    split at h <;> cases h <;> exact hknown

theorem obeys_keeps (interp : Interpreter σ) : interp.Obeys (Contract.keeps σ) where
  skip h _ := h
  unread _ h _ := h
  evaluate := by
    intro known graph node store args runGraph result after _ hknown hmem _ hkept heval
    have hafter := eval_within hkept hknown heval
    cases result with
    | error e => exact hafter
    | ok range => exact hafter.insert (fun hid => hmem (hknown.mem hid)) range

theorem run_within {levels : Nat} {result : Except Error Unit}
    (h : interp.run levels graph store = some (result, after)) :
    store.bounds.Within after.bounds :=
  Contract.ends_always.1 (interp.obeys_keeps.run levels store.bounds graph store result after
    (.refl _) h)

theorem mem_of_runNodes {runGraph : Graph → Store σ → Outcome σ Unit}
    (hkept : (Contract.keeps σ).KeptBy runGraph) {nodes : List Node}
    (h : interp.runNodes runGraph nodes store = some (.ok (), after)) :
    ∀ node ∈ nodes, node.id ∈ after.bounds := by
  -- what is recorded of the first node is kept while the others are run
  have hrest : ∀ (rest : List Node) (start : Store σ),
      interp.runNodes runGraph rest start = some (.ok (), after) →
      start.bounds.Within after.bounds := by
    intro rest start hrun
    have hstart : (Contract.keeps σ).holds start.bounds ⟨rest⟩ start := .refl _
    exact Contract.ends_always.1
      (interp.obeys_keeps.runNodes hkept (fun _ hnode => hnode) hstart hrun)
  induction nodes generalizing store with
  | nil => simp
  | cons node rest ih =>
    rw [runNodes] at h
    split at h
    · rename_i hmem
      refine List.forall_mem_cons.2 ⟨?_, ih h⟩
      exact (hrest rest _ h).mem hmem
    · split at h
      · cases h
      · split at h
        · cases h
        · cases h
        · refine List.forall_mem_cons.2 ⟨?_, ih h⟩
          exact (hrest rest _ h).mem (Bounds.mem_insert.2 (Or.inl rfl))

theorem mem_of_run {levels : Nat} (h : interp.run levels graph store = some (.ok (), after)) :
    ∀ node ∈ graph.nodes, node.id ∈ after.bounds := by
  cases levels with
  | zero => cases h
  | succ levels => exact mem_of_runNodes (interp.obeys_keeps.run levels) h

/-- Nodes that have intervals are skipped one after the other. -/
theorem runNodes_of_mem (interp : Interpreter σ) (runGraph : Graph → Store σ → Outcome σ Unit)
    {nodes : List Node} (h : ∀ node ∈ nodes, node.id ∈ store.bounds) :
    interp.runNodes runGraph nodes store =
      some (.ok (),
        { store with log := store.log ++ nodes.map fun node => Event.skipped node.id }) := by
  induction nodes generalizing store with
  | nil => simp [runNodes]
  | cons node rest ih =>
    obtain ⟨hmem, hrest⟩ := List.forall_mem_cons.1 h
    have hskipped := @ih (store.note (.skipped node.id)) hrest
    rw [runNodes, if_pos hmem, hskipped]
    simp [Store.note]

end Interpreter

/-- **Frame and repetition.** Let a run end, with or without an error. Every interval that was there
when it began is still there. If it ended without an error, then all nodes of the graph have
intervals, and another run of the graph succeeds with the same state and the same intervals: it
notes that it skips the nodes and does nothing else, whatever the handler and the submodules are
that it could call. -/
theorem run_frame {interp : Interpreter σ} {levels : Nat} {graph : Graph} {store after : Store σ}
    {result : Except Error Unit} (h : interp.run levels graph store = some (result, after)) :
    store.bounds.Within after.bounds ∧
    (result = .ok () → (∀ node ∈ graph.nodes, node.id ∈ after.bounds) ∧
      ∀ (other : Interpreter σ) (more : Nat), other.run (more + 1) graph after = some (.ok (),
        { after with log := after.log ++ graph.nodes.map fun node => Event.skipped node.id })) := by
  refine ⟨Interpreter.run_within h, ?_⟩
  rintro rfl
  have hmem := Interpreter.mem_of_run h
  exact ⟨hmem, fun other more => other.runNodes_of_mem (other.run more) hmem⟩

/-- The second node reads the first one. -/
def readingTwice : Graph where
  nodes := [⟨0, .op "again", []⟩, ⟨1, .op "neg", [.node 0]⟩]

/-- An interpreter in which the first node of the graph runs the graph once more, unless this is
already going on. -/
def reentering : Interpreter Bool where
  handler := .valueRange
  submodule? target :=
    if target = .op "again" then
      some fun entered _ _ =>
        if entered then .finish true (.ok (.singleton 1))
        else .run readingTwice true fun result _ _ =>
          .finish false (result.map fun _ => .singleton 2)
    else none

/-- The inner run gives the pending node the interval of `1`, from which the second node is
computed. The outer run replaces it. -/
theorem run_frame_reentering : ∃ after : Store Bool,
    reentering.run 2 readingTwice
      { state := false, bounds := .ofList [(7, Interval.singleton 5)] } = some (.ok (), after) ∧
    after.bounds[7]? = some (.singleton 5) ∧ after.bounds[0]? = some (.singleton 2) ∧
    after.bounds[1]? = some (.singleton (-1)) ∧
    reentering.run 1 readingTwice after =
      some (.ok (), { after with log := after.log ++ [Event.skipped 0, Event.skipped 1] }) := by
  let start : Store Bool := { state := false, bounds := .ofList [(7, Interval.singleton 5)] }
  have hends : (reentering.run 2 readingTwice start).map (fun (result, store) =>
      (result.isOk, store.bounds[0]?, store.bounds[1]?)) =
      some (true, some (.singleton 2), some (.singleton (-1))) := by decide +kernel
  obtain ⟨⟨result, after⟩, hrun, heq⟩ := Option.map_eq_some_iff.1 hends
  simp only [Prod.mk.injEq] at heq
  obtain ⟨hok, hzero, hone⟩ := heq
  cases result with
  | error e => cases hok
  | ok u =>
    obtain ⟨hframe, hagain⟩ := run_frame hrun
    refine ⟨after, hrun, hframe 7 (.singleton 5) (by decide), hzero, hone, ?_⟩
    exact (hagain rfl).2 reentering 0

end LoopBounds
