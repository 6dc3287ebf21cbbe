/-
The states that a run goes through.

A run tells only the state it ends in. `Interpreter.recording` is the interpreter
that keeps all earlier ones too: its state is a `History`, and whenever a submodule
sets the state, the previous one is added to the past.

* `Interpreter.run_recording`: the interpreter that records does the same as the
  one that does not, once its past is forgotten. So the history of a run says
  something about the run itself;
* `Interpreter.Follows.run`: if all submodules go from state to state as a
  transitive relation allows, then any two states of a history are so related,
  the earlier one to the later one, in runs that fail too.
-/
import LoopBounds.Proofs.Interpreter.Contract
import Mathlib.Data.List.Chain

namespace LoopBounds

variable {σ : Type}

/-- A state with those before it, the latest first. -/
structure History (σ : Type) where
  current : σ
  past : List σ := []

namespace History

/-- All states, the latest first. -/
def states (history : History σ) : List σ :=
  history.current :: history.past

/-- Goes on to another state. -/
def advance (history : History σ) (state : σ) : History σ where
  current := state
  past := history.states

end History

/-- The procedure, with a history for its state. -/
def Procedure.recording (history : History σ) : Procedure σ → Procedure (History σ)
  | .finish state result => .finish (history.advance state) result
  | .note event next => .note event (next.recording history)
  | .run graph state next => .run graph (history.advance state) fun result inner bounds =>
      (next result inner.current bounds).recording inner

/-- The interpreter that keeps the states it goes through. -/
def Interpreter.recording (interp : Interpreter σ) : Interpreter (History σ) where
  handler := interp.handler
  submodule? target := (interp.submodule? target).map fun submodule history bounds args =>
    (submodule history.current bounds args).recording history

/-- The store before a run that keeps its states. -/
def Store.recording (store : Store σ) : Store (History σ) :=
  { store with state := { current := store.state } }

/-! ### Forgetting the past -/

/-- The store without the past of its state. -/
def Store.forget (store : Store (History σ)) : Store σ :=
  { store with state := store.state.current }

/-- The outcome without the past of its state. -/
def Outcome.forget {α : Type} (outcome : Outcome (History σ) α) : Outcome σ α :=
  outcome.map fun (result, store) => (result, store.forget)

section Forget

variable {interp : Interpreter σ} {runGraph : Graph → Store σ → Outcome σ Unit}
  {runRecording : Graph → Store (History σ) → Outcome (History σ) Unit}

theorem Procedure.perform_recording
    (hrun : ∀ graph store, (runRecording graph store).forget = runGraph graph store.forget)
    (procedure : Procedure σ) (history : History σ) (store : Store (History σ)) :
    ((procedure.recording history).perform runRecording store).forget =
      procedure.perform runGraph store.forget := by
  induction procedure generalizing history store with
  | finish state result => rfl
  | note event next ih => exact ih history (store.note event)
  | run graph state next ih =>
    let entry : Store (History σ) := { store with state := history.advance state }
    have hentry : { store.forget with state } = entry.forget := rfl
    simp only [recording, perform]
    rw [hentry, ← hrun graph entry]
    cases runRecording graph entry with
    | none => rfl
    | some outcome => exact ih outcome.1 outcome.2.state.current outcome.2.bounds _ outcome.2

theorem Interpreter.eval_recording
    (hrun : ∀ graph store, (runRecording graph store).forget = runGraph graph store.forget)
    (target : Target) (args : List Value) (store : Store (History σ)) :
    (interp.recording.eval runRecording target args store).forget =
      interp.eval runGraph target args store.forget := by
  unfold eval
  cases hsub : interp.submodule? target with
  | some submodule =>
    simp only [recording, hsub, Option.map_some]
    exact Procedure.perform_recording hrun _ _ store
  | none =>
    simp only [recording, hsub, Option.map_none]
    cases target <;> rfl

theorem Interpreter.runNodes_recording
    (hrun : ∀ graph store, (runRecording graph store).forget = runGraph graph store.forget)
    (nodes : List Node) (store : Store (History σ)) :
    (interp.recording.runNodes runRecording nodes store).forget =
      interp.runNodes runGraph nodes store.forget := by
  induction nodes generalizing store with
  | nil => rfl
  | cons node rest ih =>
    rw [runNodes, runNodes]
    have hbounds : store.forget.bounds = store.bounds := rfl
    rw [hbounds]
    split
    · exact ih (store.note (.skipped node.id))
    · split
      · rfl
      · rename_i args _
        rw [← eval_recording hrun]
        cases interp.recording.eval runRecording node.target args store with
        | none => rfl
        | some outcome =>
          obtain ⟨result, after⟩ := outcome
          cases result with
          | error e => rfl
          | ok range => exact ih (after.record node range)

/-- To record the states of a run changes nothing else. -/
theorem Interpreter.run_recording (levels : Nat) (graph : Graph) (store : Store (History σ)) :
    (interp.recording.run levels graph store).forget = interp.run levels graph store.forget := by
  induction levels generalizing graph store with
  | zero => rfl
  | succ levels ih => exact runNodes_recording ih graph.nodes store

end Forget

/-! ### Histories in order -/

/-- The procedure goes on from the state to ones that are related to it, and so on. -/
def Procedure.Follows (rel : σ → σ → Prop) (state : σ) : Procedure σ → Prop
  | .finish next _ => rel state next
  | .note _ next => next.Follows rel state
  | .run _ inner next => rel state inner ∧
      ∀ result after bounds, (next result after bounds).Follows rel after

/-- All submodules go from a state to related ones. -/
def Interpreter.Follows (interp : Interpreter σ) (rel : σ → σ → Prop) : Prop :=
  ∀ target submodule, interp.submodule? target = some submodule →
    ∀ state bounds args, (submodule state bounds args).Follows rel state

/-- The history began with a state, and went on to related ones. -/
structure History.From (history : History σ) (rel : σ → σ → Prop) (start : σ) : Prop where
  ordered : history.states.IsChain fun later earlier => rel earlier later
  start : history.states.getLast? = some start

variable {rel : σ → σ → Prop} {start : σ} {history : History σ}

theorem History.From.advance {state : σ} (h : history.From rel start)
    (hrel : rel history.current state) : (history.advance state).From rel start where
  ordered := List.isChain_cons_cons.2 ⟨hrel, h.ordered⟩
  start := h.start

/-- Histories are in order, and keep their beginning. -/
def History.inOrder (rel : σ → σ → Prop) : Contract (History σ) σ :=
  .always fun start store => store.state.From rel start

theorem Procedure.Follows.perform {procedure : Procedure σ}
    {runGraph : Graph → Store (History σ) → Outcome (History σ) Unit}
    {result : Except Error Interval} {store after : Store (History σ)}
    (h : procedure.Follows rel history.current) (hfrom : history.From rel start)
    (hkept : (History.inOrder rel).KeptBy runGraph)
    (hresult : (procedure.recording history).perform runGraph store = some (result, after)) :
    after.state.From rel start := by
  induction procedure generalizing history store with
  | finish state outcome =>
    cases hresult
    exact hfrom.advance h
  | note event next ih => exact ih h hfrom hresult
  | run graph state next ih =>
    simp only [recording, Procedure.perform] at hresult
    split at hresult
    · cases hresult
    · rename_i ran inner hrun
      have hbegin : (History.inOrder rel).holds start graph
          { store with state := history.advance state } := hfrom.advance h.1
      have hinner := Contract.ends_always.1 (hkept _ _ _ _ _ hbegin hrun)
      exact ih _ _ _ (h.2 _ _ _) hinner hresult

theorem Interpreter.Follows.obeys {interp : Interpreter σ} (h : interp.Follows rel) :
    interp.recording.Obeys (History.inOrder rel) where
  skip h _ := h
  unread _ h _ := h
  evaluate := by
    intro start graph node store args runGraph result after _ hholds _ _ hkept heval
    have hfrom : after.state.From rel start := by
      unfold eval at heval
      split at heval
      · rename_i submodule hsub
        obtain ⟨original, horiginal, rfl⟩ := Option.map_eq_some_iff.1 hsub
        exact (h _ _ horiginal _ _ _).perform hholds hkept heval
      · -- nothing else touches the state
        split at heval <;> cases heval <;> exact hholds
    cases result <;> exact hfrom

/-- The states of a run begin with the one it was started in, end with the one it leaves, and each
is related to all later ones. -/
theorem Interpreter.Follows.run {interp : Interpreter σ} (h : interp.Follows rel)
    (htrans : ∀ {a b c}, rel a b → rel b c → rel a c) {levels : Nat} {graph : Graph}
    {store after : Store σ} {result : Except Error Unit}
    (hrun : interp.run levels graph store = some (result, after)) : ∃ history : History σ,
    interp.recording.run levels graph store.recording =
      some (result, { after with state := history }) ∧
    history.current = after.state ∧ history.states.getLast? = some store.state ∧
    history.states.Pairwise fun later earlier => rel earlier later := by
  have hforget : (interp.recording.run levels graph store.recording).forget =
      some (result, after) := by
    rw [run_recording]
    exact hrun
  obtain ⟨⟨_, recorded⟩, hrecorded, heq⟩ := Option.map_eq_some_iff.1 hforget
  cases heq
  have hbegin : (History.inOrder rel).holds store.state graph store.recording :=
    ⟨List.isChain_singleton _, rfl⟩
  have hfrom := Contract.ends_always.1 (h.obeys.run levels _ _ _ _ _ hbegin hrecorded)
  have : Trans (fun later earlier => rel earlier later) (fun later earlier => rel earlier later)
      (fun later earlier => rel earlier later) := ⟨fun hab hbc => htrans hbc hab⟩
  exact ⟨recorded.state, hrecorded, rfl, hfrom.start, hfrom.ordered.pairwise⟩

end LoopBounds
