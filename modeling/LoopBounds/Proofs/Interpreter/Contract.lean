/-
What holds of the runs of any interpreter.

* `Interpreter.run_mono`: a run that ends with some number of levels ends in the
  same way with any larger one, so the levels only decide whether there is an
  outcome and never which;
* `Obeys.run`: a contract that every single step keeps is kept by whole runs.

A `Contract` says what holds of the store while a graph is run, and what of the
store that an error leaves. Both may depend on an index that is the same from the
start of a run to its end, such as the depth; a run within has its own. Nothing is
asked where there is no outcome.
-/
import LoopBounds.Interpreter.Basic

namespace LoopBounds

variable {σ ι : Type}

/-! ### Levels -/

theorem Procedure.perform_mono {runGraph more : Graph → Store σ → Outcome σ Unit}
    (hmore : ∀ graph store outcome, runGraph graph store = some outcome →
      more graph store = some outcome) {procedure : Procedure σ} {store : Store σ}
    {outcome : Except Error Interval × Store σ}
    (h : procedure.perform runGraph store = some outcome) :
    procedure.perform more store = some outcome := by
  induction procedure generalizing store with
  | finish state result => exact h
  | note event next ih => exact ih h
  | run graph state next ih =>
    rw [perform] at h ⊢
    split at h
    · cases h
    · rename_i result after hrun
      rw [hmore _ _ _ hrun]
      exact ih result after.state after.bounds h

namespace Interpreter

variable {interp : Interpreter σ}

theorem eval_mono {runGraph more : Graph → Store σ → Outcome σ Unit}
    (hmore : ∀ graph store outcome, runGraph graph store = some outcome →
      more graph store = some outcome) {target : Target} {args : List Value} {store : Store σ}
    {outcome : Except Error Interval × Store σ}
    (h : interp.eval runGraph target args store = some outcome) :
    interp.eval more target args store = some outcome := by
  unfold eval at h ⊢
  split at h
  · exact Procedure.perform_mono hmore h
  · exact h

theorem runNodes_mono {runGraph more : Graph → Store σ → Outcome σ Unit}
    (hmore : ∀ graph store outcome, runGraph graph store = some outcome →
      more graph store = some outcome) {nodes : List Node} {store : Store σ}
    {outcome : Except Error Unit × Store σ}
    (h : interp.runNodes runGraph nodes store = some outcome) :
    interp.runNodes more nodes store = some outcome := by
  induction nodes generalizing store with
  | nil => exact h
  | cons node rest ih =>
    rw [runNodes] at h ⊢
    split at h
    · rename_i hmem
      rw [if_pos hmem]
      exact ih h
    · rename_i hmem
      rw [if_neg hmem]
      split at h
      · exact h
      · split at h
        · cases h
        · rename_i heval
          rw [eval_mono hmore heval]
          exact h
        · rename_i heval
          rw [eval_mono hmore heval]
          exact ih h

/-- More levels keep an outcome. -/
theorem run_mono {levels more : Nat} (hle : levels ≤ more) {graph : Graph} {store : Store σ}
    {outcome : Except Error Unit × Store σ} (h : interp.run levels graph store = some outcome) :
    interp.run more graph store = some outcome := by
  induction levels generalizing more graph store outcome with
  | zero => cases h
  | succ levels ih =>
    obtain ⟨more, rfl⟩ : ∃ k, more = k + 1 := ⟨more - 1, by omega⟩
    refine runNodes_mono ?_ h
    intro graph store outcome hrun
    exact ih (by omega) hrun

end Interpreter

/-! ### Contracts -/

/-- What is to hold of runs, for every value of an index. -/
structure Contract (σ ι : Type) where
  /-- Before and after every node of the graph. -/
  holds : ι → Graph → Store σ → Prop
  /-- Where a run of a graph ended with the error. -/
  fails : ι → Error → Store σ → Prop

namespace Contract

variable (contract : Contract σ ι)

/-- What is to hold at the end of a run. -/
def Ends (i : ι) (graph : Graph) : Except Error Unit → Store σ → Prop
  | .ok (), store => contract.holds i graph store
  | .error e, store => contract.fails i e store

/-- What is to hold after the evaluation of a node, once its interval is recorded. -/
def Evaluated (i : ι) (graph : Graph) (node : Node) : Except Error Interval → Store σ → Prop
  | .ok range, store => contract.holds i graph (store.record node range)
  | .error e, store => contract.fails i e store

/-- The contract that asks the same of all stores, also of those that an error leaves. -/
def always (property : ι → Store σ → Prop) : Contract σ ι where
  holds i _ store := property i store
  fails i _ store := property i store

theorem ends_always {property : ι → Store σ → Prop} {i : ι} {graph : Graph}
    {result : Except Error Unit} {store : Store σ} :
    (always property).Ends i graph result store ↔ property i store := by
  cases result <;> rfl

/-- Runs of graphs keep the contract. -/
def KeptBy (runGraph : Graph → Store σ → Outcome σ Unit) : Prop :=
  ∀ i graph store result after, contract.holds i graph store →
    runGraph graph store = some (result, after) → contract.Ends i graph result after

end Contract

/-- Every step of a run keeps the contract, given that the runs within it do. -/
structure Interpreter.Obeys (interp : Interpreter σ) (contract : Contract σ ι) : Prop where
  skip : ∀ {i graph store} {id : NodeId}, contract.holds i graph store → id ∈ store.bounds →
    contract.holds i graph (store.note (.skipped id))
  unread : ∀ {i graph node store e}, node ∈ graph.nodes → contract.holds i graph store →
    store.bounds.values node.args = .error e → contract.fails i e store
  evaluate : ∀ {i graph node store args runGraph result after}, node ∈ graph.nodes →
    contract.holds i graph store → node.id ∉ store.bounds →
    store.bounds.values node.args = .ok args → contract.KeptBy runGraph →
    interp.eval runGraph node.target args store = some (result, after) →
    contract.Evaluated i graph node result after

namespace Interpreter.Obeys

variable {interp : Interpreter σ} {contract : Contract σ ι}

theorem runNodes (h : interp.Obeys contract)
    {runGraph : Graph → Store σ → Outcome σ Unit} (hrun : contract.KeptBy runGraph) {i : ι}
    {graph : Graph} {nodes : List Node} (hnodes : ∀ node ∈ nodes, node ∈ graph.nodes)
    {store after : Store σ} {result : Except Error Unit} (hholds : contract.holds i graph store)
    (hresult : interp.runNodes runGraph nodes store = some (result, after)) :
    contract.Ends i graph result after := by
  induction nodes generalizing store with
  | nil =>
    cases hresult
    exact hholds
  | cons node rest ih =>
    obtain ⟨hnode, hrest⟩ := List.forall_mem_cons.1 hnodes
    rw [Interpreter.runNodes] at hresult
    split at hresult
    · rename_i hmem
      exact ih hrest (h.skip hholds hmem) hresult
    · rename_i hmem
      split at hresult
      · rename_i e hargs
        cases hresult
        exact h.unread hnode hholds hargs
      · rename_i args hargs
        split at hresult
        · cases hresult
        · rename_i e mid heval
          cases hresult
          exact h.evaluate hnode hholds hmem hargs hrun heval
        · rename_i range mid heval
          exact ih hrest (h.evaluate hnode hholds hmem hargs hrun heval) hresult

/-- What every step keeps, a run keeps. -/
theorem run (h : interp.Obeys contract) (levels : Nat) : contract.KeptBy (interp.run levels) := by
  induction levels with
  | zero =>
    intro i graph store result after _ hresult
    cases hresult
  | succ levels ih =>
    intro i graph store result after hholds hresult
    exact h.runNodes ih (fun _ hnode => hnode) hholds hresult

end Interpreter.Obeys

end LoopBounds
