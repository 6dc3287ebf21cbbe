/-
The search for dependents finds the ends of paths.

A path goes from an id to one of its readers that is not skipped, from there to
one of its readers, and so on (`Users.Path`); the id it starts from may be one that
is skipped. The search finds exactly the seeds and the ends of paths from them,
whatever cycles there are (`dependents_exact`). As paths only ask who the readers
of an id are, neither the order of the seeds nor that of the readers counts.
-/
import LoopBounds.Proofs.Dependents
import Mathlib.Data.List.Chain

namespace LoopBounds

namespace Users

variable {users : Users} {skip : NodeId → Bool} {start id : NodeId}

/-- Each id is a reader of the one before it, the first one a reader of the start, and none of them
is skipped. -/
def Path (users : Users) (skip : NodeId → Bool) (start : NodeId) (path : List NodeId) : Prop :=
  (start :: path).IsChain fun id reader => reader ∈ users.of id ∧ skip reader = false

theorem path_singleton {reader : NodeId} (hreader : reader ∈ users.of start)
    (hskip : skip reader = false) : users.Path skip start [reader] :=
  List.isChain_cons_cons.2 ⟨⟨hreader, hskip⟩, List.isChain_singleton _⟩

/-- A path goes on to a reader of its end. -/
theorem Path.concat {path : List NodeId} {reader : NodeId} (h : users.Path skip start path)
    (hlast : path.getLast? = some id) (hreader : reader ∈ users.of id)
    (hskip : skip reader = false) : users.Path skip start (path ++ [reader]) := by
  refine List.IsChain.append h (List.isChain_singleton _) ?_
  intro last hmem next hnext
  have hid : last = id := by
    rw [List.getLast?_cons, hlast] at hmem
    simpa using hmem.symm
  have hnext : next = reader := by simpa using hnext.symm
  rw [hid, hnext]
  exact ⟨hreader, hskip⟩

/-- What is computed from an id is the id itself or the end of a path. -/
theorem leads_iff_exists_path : users.Leads skip start id ↔
    id = start ∨ ∃ path, users.Path skip start path ∧ path.getLast? = some id := by
  constructor
  · intro h
    induction h with
    | start => exact Or.inl rfl
    | @step id reader _ hreader hskip ih =>
      rcases ih with rfl | ⟨path, hpath, hlast⟩
      · exact Or.inr ⟨[reader], path_singleton hreader hskip, rfl⟩
      · exact Or.inr ⟨path ++ [reader], hpath.concat hlast hreader hskip, by simp⟩
  · rintro (rfl | ⟨path, hpath, hlast⟩)
    · exact .start
    · -- all ids along the path are computed from its start
      refine List.IsChain.cons_induction (users.Leads skip start) path hpath ?_ .start id
        (List.mem_of_getLast? hlast)
      intro id reader hreader hleads
      exact hleads.step hreader.1 hreader.2

/-- The search depends only on which ids are seeds, and which are readers of an id. -/
theorem dependentsAvoiding_congr {other : Users} {seeds seeds' : List NodeId}
    (husers : ∀ id reader, reader ∈ other.of id ↔ reader ∈ users.of id)
    (hseeds : ∀ id, id ∈ seeds' ↔ id ∈ seeds) :
    other.dependentsAvoiding skip seeds' = users.dependentsAvoiding skip seeds := by
  have hleads : ∀ seed id, other.Leads skip seed id ↔ users.Leads skip seed id := by
    intro seed id
    rw [leads_iff_exists_path, leads_iff_exists_path]
    simp only [Path, husers]
  refine Std.ExtTreeSet.ext_mem fun id => ?_
  rw [mem_dependentsAvoiding_iff, mem_dependentsAvoiding_iff]
  simp only [hseeds, hleads]

end Users

/-- **The search is exact.** For any readers, be there cycles, loops or repetitions, and any seeds
and ids to skip, the search ends with the seeds and the ends of paths from them, along which nothing
is skipped. It does not depend on the order of the seeds or of the readers, nor on how often one is
listed. A seed is found even if it is one to skip, and so are its readers. -/
theorem dependents_exact (users : Users) (skip : NodeId → Bool) (seeds : List NodeId) :
    (∀ id, id ∈ users.dependentsAvoiding skip seeds ↔ id ∈ seeds ∨
      ∃ seed ∈ seeds, ∃ path, users.Path skip seed path ∧ path.getLast? = some id) ∧
    (∀ (other : Users) (seeds' : List NodeId),
      (∀ id reader, reader ∈ other.of id ↔ reader ∈ users.of id) →
      (∀ id, id ∈ seeds' ↔ id ∈ seeds) →
      other.dependentsAvoiding skip seeds' = users.dependentsAvoiding skip seeds) ∧
    ∀ seed ∈ seeds, seed ∈ users.dependentsAvoiding skip seeds ∧
      ∀ reader ∈ users.of seed, skip reader = false →
        reader ∈ users.dependentsAvoiding skip seeds := by
  have hexact : ∀ id, id ∈ users.dependentsAvoiding skip seeds ↔ id ∈ seeds ∨
      ∃ seed ∈ seeds, ∃ path, users.Path skip seed path ∧ path.getLast? = some id := by
    intro id
    rw [Users.mem_dependentsAvoiding_iff]
    simp only [Users.leads_iff_exists_path, and_or_left, exists_or, exists_eq_right']
  refine ⟨hexact, fun _ _ => Users.dependentsAvoiding_congr, fun seed hseed => ⟨?_, ?_⟩⟩
  · exact (hexact seed).2 (Or.inl hseed)
  · intro reader hreader hskip
    have hpath := Users.path_singleton hreader hskip
    exact (hexact reader).2 (Or.inr ⟨seed, hseed, [reader], hpath, rfl⟩)

/-- A cycle with a loop and a repeated reader; one of the readers on it leads out of it. -/
def circular : Users :=
  .ofList [(0, [1, 0, 1]), (1, [2, 3]), (2, [0]), (3, [4]), (4, [2, 5])]

/-- The id `3` is skipped as a reader but is a seed, so the search goes on from there; at `2` it
does not. -/
theorem dependents_exact_circular :
    4 ∈ circular.dependentsAvoiding (· ∈ [2, 3]) [3, 0, 3] ∧
    5 ∈ circular.dependentsAvoiding (· ∈ [2, 3]) [3, 0, 3] ∧
    2 ∉ circular.dependentsAvoiding (· ∈ [2, 3]) [3, 0, 3] ∧
    Users.dependentsAvoiding (circular.insert 0 [0, 1]) (· ∈ [2, 3]) [0, 3] =
      circular.dependentsAvoiding (· ∈ [2, 3]) [3, 0, 3] := by
  obtain ⟨hexact, hcongr, hseed⟩ := dependents_exact circular (· ∈ [2, 3]) [3, 0, 3]
  have hpath : circular.Path (· ∈ [2, 3]) 3 [4, 5] := by
    refine List.isChain_cons_cons.2 ⟨by decide, List.isChain_cons_cons.2 ⟨by decide, ?_⟩⟩
    exact List.isChain_singleton _
  refine ⟨(hseed 3 (by decide)).2 4 (by decide) (by decide), ?_, by decide +kernel, ?_⟩
  · exact (hexact 5).2 (Or.inr ⟨3, by decide, [4, 5], hpath, rfl⟩)
  · refine hcongr _ _ ?_ (by simp)
    intro id reader
    by_cases hid : id = 0
    · subst hid
      have hreaders : circular.of 0 = [1, 0, 1] := by decide
      rw [hreaders, Users.of, Std.ExtTreeMap.getElem?_insert_self]
      simpa using Or.inr
    · simp [Users.of, Std.ExtTreeMap.getElem?_insert, Ne.symm hid]

end LoopBounds
