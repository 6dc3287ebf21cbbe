/-
What the search for dependents finds.

The search finds exactly the seeds and what is computed from them along readers
that are not skipped (`Users.mem_dependentsAvoiding_iff`).

* Each node found is computed from a seed: this holds of the ids visited and of
  those still to visit at every step (`leads_of_mem_visit`).
* No node is missed: the admitted readers of a visited id are visited or still to
  visit, so in the end they are all visited (`reader_mem_visit`).

`Body.mem_users_iff` says where the readers of a body come from.
-/
import LoopBounds.Dependents

namespace LoopBounds

theorem NodeSet.mem_insert {seen : NodeSet} {id other : NodeId} :
    other ∈ seen.insert id ↔ id = other ∨ other ∈ seen := by
  rw [Std.ExtTreeSet.mem_insert, Std.LawfulEqCmp.compare_eq_iff_eq]

theorem NodeSet.forall_mem_insert {seen : NodeSet} {id : NodeId} {p : NodeId → Prop} (hid : p id)
    (hseen : ∀ other ∈ seen, p other) : ∀ other ∈ seen.insert id, p other := by
  intro other hother
  rcases mem_insert.1 hother with rfl | hold
  · exact hid
  · exact hseen other hold

namespace Users

theorem leads_of_mem_visit {users : Users} {skip : NodeId → Bool} {seeds : List NodeId}
    {seen : NodeSet} {pending : List NodeId}
    (hseen : ∀ id ∈ seen, ∃ seed ∈ seeds, users.Leads skip seed id)
    (hpending : ∀ id ∈ pending, ∃ seed ∈ seeds, users.Leads skip seed id) :
    ∀ id ∈ users.visit skip seen pending, ∃ seed ∈ seeds, users.Leads skip seed id := by
  fun_induction visit users skip seen pending with
  | case1 seen => exact hseen
  | case2 seen id rest hmem ih =>
    refine ih hseen ?_
    intro other hother
    exact hpending other (List.mem_cons_of_mem _ hother)
  | case3 seen id rest hmem hreaders ih =>
    refine ih (NodeSet.forall_mem_insert (hpending id List.mem_cons_self) hseen) ?_
    intro other hother
    exact hpending other (List.mem_cons_of_mem _ hother)
  | case4 seen id rest hmem readers hreaders ih =>
    have hid := hpending id List.mem_cons_self
    refine ih (NodeSet.forall_mem_insert hid hseen) ?_
    intro other hother
    rcases List.mem_append.1 hother with hreader | hrest
    · obtain ⟨seed, hseed, hleads⟩ := hid
      obtain ⟨hmem, hskip⟩ := List.mem_filter.1 hreader
      refine ⟨seed, hseed, hleads.step ?_ (by simpa using hskip)⟩
      rw [of, hreaders]
      exact hmem
    · exact hpending other (List.mem_cons_of_mem _ hrest)

/-- To visit an id loses no other one that is still to visit. -/
theorem known_insert {seen : NodeSet} {first id : NodeId} {rest : List NodeId}
    (more : List NodeId) (h : id ∈ seen ∨ id ∈ first :: rest) :
    id ∈ seen.insert first ∨ id ∈ more ++ rest := by
  rw [NodeSet.mem_insert]
  rcases h with hseen | hpending
  · exact Or.inl (Or.inr hseen)
  · rcases List.mem_cons.1 hpending with rfl | hrest
    · exact Or.inl (Or.inl rfl)
    · exact Or.inr (List.mem_append_right _ hrest)

/-- Nor is anything lost if an id that was visited before is dropped. -/
theorem known_drop {seen : NodeSet} {first id : NodeId} {rest : List NodeId} (hmem : first ∈ seen)
    (h : id ∈ seen ∨ id ∈ first :: rest) : id ∈ seen ∨ id ∈ rest := by
  rcases h with hseen | hpending
  · exact Or.inl hseen
  · rcases List.mem_cons.1 hpending with rfl | hrest
    · exact Or.inl hmem
    · exact Or.inr hrest

/-- What was visited, or is still to visit, is visited in the end. -/
theorem mem_visit {users : Users} {skip : NodeId → Bool} {seen : NodeSet} {pending : List NodeId}
    {id : NodeId} (h : id ∈ seen ∨ id ∈ pending) : id ∈ users.visit skip seen pending := by
  fun_induction visit users skip seen pending with
  | case1 seen => simpa using h
  | case2 seen first rest hmem ih => exact ih (known_drop hmem h)
  | case3 seen first rest hmem hreaders ih => exact ih (known_insert [] h)
  | case4 seen first rest hmem readers hreaders ih => exact ih (known_insert _ h)

/-- If the admitted readers of all visited ids are visited or still to visit, then all of them are
visited in the end. -/
theorem reader_mem_visit {users : Users} {skip : NodeId → Bool} {seen : NodeSet}
    {pending : List NodeId}
    (hseen : ∀ id ∈ seen, ∀ reader ∈ users.of id, skip reader = false →
      reader ∈ seen ∨ reader ∈ pending) :
    ∀ id ∈ users.visit skip seen pending, ∀ reader ∈ users.of id, skip reader = false →
      reader ∈ users.visit skip seen pending := by
  fun_induction visit users skip seen pending with
  | case1 seen =>
    intro id hid reader hreader hskip
    simpa using hseen id hid reader hreader hskip
  | case2 seen first rest hmem ih =>
    refine ih ?_
    intro id hid reader hreader hskip
    exact known_drop hmem (hseen id hid reader hreader hskip)
  | case3 seen first rest hmem hreaders ih =>
    refine ih (NodeSet.forall_mem_insert ?_ ?_)
    · -- an id without readers asks for none
      intro reader hreader
      simp [of, hreaders] at hreader
    · intro id hid reader hreader hskip
      exact known_insert [] (hseen id hid reader hreader hskip)
  | case4 seen first rest hmem readers hreaders ih =>
    refine ih (NodeSet.forall_mem_insert ?_ ?_)
    · intro reader hreader hskip
      refine Or.inr (List.mem_append_left _ (List.mem_filter.2 ⟨?_, by simpa using hskip⟩))
      simpa [of, hreaders] using hreader
    · intro id hid reader hreader hskip
      exact known_insert _ (hseen id hid reader hreader hskip)

/-- The search finds exactly what is computed from the seeds along readers that are not skipped. -/
theorem mem_dependentsAvoiding_iff {users : Users} {skip : NodeId → Bool} {seeds : List NodeId}
    {id : NodeId} : id ∈ users.dependentsAvoiding skip seeds ↔
      ∃ seed ∈ seeds, users.Leads skip seed id := by
  constructor
  · exact leads_of_mem_visit (fun _ hmem => absurd hmem Std.ExtTreeSet.not_mem_empty)
      (fun seed hseed => ⟨seed, hseed, .start⟩) id
  · rintro ⟨seed, hseed, hleads⟩
    induction hleads with
    | start => exact mem_visit (Or.inr hseed)
    | step _ hreader hskip ih =>
      exact reader_mem_visit (fun _ hmem => absurd hmem Std.ExtTreeSet.not_mem_empty) _ ih _
        hreader hskip

theorem mem_add_iff {users : Users} {input reader id other : NodeId} :
    other ∈ (users.add input reader).of id ↔ other ∈ users.of id ∨ other = reader ∧ id = input := by
  unfold add
  by_cases heq : id = input
  · subst heq
    split
    · rename_i hmem
      constructor
      · exact Or.inl
      · rintro (hold | ⟨rfl, -⟩)
        · exact hold
        · exact hmem
    · simp [of]
  · split
    · simp [heq]
    · simp [of, Std.ExtTreeMap.getElem?_insert, heq, Ne.symm heq]

end Users

namespace Body

theorem mem_foldl_inputs_iff {users : Users} {reader id other : NodeId} {inputs : List NodeId} :
    other ∈ (inputs.foldl (·.add · reader) users).of id ↔
      other ∈ users.of id ∨ other = reader ∧ id ∈ inputs := by
  induction inputs generalizing users with
  | nil => simp
  | cons input rest ih =>
    rw [List.foldl_cons, ih, Users.mem_add_iff, List.mem_cons, or_assoc, ← and_or_left]

/-- The readers of a node are the ids of the nodes of the body that have it among their inputs. -/
theorem mem_users_iff {body : Body} {id reader : NodeId} : reader ∈ body.users.of id ↔
    ∃ node ∈ body.nodes, node.id = reader ∧ id ∈ node.inputs := by
  have hfold : ∀ (nodes : List Node) (users : Users),
      reader ∈ (nodes.foldl (fun users node => node.inputs.foldl (·.add · node.id) users)
        users).of id ↔
      reader ∈ users.of id ∨ ∃ node ∈ nodes, node.id = reader ∧ id ∈ node.inputs := by
    intro nodes
    induction nodes with
    | nil => simp
    | cons node rest ih =>
      intro users
      rw [List.foldl_cons, ih, mem_foldl_inputs_iff, or_assoc, eq_comm (a := reader)]
      simp only [List.mem_cons, exists_eq_or_imp]
  rw [users, hfold]
  simp [Users.of]

end Body

end LoopBounds
