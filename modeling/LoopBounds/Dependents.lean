/-
Dependents: the nodes whose value is computed from given ones.

`Users.Leads` says that a node is computed from another one.
`Users.dependents` follows the readers of the seeds, their readers, and so on.
`Users.dependentsAvoiding` does the same but neither takes nor passes through
the readers that it is told to skip; the seeds themselves are always taken.

The search visits ids one at a time from a list of ids still to visit. It ends
since every visit of a node with readers uses up the cost of that node, which
covers the readers it adds to the list.
-/
import LoopBounds.Body
import Std.Data.ExtTreeSet

namespace LoopBounds

/-- A set of node ids. -/
abbrev NodeSet := Std.ExtTreeSet NodeId

namespace Users

/-- A node is computed from another along readers that are not skipped, the first node apart. -/
inductive Leads (users : Users) (skip : NodeId → Bool) (start : NodeId) : NodeId → Prop where
  | start : Leads users skip start start
  | step {id reader : NodeId} : Leads users skip start id → reader ∈ users.of id →
      skip reader = false → Leads users skip start reader

/-- What a node with readers can still add to the search: its readers and itself, until it is
visited. -/
def cost (seen : NodeSet) (entry : NodeId × List NodeId) : Nat :=
  if entry.1 ∈ seen then 0 else entry.2.length + 1

/-- What all nodes with readers can still add to the search. -/
def weight (seen : NodeSet) : List (NodeId × List NodeId) → Nat
  | [] => 0
  | entry :: rest => cost seen entry + weight seen rest

/-- What was visited stays visited. -/
theorem cost_insert_le (seen : NodeSet) (id : NodeId) (entry : NodeId × List NodeId) :
    cost (seen.insert id) entry ≤ cost seen entry := by
  by_cases hseen : entry.1 ∈ seen
  · have hafter : entry.1 ∈ seen.insert id := Std.ExtTreeSet.mem_insert.2 (Or.inr hseen)
    rw [cost, if_pos hafter]
    exact Nat.zero_le _
  · rw [cost, cost, if_neg hseen]
    split
    · exact Nat.zero_le _
    · exact Nat.le_refl _

/-- A visit uses up the cost of the node. -/
theorem cost_insert_self {seen : NodeSet} {id : NodeId} (readers : List NodeId) (hnew : id ∉ seen) :
    cost (seen.insert id) (id, readers) + (readers.length + 1) = cost seen (id, readers) := by
  have hafter : id ∈ seen.insert id := Std.ExtTreeSet.mem_insert_self
  rw [cost, cost, if_pos hafter, if_neg hnew, Nat.zero_add]

theorem weight_insert_le (seen : NodeSet) (id : NodeId) (entries : List (NodeId × List NodeId)) :
    weight (seen.insert id) entries ≤ weight seen entries := by
  induction entries with
  | nil => exact Nat.le_refl _
  | cons entry rest ih => exact Nat.add_le_add (cost_insert_le seen id entry) ih

theorem weight_insert_lt {seen : NodeSet} {id : NodeId} {readers : List NodeId}
    {entries : List (NodeId × List NodeId)} (hmem : (id, readers) ∈ entries) (hnew : id ∉ seen) :
    weight (seen.insert id) entries + readers.length < weight seen entries := by
  induction entries with
  | nil => cases hmem
  | cons entry rest ih =>
    rw [weight, weight]
    rcases List.mem_cons.1 hmem with rfl | hrest
    · have hfirst := cost_insert_self readers hnew
      have hle := weight_insert_le seen id rest
      omega
    · have hle := cost_insert_le seen id entry
      have hlt := ih hrest
      omega

/-- The readers that are not skipped. -/
def admitted (skip : NodeId → Bool) (readers : List NodeId) : List NodeId :=
  readers.filter (!skip ·)

theorem length_admitted_le (skip : NodeId → Bool) (readers : List NodeId) :
    (admitted skip readers).length ≤ readers.length :=
  List.length_filter_le _ _

/-- Visits the ids of the list, and the readers they lead to, that are not yet in `seen`. -/
def visit (users : Users) (skip : NodeId → Bool) (seen : NodeSet) : List NodeId → NodeSet
  | [] => seen
  | id :: rest =>
    if id ∈ seen then visit users skip seen rest
    else
      -- the look-up is kept as a hypothesis: its readers are part of the weight
      match _readers : users[id]? with
      | none => visit users skip (seen.insert id) rest
      | some readers => visit users skip (seen.insert id) (admitted skip readers ++ rest)
termination_by pending => weight seen users.toList + pending.length
decreasing_by
  · simp
  · have := weight_insert_le seen id users.toList
    simp
    omega
  · have := weight_insert_lt (Std.ExtTreeMap.mem_toList_iff_getElem?_eq_some.2 ‹_›) ‹_›
    have := length_admitted_le skip readers
    simp
    omega

/-- The seeds and all nodes computed from them along readers that are not skipped. -/
def dependentsAvoiding (users : Users) (skip : NodeId → Bool) (seeds : List NodeId) : NodeSet :=
  users.visit skip ∅ seeds

/-- The seeds and all nodes computed from them. -/
def dependents (users : Users) (seeds : List NodeId) : NodeSet :=
  users.dependentsAvoiding (fun _ => false) seeds

end Users

end LoopBounds
