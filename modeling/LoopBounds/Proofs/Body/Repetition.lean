/-
Subblocks that are run more than once.

A subblock is `Repeated` if two nodes refer to it, or if a node of a repeated
subblock does. Where every subblock is referred to at most once
(`Body.ReferredOnce`) none is repeated.

Chains of references to a block that is not repeated all have one length
(`chain_length_unique`): going back along them, there is only one node to come
from, and it lies in a block that is not repeated either.
-/
import LoopBounds.Body.Reference
import LoopBounds.Proofs.Body.Identity

namespace LoopBounds

/-- The subblock that a masked node refers to. -/
def Node.subblock? (node : Node) : Option Nat :=
  match node.target with
  | .maskedSubblock index => some index
  | _ => none

theorem Node.subblock?_eq_some {node : Node} {index : Nat} :
    node.subblock? = some index ↔ node.target = .maskedSubblock index := by
  unfold subblock?
  split
  · rename_i heq
    rw [heq, Option.some_inj, Target.maskedSubblock.injEq]
  · rename_i hne
    constructor
    · intro h
      cases h
    · intro h
      exact absurd h (hne index)

namespace Body

/-- No two masked nodes of the body refer to the same subblock. -/
def ReferredOnce (body : Body) : Prop :=
  (body.nodes.filterMap Node.subblock?).Nodup

instance (body : Body) : Decidable body.ReferredOnce :=
  inferInstanceAs (Decidable (List.Nodup _))

/-- The subblock may be run more than once. -/
inductive Repeated (body : Body) : Nat → Prop where
  /-- Two nodes refer to it. -/
  | shared {m n : Node} {index : Nat} : m ∈ body.nodes → n ∈ body.nodes →
      m.target = .maskedSubblock index → n.target = .maskedSubblock index → m ≠ n →
      Repeated body index
  /-- A node of a repeated subblock refers to it. -/
  | nested {n : Node} {outer index : Nat} : Repeated body outer →
      body.Has (.subblock outer) n → n.target = .maskedSubblock index → Repeated body index

/-- A block other than the root that may be run more than once. -/
def RepeatedBlock (body : Body) : Block → Prop
  | .root => False
  | .subblock index => body.Repeated index

variable {body : Body}

theorem eq_of_nodup_filterMap {α β : Type} {f : α → Option β} {l : List α} {x y : α} {z : β}
    (h : (l.filterMap f).Nodup) (hx : x ∈ l) (hy : y ∈ l) (hfx : f x = some z)
    (hfy : f y = some z) : x = y := by
  induction l with
  | nil => cases hx
  | cons a l ih =>
    -- the value of the head is not one of the tail's
    have htail {w : α} (hw : w ∈ l) (hfw : f w = some z) (hfa : f a = some z) : False := by
      rw [List.filterMap_cons_some hfa, List.nodup_cons] at h
      exact h.1 (List.mem_filterMap.2 ⟨w, hw, hfw⟩)
    have hrest : (l.filterMap f).Nodup :=
      h.sublist ((List.sublist_cons_self a l).filterMap f)
    rcases List.mem_cons.1 hx with rfl | hxl
    · rcases List.mem_cons.1 hy with rfl | hyl
      · rfl
      · exact (htail hyl hfy hfx).elim
    · rcases List.mem_cons.1 hy with rfl | hyl
      · exact (htail hxl hfx hfy).elim
      · exact ih hrest hxl hyl

theorem ReferredOnce.eq (h : body.ReferredOnce) {m n : Node} {index : Nat} (hm : m ∈ body.nodes)
    (hn : n ∈ body.nodes) (hmt : m.target = .maskedSubblock index)
    (hnt : n.target = .maskedSubblock index) : m = n :=
  eq_of_nodup_filterMap h hm hn (Node.subblock?_eq_some.2 hmt) (Node.subblock?_eq_some.2 hnt)

theorem ReferredOnce.not_repeated (h : body.ReferredOnce) (index : Nat) :
    ¬ body.Repeated index := by
  intro hrep
  induction hrep with
  | shared hm hn hmt hnt hne => exact hne (h.eq hm hn hmt hnt)
  | nested _ _ _ ih => exact ih

/-- The subblocks that a repeated block refers to are repeated. -/
theorem RepeatedBlock.nested {block : Block} {n : Node} {index : Nat}
    (h : body.RepeatedBlock block) (hn : body.Has block n)
    (hnt : n.target = .maskedSubblock index) : body.RepeatedBlock (.subblock index) := by
  cases block with
  | root => exact h.elim
  | subblock outer => exact Repeated.nested h hn hnt

/-! ### Chains of references -/

theorem refers_iff {block : Block} {index : Nat} : body.Refers block index ↔
    index < body.subblocks.length ∧
      ∃ node, body.Has block node ∧ node.target = .maskedSubblock index := by
  unfold Refers Graph.references
  refine and_congr_right fun _ => ?_
  constructor
  · rintro ⟨graph, hgraph, hmem⟩
    obtain ⟨node, hnode, hindex⟩ := List.mem_filterMap.1 hmem
    exact ⟨node, ⟨graph, hgraph, hnode⟩, Node.subblock?_eq_some.1 hindex⟩
  · rintro ⟨node, ⟨graph, hgraph, hnode⟩, htarget⟩
    exact ⟨graph, hgraph, List.mem_filterMap.2 ⟨node, hnode, Node.subblock?_eq_some.2 htarget⟩⟩

/-- A node of a block takes a chain to that block on to the subblock it refers to. -/
theorem Chain.enter {start block : Block} {links index : Nat} {node : Node} {graph : Graph}
    (h : body.Chain start links block) (hnode : body.Has block node)
    (htarget : node.target = .maskedSubblock index) (hgraph : body.subblocks[index]? = some graph) :
    body.Chain start (links + 1) (.subblock index) :=
  h.link (refers_iff.2 ⟨(List.getElem?_eq_some_iff.1 hgraph).1, node, hnode, htarget⟩)

/-- Where a subblock refers only to those of smaller numbers, a chain has no more links than there
are subblocks. -/
theorem Chain.links_le {block : Block} {links : Nat} (h : body.Chain .root links block)
    (hdown : ∀ outer index, body.Refers (.subblock outer) index → index < outer) :
    links ≤ body.subblocks.length := by
  have hend : block = .root ∧ links = 0 ∨
      ∃ index, block = .subblock index ∧ links + index ≤ body.subblocks.length := by
    induction h with
    | start => exact Or.inl ⟨rfl, rfl⟩
    | @link links _ index _ href ih =>
      refine Or.inr ⟨index, rfl, ?_⟩
      rcases ih with ⟨rfl, rfl⟩ | ⟨outer, rfl, hle⟩
      · have := href.1
        omega
      · have := hdown outer index href
        omega
  rcases hend with ⟨-, rfl⟩ | ⟨index, -, hle⟩
  · exact Nat.zero_le _
  · omega

/-- All nodes that refer to a subblock that is not repeated are one. -/
theorem eq_of_not_repeated {index : Nat} (h : ¬ body.Repeated index) {m n : Node}
    (hm : m ∈ body.nodes) (hn : n ∈ body.nodes) (hmt : m.target = .maskedSubblock index)
    (hnt : n.target = .maskedSubblock index) : m = n := by
  by_contra hne
  exact h (.shared hm hn hmt hnt hne)

/-- A block with a node that refers to a subblock that is not repeated is not repeated. -/
theorem not_repeatedBlock {index : Nat} (h : ¬ body.Repeated index) {block : Block} {n : Node}
    (hn : body.Has block n) (hnt : n.target = .maskedSubblock index) :
    ¬ body.RepeatedBlock block := by
  intro hrep
  exact h (hrep.nested hn hnt)

theorem chain_length_unique (hids : body.DistinctIds) {block : Block} {k l : Nat}
    (hk : body.Chain .root k block) (hl : body.Chain .root l block)
    (hrep : ¬ body.RepeatedBlock block) : k = l := by
  induction hk generalizing l with
  | start =>
    cases hl
    rfl
  | @link k b index hk href ih =>
    cases hl with
    | @link l c _ hl href' =>
      obtain ⟨-, m, hm, hmt⟩ := refers_iff.1 href
      obtain ⟨-, n, hn, hnt⟩ := refers_iff.1 href'
      have hmn : m = n := eq_of_not_repeated hrep hm.mem_nodes hn.mem_nodes hmt hnt
      have hbc : b = c := hids.block_eq hm hn (by rw [hmn])
      subst hbc
      rw [ih hl (not_repeatedBlock hrep hm hmt)]

end Body

end LoopBounds
