/-
Ids name the nodes that were asked for.

Bodies are made by calls of `push` and of the functions that add nodes of one kind,
each of which pushes a node or, for the value of an index, two of them
(`Builder.Addition`). Nothing but pushes happens there, so what is made this way is
a body of a builder like any other (`built_afterRequests`).

The nodes that were added, with their blocks and in order, are the ledger of a
builder (`Builder.Ledger`): every graph holds the nodes entered for its block, in
that order, and the ids of the entries increase. A call that is answered appends
what it asks for, and a refused one uses up an id and appends nothing
(`Ledger.request`). All that `node_ids_unique` says about ids is read off the
ledger.
-/
import LoopBounds.Proofs.Body.Identity

namespace LoopBounds

namespace Body

variable {body after : Body} {block : Block} {graph : Graph} {node : Node}

/-- To add a node to a block appends it there and leaves all other blocks as they are. -/
theorem graph?_addNode (h : body.addNode node block = .ok after) (other : Block) :
    after.graph? other = (body.graph? other).map fun graph =>
      if other = block then ⟨graph.nodes ++ [node]⟩ else graph := by
  cases block with
  | root =>
    cases h
    cases other <;> simp [graph?]
  | subblock index =>
    simp only [addNode] at h
    split at h
    · rename_i graph hgraph
      cases h
      cases other with
      | root => simp [graph?]
      | subblock i =>
        by_cases hi : i = index
        · subst hi
          obtain ⟨hlt, rfl⟩ := List.getElem?_eq_some_iff.1 hgraph
          simp [graph?, hlt]
        · simp [graph?, List.getElem?_set_ne (Ne.symm hi), hi]
    · cases h

theorem exists_addNode (node : Node) (h : (body.graph? block).isSome) :
    ∃ after, body.addNode node block = .ok after := by
  cases block with
  | root => exact ⟨_, rfl⟩
  | subblock index =>
    obtain ⟨graph, hgraph⟩ := Option.isSome_iff_exists.1 h
    have hgraph : body.subblocks[index]? = some graph := hgraph
    simp only [addNode, hgraph]
    exact ⟨_, rfl⟩

/-- Only a subblock can be missing, and the misuse names it. -/
theorem addNode_of_none (node : Node) (h : body.graph? block = none) :
    ∃ index, block = .subblock index ∧
      body.addNode node block = .error (.unopenedSubblock index) := by
  cases block with
  | root => cases h
  | subblock index =>
    have hnone : body.subblocks[index]? = none := h
    simp only [addNode, hnone]
    exact ⟨index, rfl, rfl⟩

/-- Where ids are distinct, a node is found by its id. -/
theorem DistinctIds.node?_eq (h : body.DistinctIds) (hnode : node ∈ body.nodes) :
    body.node? node.id = some node := by
  have hfound : (body.node? node.id).isSome := by
    rw [node?, List.find?_isSome]
    exact ⟨node, hnode, by simp⟩
  obtain ⟨m, hm⟩ := Option.isSome_iff_exists.1 hfound
  have hid : m.id = node.id := by simpa using List.find?_some hm
  rw [hm, h.eq_of_id_eq (List.mem_of_find?_eq_some hm) hnode hid]

/-- The node lies in the block and nowhere else, no other node has its id, and it is found by it. -/
structure Names (body : Body) (block : Block) (node : Node) : Prop where
  has : body.Has block node
  only : ∀ other m, body.Has other m → m.id = node.id → other = block ∧ m = node
  found : body.node? node.id = some node

theorem DistinctIds.names (h : body.DistinctIds) (hnode : body.Has block node) :
    body.Names block node where
  has := hnode
  only _ _ hother hid :=
    ⟨h.block_eq hother hnode hid, h.eq_of_id_eq hother.mem_nodes hnode.mem_nodes hid⟩
  found := h.node?_eq hnode.mem_nodes

end Body

namespace Builder

/-! ### Calls that add nodes -/

/-- A call that adds a node and answers its id. -/
inductive Addition where
  | push (block : Block) (target : Target) (args : List Operand)
  | op (block : Block) (name : String) (args : List NodeId)
  | constant (block : Block) (value : Int)
  | getIndex (block : Block) (name : String)
  | indexValue (block : Block) (name : String)
  | load (block : Block) (buffer : String) (index : NodeId)
  | reduction (block : Block) (value : NodeId)
  | setIndirect (block : Block) (index : Nat) (value : NodeId)
  | maskedSubblock (block : Block) (index : Nat) (mask : NodeId) (other : Int)
  | output (block : Block) (value : NodeId)

namespace Addition

/-- What the call does. -/
def action : Addition → Build NodeId
  | .push block target args => Build.push block target args
  | .op block name args => Build.op block name args
  | .constant block value => Build.constant block value
  | .getIndex block name => Build.getIndex block name
  | .indexValue block name => Build.indexValue block name
  | .load block buffer index => Build.load block buffer index
  | .reduction block value => Build.reduction block value
  | .setIndirect block index value => Build.setIndirect block index value
  | .maskedSubblock block index mask other => Build.maskedSubblock block index mask other
  | .output block value => Build.output block value

/-- The block that the call asks for. -/
def block : Addition → Block
  | .push block .. | .op block .. | .constant block _ | .getIndex block _ | .indexValue block _
  | .load block .. | .reduction block _ | .setIndirect block .. | .maskedSubblock block ..
  | .output block _ => block

/-- The nodes that the call asks for, from the next id on. It answers the id of the last one. -/
def nodes (first : NodeId) : Addition → List Node
  | .push _ target args => [⟨first, target, args⟩]
  | .op _ name args => [⟨first, .op name, args.map .node⟩]
  | .constant _ value => [⟨first, .op "constant", [.int value]⟩]
  | .getIndex _ name => [⟨first, .getIndex, [.name name]⟩]
  | .indexValue _ name =>
    [⟨first, .getIndex, [.name name]⟩, ⟨first + 1, .op "index_expr", [.node first]⟩]
  | .load _ buffer index => [⟨first, .load, [.name buffer, .node index]⟩]
  | .reduction _ value => [⟨first, .reduction, [.node value]⟩]
  | .setIndirect _ index value => [⟨first, .setIndirect index, [.node value]⟩]
  | .maskedSubblock _ index mask other =>
    [⟨first, .maskedSubblock index, [.node mask, .int other]⟩]
  | .output _ value => [⟨first, .output, [.node value]⟩]

/-- The nodes of a call are numbered one after the other. -/
theorem ids_eq (addition : Addition) (first : NodeId) :
    (addition.nodes first).map Node.id = List.range' first (addition.nodes first).length := by
  cases addition <;> rfl

end Addition

/-- A call on a builder, by any of its functions. -/
inductive Request where
  | varRange (var : Symbol) (upper : Expr)
  | indexExpr (name : String) (expr : Expr)
  | indirectVar (var : Symbol)
  | subblock
  | add (addition : Addition)

/-- The builder after a call, be it answered or refused. -/
def Request.after (builder : Builder) : Request → Builder
  | .varRange var upper => ((Build.varRange var upper).runOn builder).2
  | .indexExpr name expr => ((Build.indexExpr name expr).runOn builder).2
  | .indirectVar var => ((Build.indirectVar var).runOn builder).2
  | .subblock => (Build.subblock.runOn builder).2
  | .add addition => (addition.action.runOn builder).2

/-- The builder after calls on a new one. -/
def afterRequests (requests : List Request) : Builder :=
  requests.foldl Request.after {}

/-- Among calls on a builder, this one was made when the builder had become the other one. -/
def Makes (builder : Builder) (requests : List Request) (addition : Addition)
    (before : Builder) : Prop :=
  ∃ earlier later, requests = earlier ++ .add addition :: later ∧
    earlier.foldl Request.after builder = before

/-- The number of pushes that a call makes. After one that is refused it makes no other. -/
def Request.pushes (builder : Builder) : Request → Nat
  | .add addition =>
    if (builder.body.graph? addition.block).isSome then (addition.nodes builder.nextId).length
    else 1
  | _ => 0

/-- The number of pushes that calls make. -/
def pushes : Builder → List Request → Nat
  | _, [] => 0
  | builder, request :: rest => request.pushes builder + pushes (request.after builder) rest

/-- The nodes that a call adds, with their block. -/
def Request.granted (builder : Builder) : Request → List (Block × Node)
  | .add addition =>
    if (builder.body.graph? addition.block).isSome then
      (addition.nodes builder.nextId).map (addition.block, ·)
    else []
  | _ => []

/-- The nodes that calls add, with their blocks and in order. -/
def granted : Builder → List Request → List (Block × Node)
  | _, [] => []
  | builder, request :: rest => request.granted builder ++ granted (request.after builder) rest

/-! ### What a call does -/

/-- The second builder has further nodes at the end of a block, and used an id for each. -/
structure Extended (builder after : Builder) (block : Block) (nodes : List Node) : Prop where
  nextId : after.nextId = builder.nextId + nodes.length
  graph? : ∀ other, after.body.graph? other = (builder.body.graph? other).map fun graph =>
    if other = block then ⟨graph.nodes ++ nodes⟩ else graph

/-- What a call that adds nodes does: it adds them to its block and answers the last id, or it is
refused since there is no such block, and then all it does is to use up an id. -/
structure Adds (action : Build NodeId) (block : Block) (nodes : NodeId → List Node) : Prop where
  opened : ∀ builder : Builder, (builder.body.graph? block).isSome →
    ∃ id after, action.runOn builder = (.ok id, after) ∧
      Extended builder after block (nodes builder.nextId) ∧
      (nodes builder.nextId).getLast?.map Node.id = some id
  refused : ∀ builder : Builder, builder.body.graph? block = none →
    ∃ index, block = .subblock index ∧ action.runOn builder =
      (.error (.unopenedSubblock index), { builder with nextId := builder.nextId + 1 })

variable {builder after : Builder} {block : Block}

theorem Extended.isSome {nodes : List Node} (h : Extended builder after block nodes)
    (other : Block) : (after.body.graph? other).isSome = (builder.body.graph? other).isSome := by
  rw [h.graph?, Option.isSome_map]

theorem Extended.trans {final : Builder} {nodes more : List Node}
    (h : Extended builder after block nodes) (hmore : Extended after final block more) :
    Extended builder final block (nodes ++ more) where
  nextId := by
    rw [hmore.nextId, h.nextId, List.length_append, Nat.add_assoc]
  graph? other := by
    rw [hmore.graph?, h.graph?, Option.map_map]
    congr 1
    funext graph
    by_cases hother : other = block <;> simp [hother]

theorem adds_push (block : Block) (target : Target) (args : List Operand) :
    Adds (Build.push block target args) block fun first => [⟨first, target, args⟩] where
  opened builder hblock := by
    obtain ⟨body, hbody⟩ := Body.exists_addNode ⟨builder.nextId, target, args⟩ hblock
    refine ⟨builder.nextId, { body, nextId := builder.nextId + 1 }, ?_, ⟨rfl, ?_⟩, rfl⟩
    · simp only [Build.runOn, Build.push, ExceptT.run, ExceptT.mk, StateT.run, hbody]
    · exact Body.graph?_addNode hbody
  refused builder hblock := by
    obtain ⟨index, hindex, herror⟩ :=
      Body.addNode_of_none ⟨builder.nextId, target, args⟩ hblock
    refine ⟨index, hindex, ?_⟩
    simp only [Build.runOn, Build.push, ExceptT.run, ExceptT.mk, StateT.run, herror]

theorem runOn_bind {α β : Type} (action : Build α) (next : α → Build β) (builder : Builder) :
    (action >>= next).runOn builder =
      match action.runOn builder with
      | (.ok a, after) => (next a).runOn after
      | (.error e, after) => (.error e, after) := by
  simp only [Build.runOn, ExceptT.run_bind, StateT.run_bind]
  obtain ⟨result, after⟩ := (ExceptT.run action).run builder
  cases result <;> rfl

/-- The second push finds the block that the first one found. -/
theorem adds_indexValue (block : Block) (name : String) :
    Adds (Build.indexValue block name) block
      fun first => (Addition.indexValue block name).nodes first where
  opened builder hblock := by
    obtain ⟨index, mid, hfirst, hmid, hindex⟩ :=
      (adds_push block .getIndex [.name name]).opened builder hblock
    obtain ⟨id, after, hsecond, hafter, hid⟩ :=
      (adds_push block (.op "index_expr") [.node index]).opened mid (hmid.isSome block ▸ hblock)
    obtain rfl : builder.nextId = index := Option.some.inj hindex
    obtain rfl : mid.nextId = id := Option.some.inj hid
    refine ⟨mid.nextId, after, ?_, ?_, ?_⟩
    · rw [Build.indexValue, runOn_bind, Build.getIndex, hfirst]
      exact hsecond
    · have hboth := hmid.trans hafter
      rw [hmid.nextId] at hboth
      exact hboth
    · rw [hmid.nextId]
      rfl
  refused builder hblock := by
    obtain ⟨index, hindex, hfirst⟩ :=
      (adds_push block .getIndex [.name name]).refused builder hblock
    refine ⟨index, hindex, ?_⟩
    rw [Build.indexValue, runOn_bind, Build.getIndex, hfirst]

theorem Addition.adds (addition : Addition) :
    Adds addition.action addition.block fun first => addition.nodes first := by
  cases addition with
  | indexValue block name => exact adds_indexValue block name
  | _ => exact adds_push _ _ _

/-- A call is answered only if its block exists, and then the id is that of the last node. -/
theorem Adds.of_ok {action : Build NodeId} {nodes : NodeId → List Node} {id : NodeId}
    (h : Adds action block nodes) (hok : (action.runOn builder).1 = .ok id) :
    (builder.body.graph? block).isSome ∧
      (nodes builder.nextId).getLast?.map Node.id = some id := by
  by_cases hblock : (builder.body.graph? block).isSome
  · obtain ⟨last, after, hrun, -, hlast⟩ := h.opened builder hblock
    rw [hrun] at hok
    cases hok
    exact ⟨hblock, hlast⟩
  · obtain ⟨index, -, hrun⟩ := h.refused builder (by simpa using hblock)
    rw [hrun] at hok
    cases hok

/-- A call is refused only for a subblock that was not opened, and leaves the body as it was. -/
theorem Adds.of_error {action : Build NodeId} {nodes : NodeId → List Node} {misuse : Misuse}
    (h : Adds action block nodes) (herror : (action.runOn builder).1 = .error misuse) :
    (action.runOn builder).2.body = builder.body ∧
      ∃ index, block = .subblock index ∧ builder.body.subblocks.length ≤ index ∧
        misuse = .unopenedSubblock index := by
  by_cases hblock : (builder.body.graph? block).isSome
  · obtain ⟨id, after, hrun, -⟩ := h.opened builder hblock
    rw [hrun] at herror
    cases herror
  · have hnone : builder.body.graph? block = none := by simpa using hblock
    obtain ⟨index, rfl, hrun⟩ := h.refused builder hnone
    rw [hrun] at herror ⊢
    cases herror
    exact ⟨rfl, index, rfl, List.getElem?_eq_none_iff.1 hnone, rfl⟩

/-! ### The ledger -/

/-- The entries are the nodes of the body, in the order in which they were added. -/
structure Ledger (builder : Builder) (entries : List (Block × Node)) : Prop where
  graphs : ∀ block graph, builder.body.graph? block = some graph →
    graph.nodes = (entries.filter (·.1 = block)).map Prod.snd
  opened : ∀ entry ∈ entries, (builder.body.graph? entry.1).isSome
  increasing : (entries.map (·.2.id)).Pairwise (· < ·)
  fresh : ∀ entry ∈ entries, entry.2.id < builder.nextId

variable {entries : List (Block × Node)}

/-- A ledger stays right where the graphs do, but for ids that are used up and for blocks that are
opened. -/
theorem Ledger.of_graph? (h : builder.Ledger entries) (hnext : builder.nextId ≤ after.nextId)
    (hgraph : ∀ block, after.body.graph? block = builder.body.graph? block ∨
      builder.body.graph? block = none ∧ after.body.graph? block = some ⟨[]⟩) :
    after.Ledger entries where
  graphs block graph hblock := by
    rcases hgraph block with hsame | ⟨hnone, hnew⟩
    · exact h.graphs block graph (hsame ▸ hblock)
    · -- no entry is for a block that was missing
      rw [hnew, Option.some_inj] at hblock
      subst hblock
      symm
      rw [List.map_eq_nil_iff, List.filter_eq_nil_iff]
      intro entry hentry heq
      have hopened := h.opened entry hentry
      rw [of_decide_eq_true heq, hnone] at hopened
      cases hopened
  opened entry hentry := by
    rcases hgraph entry.1 with hsame | ⟨-, hnew⟩
    · rw [hsame]
      exact h.opened entry hentry
    · rw [hnew]
      rfl
  increasing := h.increasing
  fresh entry hentry := Nat.lt_of_lt_of_le (h.fresh entry hentry) hnext

theorem Ledger.extend {nodes : List Node} (h : builder.Ledger entries)
    (hblock : (builder.body.graph? block).isSome) (hext : Extended builder after block nodes)
    (hids : nodes.map Node.id = List.range' builder.nextId nodes.length) :
    after.Ledger (entries ++ nodes.map (block, ·)) where
  graphs other graph hother := by
    rw [hext.graph?, Option.map_eq_some_iff] at hother
    obtain ⟨before, hbefore, rfl⟩ := hother
    have hkept := h.graphs other before hbefore
    by_cases hsame : other = block
    · subst hsame
      simp [hkept, List.filter_map, Function.comp_def]
    · simp [hkept, hsame, List.filter_map, Function.comp_def, Ne.symm hsame]
  opened entry hentry := by
    rw [hext.isSome]
    rcases List.mem_append.1 hentry with hold | hnew
    · exact h.opened entry hold
    · obtain ⟨node, -, rfl⟩ := List.mem_map.1 hnew
      exact hblock
  increasing := by
    have hnew : (nodes.map (block, ·)).map (·.2.id) = List.range' builder.nextId nodes.length := by
      rw [List.map_map]
      exact hids
    rw [List.map_append, hnew, List.pairwise_append]
    refine ⟨h.increasing, List.pairwise_lt_range', ?_⟩
    intro old hold new hnew
    obtain ⟨entry, hentry, rfl⟩ := List.mem_map.1 hold
    exact Nat.lt_of_lt_of_le (h.fresh entry hentry) (List.mem_range'_1.1 hnew).1
  fresh entry hentry := by
    rw [hext.nextId]
    rcases List.mem_append.1 hentry with hold | hnew
    · exact Nat.lt_of_lt_of_le (h.fresh entry hold) (Nat.le_add_right _ _)
    · obtain ⟨node, hnode, rfl⟩ := List.mem_map.1 hnew
      have hid : node.id ∈ List.range' builder.nextId nodes.length :=
        hids ▸ List.mem_map_of_mem hnode
      exact (List.mem_range'_1.1 hid).2

/-- To open a subblock changes nothing about the other blocks. -/
theorem graph?_subblock (builder : Builder) (block : Block) :
    ((Request.subblock).after builder).body.graph? block = builder.body.graph? block ∨
      builder.body.graph? block = none ∧
        ((Request.subblock).after builder).body.graph? block = some ⟨[]⟩ := by
  cases block with
  | root => exact Or.inl rfl
  | subblock index =>
    show (builder.body.subblocks ++ [⟨[]⟩])[index]? = builder.body.subblocks[index]? ∨
      builder.body.subblocks[index]? = none ∧
        (builder.body.subblocks ++ [⟨[]⟩])[index]? = some ⟨[]⟩
    rcases Nat.lt_trichotomy index builder.body.subblocks.length with hlt | heq | hgt
    · exact Or.inl (List.getElem?_append_left hlt)
    · subst heq
      exact Or.inr ⟨List.getElem?_eq_none (Nat.le_refl _), by simp⟩
    · left
      rw [List.getElem?_eq_none (by simp; omega), List.getElem?_eq_none (by omega)]

/-- A call appends the nodes that it adds. -/
theorem Ledger.request (h : builder.Ledger entries) (request : Request) :
    (request.after builder).Ledger (entries ++ request.granted builder) := by
  -- a declaration is no node
  have hdeclare {after : Builder} (hnext : after.nextId = builder.nextId)
      (hroot : after.body.root = builder.body.root)
      (hsubs : after.body.subblocks = builder.body.subblocks) : after.Ledger (entries ++ []) := by
    rw [List.append_nil]
    refine h.of_graph? (Nat.le_of_eq hnext.symm) fun block => Or.inl ?_
    cases block <;> simp only [Body.graph?, hroot, hsubs]
  cases request with
  | varRange var upper => exact hdeclare rfl rfl rfl
  | indexExpr name expr => exact hdeclare rfl rfl rfl
  | indirectVar var => exact hdeclare rfl rfl rfl
  | subblock =>
    show Ledger _ (entries ++ [])
    rw [List.append_nil]
    exact h.of_graph? (Nat.le_refl _) (graph?_subblock builder)
  | add addition =>
    rw [Request.granted, Request.after]
    by_cases hblock : (builder.body.graph? addition.block).isSome
    · obtain ⟨id, after, hrun, hext, -⟩ := addition.adds.opened builder hblock
      rw [if_pos hblock, hrun]
      exact h.extend hblock hext (addition.ids_eq builder.nextId)
    · obtain ⟨index, -, hrun⟩ := addition.adds.refused builder (by simpa using hblock)
      rw [if_neg hblock, hrun, List.append_nil]
      exact h.of_graph? (Nat.le_succ _) fun block => Or.inl rfl

theorem ledger_foldl (h : builder.Ledger entries) (requests : List Request) :
    (requests.foldl Request.after builder).Ledger (entries ++ granted builder requests) := by
  induction requests generalizing builder entries with
  | nil => simpa [granted] using h
  | cons request rest ih =>
    have hrest := ih (h.request request)
    rw [List.append_assoc] at hrest
    exact hrest

theorem ledger_afterRequests (requests : List Request) :
    (afterRequests requests).Ledger (granted {} requests) := by
  have hempty : Ledger {} [] := by
    refine ⟨?_, by simp, by simp, by simp⟩
    intro block graph hgraph
    cases block with
    | root =>
      cases hgraph
      rfl
    | subblock index => cases hgraph
  exact ledger_foldl hempty requests

theorem Request.mem_granted {request : Request} {node : Node} :
    (block, node) ∈ request.granted builder ↔ ∃ addition, request = .add addition ∧
      addition.block = block ∧ (builder.body.graph? block).isSome ∧
      node ∈ addition.nodes builder.nextId := by
  cases request with
  | add addition =>
    simp only [granted, Request.add.injEq, exists_eq_left']
    split
    · rename_i hblock
      simp only [List.mem_map, Prod.mk.injEq]
      constructor
      · rintro ⟨_, hnode, rfl, rfl⟩
        exact ⟨rfl, hblock, hnode⟩
      · rintro ⟨rfl, -, hnode⟩
        exact ⟨node, hnode, rfl, rfl⟩
    · rename_i hblock
      simp only [List.not_mem_nil, false_iff]
      rintro ⟨rfl, hopened, -⟩
      exact hblock hopened
  | _ => simp [granted]

/-- Every entry is due to a call that found its block. -/
theorem mem_granted {requests : List Request} {node : Node} :
    (block, node) ∈ granted builder requests ↔ ∃ addition before,
      builder.Makes requests addition before ∧ addition.block = block ∧
      (before.body.graph? block).isSome ∧ node ∈ addition.nodes before.nextId := by
  induction requests generalizing builder with
  | nil => simp [granted, Makes]
  | cons request rest ih =>
    rw [granted, List.mem_append, Request.mem_granted, ih]
    constructor
    · rintro (⟨addition, rfl, hnode⟩ | ⟨addition, before, ⟨earlier, later, rfl, hbefore⟩, hnode⟩)
      · exact ⟨addition, builder, ⟨[], rest, rfl, rfl⟩, hnode⟩
      · exact ⟨addition, before, ⟨request :: earlier, later, rfl, hbefore⟩, hnode⟩
    · rintro ⟨addition, before, ⟨earlier, later, hrequests, hbefore⟩, hnode⟩
      cases earlier with
      | nil =>
        cases hrequests
        cases hbefore
        exact Or.inl ⟨addition, rfl, hnode⟩
      | cons first earlier =>
        cases hrequests
        exact Or.inr ⟨addition, before, ⟨earlier, later, rfl, hbefore⟩, hnode⟩

/-! ### Bodies made by requests -/

/-- The value of an index is two pushes, or only the first one if that is refused. -/
theorem exists_calls_indexValue (builder : Builder) (block : Block) (name : String) :
    ∃ calls : List Call, ((Build.indexValue block name).runOn builder).2 =
      calls.foldl Call.after builder := by
  have hadds := adds_push block .getIndex [.name name]
  by_cases hblock : (builder.body.graph? block).isSome
  · obtain ⟨index, mid, hfirst, -⟩ := hadds.opened builder hblock
    refine ⟨[.push block .getIndex [.name name], .push block (.op "index_expr") [.node index]], ?_⟩
    rw [Build.indexValue, runOn_bind, Build.getIndex]
    simp only [List.foldl_cons, List.foldl_nil, Call.after, hfirst]
    rfl
  · obtain ⟨index, -, hfirst⟩ := hadds.refused builder (by simpa using hblock)
    refine ⟨[.push block .getIndex [.name name]], ?_⟩
    rw [Build.indexValue, runOn_bind, Build.getIndex]
    simp only [List.foldl_cons, List.foldl_nil, Call.after, hfirst]

theorem Request.exists_calls (builder : Builder) (request : Request) :
    ∃ calls : List Call, request.after builder = calls.foldl Call.after builder := by
  cases request with
  | varRange var upper => exact ⟨[.varRange var upper], rfl⟩
  | indexExpr name expr => exact ⟨[.indexExpr name expr], rfl⟩
  | indirectVar var => exact ⟨[.indirectVar var], rfl⟩
  | subblock => exact ⟨[.subblock], rfl⟩
  | add addition =>
    cases addition with
    | indexValue block name => exact exists_calls_indexValue builder block name
    | _ => exact ⟨[.push _ _ _], rfl⟩

/-- Whatever is requested, only the calls of a builder are made. -/
theorem built_afterRequests (requests : List Request) : (afterRequests requests).body.Built := by
  have hcalls : ∀ builder : Builder, ∃ calls : List Call,
      requests.foldl Request.after builder = calls.foldl Call.after builder := by
    induction requests with
    | nil => exact fun builder => ⟨[], rfl⟩
    | cons request rest ih =>
      intro builder
      obtain ⟨first, hfirst⟩ := request.exists_calls builder
      obtain ⟨calls, hcalls⟩ := ih (request.after builder)
      exact ⟨first ++ calls, by rw [List.foldl_cons, hcalls, hfirst, List.foldl_append]⟩
  obtain ⟨calls, hcalls⟩ := hcalls {}
  exact ⟨calls, congrArg Builder.body hcalls.symm⟩

/-- Every push uses up an id, be it refused. -/
theorem Request.nextId_after (builder : Builder) (request : Request) :
    (request.after builder).nextId = builder.nextId + request.pushes builder := by
  cases request with
  | add addition =>
    rw [Request.after, Request.pushes]
    by_cases hblock : (builder.body.graph? addition.block).isSome
    · obtain ⟨id, after, hrun, hext, -⟩ := addition.adds.opened builder hblock
      rw [if_pos hblock, hrun, hext.nextId]
    · obtain ⟨index, -, hrun⟩ := addition.adds.refused builder (by simpa using hblock)
      rw [if_neg hblock, hrun]
  | _ => rfl

theorem nextId_foldl (builder : Builder) (requests : List Request) :
    (requests.foldl Request.after builder).nextId = builder.nextId + pushes builder requests := by
  induction requests generalizing builder with
  | nil => rfl
  | cons request rest ih =>
    rw [List.foldl_cons, ih, request.nextId_after, pushes, Nat.add_assoc]

/-- The nodes of a block are those that the calls added to it. -/
theorem has_iff_mem_granted {requests : List Request} {node : Node} :
    (afterRequests requests).body.Has block node ↔ (block, node) ∈ granted {} requests := by
  have hledger := ledger_afterRequests requests
  have hmem {graph : Graph} (hgraph : (afterRequests requests).body.graph? block = some graph) :
      node ∈ graph.nodes ↔ (block, node) ∈ granted {} requests := by
    rw [hledger.graphs block graph hgraph]
    simp
  constructor
  · rintro ⟨graph, hgraph, hnode⟩
    exact (hmem hgraph).1 hnode
  · intro hentry
    obtain ⟨graph, hgraph⟩ := Option.isSome_iff_exists.1 (hledger.opened _ hentry)
    exact ⟨graph, hgraph, (hmem hgraph).2 hentry⟩

/-- **Node ids are unique.** Whatever is requested of a new builder, and also if some requests are
refused in between: all nodes of the body have different ids, which increase within every graph and
stay below the number of pushes. The id answered for a request is that of the last node that was
asked for, and each of these nodes lies in the requested block, is the only one with its id and is
found by it. A request is refused only for a subblock that was not opened and adds nothing, and no
node is there that was not asked for by an answered request. -/
theorem node_ids_unique (requests : List Request) :
    (afterRequests requests).body.DistinctIds ∧
    (∀ block graph, (afterRequests requests).body.graph? block = some graph →
      (graph.nodes.map Node.id).Pairwise (· < ·)) ∧
    (∀ node ∈ (afterRequests requests).body.nodes, node.id < pushes {} requests) ∧
    (∀ addition before, Makes {} requests addition before →
      (∀ id, (addition.action.runOn before).1 = .ok id →
        (addition.nodes before.nextId).getLast?.map Node.id = some id ∧
        ∀ node ∈ addition.nodes before.nextId,
          (afterRequests requests).body.Names addition.block node) ∧
      ∀ misuse, (addition.action.runOn before).1 = .error misuse →
        (addition.action.runOn before).2.body = before.body ∧
        ∃ index, addition.block = .subblock index ∧ before.body.subblocks.length ≤ index ∧
          misuse = .unopenedSubblock index) ∧
    ∀ block node, (afterRequests requests).body.Has block node →
      ∃ addition before id, Makes {} requests addition before ∧
        (addition.action.runOn before).1 = .ok id ∧ addition.block = block ∧
        node ∈ addition.nodes before.nextId := by
  have hids := (built_afterRequests requests).distinctIds
  have hledger := ledger_afterRequests requests
  refine ⟨hids, ?_, ?_, ?_, ?_⟩
  · intro block graph hgraph
    rw [hledger.graphs block graph hgraph, List.map_map]
    exact hledger.increasing.sublist (List.filter_sublist.map _)
  · intro node hnode
    obtain ⟨block, hhas⟩ := Body.mem_nodes_iff.1 hnode
    have hfresh := hledger.fresh _ (has_iff_mem_granted.1 hhas)
    rw [afterRequests, nextId_foldl, Nat.zero_add] at hfresh
    exact hfresh
  · intro addition before hmakes
    refine ⟨fun id hok => ?_, fun misuse => addition.adds.of_error⟩
    obtain ⟨hblock, hlast⟩ := addition.adds.of_ok hok
    refine ⟨hlast, fun node hnode => hids.names ?_⟩
    exact has_iff_mem_granted.2 (mem_granted.2 ⟨addition, before, hmakes, rfl, hblock, hnode⟩)
  · intro block node hnode
    obtain ⟨addition, before, hmakes, rfl, hblock, hnode⟩ :=
      mem_granted.1 (has_iff_mem_granted.1 hnode)
    obtain ⟨id, after, hrun, -⟩ := addition.adds.opened before hblock
    exact ⟨addition, before, id, hmakes, by rw [hrun], rfl, hnode⟩

/-- Requests for the root and for subblocks in turn, two of which come before their subblock is
opened. -/
def interleaved : List Request :=
  [.subblock, .add (.constant .root 7), .add (.push (.subblock 1) .load [.node 0]),
    .add (.indexValue (.subblock 0) "index0"), .add (.indexValue (.subblock 1) "index0"),
    .subblock, .add (.output (.subblock 1) 3)]

/-- The refused requests use up the ids `1` and `4`. -/
theorem node_ids_unique_interleaved : pushes {} interleaved = 6 ∧
    (afterRequests interleaved).body.nodes.map Node.id = [0, 2, 3, 5] ∧
    (afterRequests interleaved).body.DistinctIds ∧
    (afterRequests interleaved).body.Names (.subblock 0) ⟨3, .op "index_expr", [.node 2]⟩ ∧
    (afterRequests interleaved).body.Names (.subblock 1) ⟨5, .output, [.node 3]⟩ := by
  obtain ⟨hids, -, -, hmade, -⟩ := node_ids_unique interleaved
  have hvalue := (hmade (.indexValue (.subblock 0) "index0") _
    ⟨interleaved.take 3, interleaved.drop 4, rfl, rfl⟩).1 3 rfl
  have houtput := (hmade (.output (.subblock 1) 3) _
    ⟨interleaved.take 6, interleaved.drop 7, rfl, rfl⟩).1 5 rfl
  refine ⟨rfl, rfl, hids, ?_, ?_⟩
  · exact hvalue.2 _ (List.mem_cons_of_mem _ List.mem_cons_self)
  · exact houtput.2 _ List.mem_cons_self

end Builder

end LoopBounds
