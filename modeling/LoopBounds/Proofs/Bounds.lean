/-
Maps of intervals.

`Bounds.Within` compares two maps: what the first one knows, the second one knows
too and in the same way. `Bounds.values_eq_ok_iff` takes the values of a list of
operands apart, so that operands resolved in a map have the same values in every
larger one (`Within.values`).
-/
import LoopBounds.Interpreter.Basic
import Mathlib.Data.List.Forall2

namespace LoopBounds

/-- A sequence of two steps succeeds only if both do. -/
theorem exists_of_bind_eq_ok {ε α β : Type} {x : Except ε α} {f : α → Except ε β} {b : β}
    (h : x >>= f = .ok b) : ∃ a, x = .ok a ∧ f a = .ok b := by
  cases x with
  | error e => cases h
  | ok a => exact ⟨a, rfl, h⟩

/-- A sequence of two steps fails if the first one does, or else the second one. -/
theorem exists_of_bind_eq_error {ε α β : Type} {x : Except ε α} {f : α → Except ε β} {e : ε}
    (h : x >>= f = .error e) : x = .error e ∨ ∃ a, x = .ok a ∧ f a = .error e := by
  cases x with
  | error e' =>
    cases h
    exact Or.inl rfl
  | ok a => exact Or.inr ⟨a, rfl, h⟩

theorem Node.mem_inputs_of_mem_args {node : Node} {id : NodeId} (h : .node id ∈ node.args) :
    id ∈ node.inputs :=
  List.mem_filterMap.2 ⟨.node id, h, rfl⟩

theorem Node.mem_args_of_mem_inputs {node : Node} {id : NodeId} (h : id ∈ node.inputs) :
    .node id ∈ node.args := by
  obtain ⟨operand, hoperand, hid⟩ := List.mem_filterMap.1 h
  cases operand with
  | node other =>
    cases hid
    exact hoperand
  | name text => cases hid
  | int n => cases hid

/-- The intervals of the first map are those of the second too. -/
def Bounds.Within (bounds answer : Bounds) : Prop :=
  ∀ (id : NodeId) (range : Interval), bounds[id]? = some range → answer[id]? = some range

namespace Bounds

theorem getElem?_insert (bounds : Bounds) (id other : NodeId) (range : Interval) :
    (bounds.insert id range)[other]? = if id = other then some range else bounds[other]? := by
  simp [Std.ExtTreeMap.getElem?_insert]

theorem mem_insert {bounds : Bounds} {id other : NodeId} {range : Interval} :
    other ∈ bounds.insert id range ↔ id = other ∨ other ∈ bounds := by
  simp [Std.ExtTreeMap.mem_insert]

theorem mem_iff {bounds : Bounds} {id : NodeId} :
    id ∈ bounds ↔ ∃ range, bounds[id]? = some range := by
  rw [Std.ExtTreeMap.mem_iff_isSome_getElem?, Option.isSome_iff_exists]

theorem Within.refl (bounds : Bounds) : bounds.Within bounds := fun _ _ h => h

theorem Within.trans {a b c : Bounds} (hab : a.Within b) (hbc : b.Within c) : a.Within c :=
  fun id range h => hbc id range (hab id range h)

theorem Within.mem {a b : Bounds} (h : a.Within b) {id : NodeId} (hid : id ∈ a) : id ∈ b := by
  obtain ⟨range, hrange⟩ := mem_iff.1 hid
  exact mem_iff.2 ⟨range, h id range hrange⟩

theorem Within.insert {bounds answer : Bounds} (h : bounds.Within answer) {id : NodeId}
    (hid : id ∉ bounds) (range : Interval) : bounds.Within (answer.insert id range) := by
  intro other r hr
  rw [getElem?_insert, if_neg]
  · exact h other r hr
  · rintro rfl
    exact hid (mem_iff.2 ⟨r, hr⟩)

theorem within_insert {bounds : Bounds} {id : NodeId} (h : id ∉ bounds) (range : Interval) :
    bounds.Within (bounds.insert id range) :=
  (Within.refl bounds).insert h range

/-! ### Values of operands -/

theorem values_eq_ok_iff {bounds : Bounds} {operands : List Operand} {args : List Value} :
    bounds.values operands = .ok args ↔
      List.Forall₂ (fun operand value => bounds.value operand = .ok value) operands args := by
  induction operands generalizing args with
  | nil =>
    rw [values, List.mapM_nil, List.forall₂_nil_left_iff]
    exact ⟨fun h => by cases h; rfl, fun h => by rw [h]; rfl⟩
  | cons operand rest ih =>
    rw [values, List.mapM_cons]
    constructor
    · intro h
      obtain ⟨value, hvalue, h⟩ := exists_of_bind_eq_ok h
      obtain ⟨values, hvalues, h⟩ := exists_of_bind_eq_ok h
      cases h
      exact .cons hvalue (ih.1 hvalues)
    · intro h
      cases h with
      | cons hvalue hrest =>
        have hvalues := ih.2 hrest
        rw [values] at hvalues
        rw [hvalue, hvalues]
        rfl

theorem values_cons {bounds : Bounds} {operand : Operand} {rest : List Operand}
    {args : List Value} (h : bounds.values (operand :: rest) = .ok args) :
    ∃ value values, args = value :: values ∧ bounds.value operand = .ok value ∧
      bounds.values rest = .ok values := by
  cases values_eq_ok_iff.1 h with
  | cons hvalue hrest => exact ⟨_, _, rfl, hvalue, values_eq_ok_iff.2 hrest⟩

theorem value_node {bounds : Bounds} {id : NodeId} {value : Value}
    (h : bounds.value (.node id) = .ok value) :
    ∃ range, bounds[id]? = some range ∧ value = .range range := by
  simp only [Bounds.value] at h
  split at h
  · rename_i range hrange
    cases h
    exact ⟨range, hrange, rfl⟩
  · cases h

/-- A node at the head of the operands gives an interval at the head of their values. -/
theorem values_node {bounds : Bounds} {id : NodeId} {rest : List Operand} {args : List Value}
    (h : bounds.values (.node id :: rest) = .ok args) :
    ∃ range values, args = .range range :: values ∧ bounds.values rest = .ok values := by
  obtain ⟨value, values, rfl, hvalue, hvalues⟩ := values_cons h
  obtain ⟨range, -, rfl⟩ := value_node hvalue
  exact ⟨range, values, rfl, hvalues⟩

theorem Within.value {bounds answer : Bounds} (h : bounds.Within answer) {operand : Operand}
    {value : Value} (hvalue : bounds.value operand = .ok value) :
    answer.value operand = .ok value := by
  cases operand with
  | node id =>
    obtain ⟨range, hrange, rfl⟩ := value_node hvalue
    simp only [Bounds.value, h id range hrange]
  | name text => exact hvalue
  | int n => exact hvalue

theorem Within.values {bounds answer : Bounds} (h : bounds.Within answer)
    {operands : List Operand} {args : List Value} (hargs : bounds.values operands = .ok args) :
    answer.values operands = .ok args :=
  values_eq_ok_iff.2 ((values_eq_ok_iff.1 hargs).imp fun _ _ => h.value)

/-- Operands have values that others have in their place. -/
theorem values_map {bounds other : Bounds} {operands : List Operand} {f : Operand → Operand}
    {args : List Value} (h : ∀ operand ∈ operands, ∀ value, bounds.value operand = .ok value →
      other.value (f operand) = .ok value) (hargs : bounds.values operands = .ok args) :
    other.values (operands.map f) = .ok args := by
  induction operands generalizing args with
  | nil => exact hargs
  | cons operand rest ih =>
    obtain ⟨hoperand, hrest⟩ := List.forall_mem_cons.1 h
    obtain ⟨value, values, rfl, hvalue, hvalues⟩ := values_cons hargs
    exact values_eq_ok_iff.2 (.cons (hoperand value hvalue) (values_eq_ok_iff.1 (ih hrest hvalues)))

/-- Operands have values only if the nodes among them have intervals. -/
theorem mem_of_values {bounds : Bounds} {operands : List Operand} {args : List Value}
    (h : bounds.values operands = .ok args) :
    ∀ id : NodeId, .node id ∈ operands → id ∈ bounds := by
  rw [values_eq_ok_iff] at h
  induction h with
  | nil => simp
  | cons hvalue _ ih =>
    intro id hid
    rcases List.mem_cons.1 hid with rfl | hid
    · obtain ⟨range, hrange, -⟩ := value_node hvalue
      exact mem_iff.2 ⟨range, hrange⟩
    · exact ih id hid

/-- Operands have values once the nodes among them have intervals. -/
theorem exists_values {bounds : Bounds} {operands : List Operand}
    (h : ∀ id : NodeId, .node id ∈ operands → id ∈ bounds) :
    ∃ args, bounds.values operands = .ok args := by
  induction operands with
  | nil => exact ⟨[], values_eq_ok_iff.2 .nil⟩
  | cons operand rest ih =>
    obtain ⟨args, hargs⟩ := ih fun id hid => h id (List.mem_cons_of_mem _ hid)
    obtain ⟨value, hvalue⟩ : ∃ value, bounds.value operand = .ok value := by
      cases operand with
      | node id =>
        obtain ⟨range, hrange⟩ := mem_iff.1 (h id List.mem_cons_self)
        exact ⟨.range range, by simp only [Bounds.value, hrange]⟩
      | name text => exact ⟨_, rfl⟩
      | int n => exact ⟨_, rfl⟩
    exact ⟨value :: args, values_eq_ok_iff.2 (.cons hvalue (values_eq_ok_iff.1 hargs))⟩

/-- Operands have no values only if a node among them has no interval, and the error names it. -/
theorem exists_of_values_error {bounds : Bounds} {operands : List Operand} {e : Error}
    (h : bounds.values operands = .error e) :
    ∃ id, .node id ∈ operands ∧ id ∉ bounds ∧ e = .undefinedNode id := by
  induction operands with
  | nil => cases h
  | cons operand rest ih =>
    rw [values, List.mapM_cons] at h
    rcases exists_of_bind_eq_error h with hvalue | ⟨_, -, h⟩
    · cases operand with
      | node id =>
        simp only [Bounds.value] at hvalue
        split at hvalue <;> cases hvalue
        rename_i hnone
        exact ⟨id, List.mem_cons_self, by simp [mem_iff, hnone], rfl⟩
      | name text => cases hvalue
      | int n => cases hvalue
    · rcases exists_of_bind_eq_error h with hrest | ⟨_, -, h⟩
      · obtain ⟨id, hmem, hid⟩ := ih hrest
        exact ⟨id, List.mem_cons_of_mem _ hmem, hid⟩
      · cases h

/-- Only an operand that is a name has a name for value. -/
theorem head_of_name {bounds : Bounds} {operands : List Operand} {name : String}
    {rest : List Value} (h : bounds.values operands = .ok (.name name :: rest)) :
    ∃ tail, operands = .name name :: tail := by
  cases values_eq_ok_iff.1 h with
  | @cons first _ tail _ hfirst _ =>
    cases first with
    | node id =>
      obtain ⟨range, -, hrange⟩ := value_node hfirst
      cases hrange
    | name text =>
      cases hfirst
      exact ⟨tail, rfl⟩
    | int n => cases hfirst

/-- Only an operand that is a node has an interval for value. -/
theorem head_of_range {bounds : Bounds} {operands : List Operand} {range : Interval}
    {rest : List Value} (h : bounds.values operands = .ok (.range range :: rest)) :
    ∃ id tail, operands = .node id :: tail := by
  cases values_eq_ok_iff.1 h with
  | @cons first _ tail _ hfirst _ =>
    cases first with
    | node id => exact ⟨id, tail, rfl⟩
    | name text => cases hfirst
    | int n => cases hfirst

end Bounds

end LoopBounds
