/-
Intervals are ordered as sets of integers.

Intervals are compared, intersected and joined by their ends. As every interval
has members, and has them out to its ends, all three say the same of sets:

* `le_iff_forall_mem`, `eq_iff_forall_mem` — inclusion and equality are those of
  the members;
* `exists_mem_inter?_iff`, `inter?_eq_none_iff` — the common part holds the common
  members, and it is missing only where there are none;
* `isHull_join` — no interval around both is smaller than the join.

What has no interval is the empty set. With a bottom added for it, intervals are a
lattice: joins and common parts are the bounds of two elements, and `unknown` is
the greatest element.
-/
import LoopBounds.Proofs.Exactness.Operation
import Mathlib.Order.Bounds.Basic
import Mathlib.Order.WithBot

namespace LoopBounds.Interval

variable {a b c : Interval}

/-! ### Members -/

theorem eq_iff_forall_mem : a = b ↔ ∀ x, x ∈ a ↔ x ∈ b := by
  constructor
  · rintro rfl x
    exact Iff.rfl
  · intro h
    have hab : a ≤ b := le_iff_forall_mem.2 fun x => (h x).1
    have hba : b ≤ a := le_iff_forall_mem.2 fun x => (h x).2
    exact Interval.le_antisymm hab hba

theorem exists_mem_inter?_iff {x : Int} :
    (∃ c, a.inter? b = some c ∧ x ∈ c) ↔ x ∈ a ∧ x ∈ b := by
  constructor
  · rintro ⟨c, hc, hx⟩
    exact mem_of_inter? hc hx
  · rintro ⟨ha, hb⟩
    exact exists_inter? ha hb

theorem inter?_eq_none_iff : a.inter? b = none ↔ ¬ ∃ x, x ∈ a ∧ x ∈ b := by
  constructor
  · rintro hnone ⟨x, ha, hb⟩
    obtain ⟨c, hc, -⟩ := exists_inter? ha hb
    rw [hnone] at hc
    cases hc
  · intro hdisjoint
    cases hc : a.inter? b with
    | none => rfl
    | some c =>
      obtain ⟨x, hx⟩ := c.exists_mem
      exact absurd ⟨x, mem_of_inter? hc hx⟩ hdisjoint

/-- What lies within two intervals lies within their common part, which is there for it. -/
theorem exists_le_inter?_iff : (∃ d, a.inter? b = some d ∧ c ≤ d) ↔ c ≤ a ∧ c ≤ b := by
  constructor
  · rintro ⟨d, hd, hcd⟩
    constructor
    · exact le_iff_forall_mem.2 fun x hx => (mem_of_inter? hd (mem_of_le hcd hx)).1
    · exact le_iff_forall_mem.2 fun x hx => (mem_of_inter? hd (mem_of_le hcd hx)).2
  · rintro ⟨ha, hb⟩
    obtain ⟨x, hx⟩ := c.exists_mem
    obtain ⟨d, hd, -⟩ := exists_inter? (mem_of_le ha hx) (mem_of_le hb hx)
    refine ⟨d, hd, le_iff_forall_mem.2 fun y hy => ?_⟩
    obtain ⟨d', hd', hyd⟩ := exists_inter? (mem_of_le ha hy) (mem_of_le hb hy)
    rw [hd, Option.some_inj] at hd'
    rw [hd']
    exact hyd

theorem isLeast_join (a b : Interval) :
    IsLeast {c : Interval | ∀ x, x ∈ a ∨ x ∈ b → x ∈ c} (a.join b) :=
  ⟨(isHull_join a b).mem, fun _ hc => (isHull_join a b).le hc⟩

theorem join_le (ha : a ≤ c) (hb : b ≤ c) : a.join b ≤ c :=
  (isLeast_join a b).2 fun _ hx => hx.elim (mem_of_le ha) (mem_of_le hb)

/-! ### The lattice -/

instance : PartialOrder Interval where
  le_refl := Interval.le_refl
  le_trans _ _ _ := Interval.le_trans
  le_antisymm _ _ := Interval.le_antisymm

instance : SemilatticeSup Interval where
  sup := join
  le_sup_left := le_join_left
  le_sup_right := le_join_right
  sup_le _ _ _ := join_le

instance : OrderTop Interval where
  top := unknown
  le_top := le_unknown

/-- The common part of intervals or empty sets. -/
def common : WithBot Interval → WithBot Interval → WithBot Interval
  | .some a, .some b => (a.inter? b).elim ⊥ WithBot.some
  | _, _ => ⊥

theorem common_coe (a b : Interval) : common a b = (a.inter? b).elim ⊥ WithBot.some := rfl

theorem common_bot (p : WithBot Interval) : common p ⊥ = ⊥ := by
  cases p <;> rfl

theorem coe_le_elim_iff {inter? : Option Interval} :
    (c : WithBot Interval) ≤ inter?.elim ⊥ WithBot.some ↔ ∃ d, inter? = some d ∧ c ≤ d := by
  cases inter? <;> simp

theorem le_common_iff {p q r : WithBot Interval} : r ≤ common p q ↔ r ≤ p ∧ r ≤ q := by
  cases r with
  | bot => simp
  | coe c =>
    cases p with
    | bot => simp [common]
    | coe a =>
      cases q with
      | bot => simp [common_bot]
      | coe b =>
        rw [common_coe, coe_le_elim_iff, exists_le_inter?_iff, WithBot.coe_le_coe,
          WithBot.coe_le_coe]

instance : Lattice (WithBot Interval) where
  inf := common
  inf_le_left _ _ := (le_common_iff.1 le_rfl).1
  inf_le_right _ _ := (le_common_iff.1 le_rfl).2
  le_inf _ _ _ hp hq := le_common_iff.2 ⟨hp, hq⟩

/-- **Intervals are ordered by inclusion.** Comparison, equality, the common part and the join are
those of the sets of members. With a bottom for the empty set, joins are least upper bounds and
common parts are greatest lower bounds, and `unknown` is above everything. -/
theorem order_is_inclusion :
    (∀ a b : Interval, (a ≤ b ↔ ∀ x ∈ a, x ∈ b) ∧ (a = b ↔ ∀ x, x ∈ a ↔ x ∈ b) ∧
      (a.inter? b = none ↔ ¬ ∃ x, x ∈ a ∧ x ∈ b) ∧
      (∀ x, (∃ c, a.inter? b = some c ∧ x ∈ c) ↔ x ∈ a ∧ x ∈ b) ∧
      IsLeast {c : Interval | ∀ x, x ∈ a ∨ x ∈ b → x ∈ c} (a.join b)) ∧
    (∀ a b : Interval, ((a : WithBot Interval) ≤ b ↔ a ≤ b) ∧
      (a ⊔ b : WithBot Interval) = a.join b ∧
      (a ⊓ b : WithBot Interval) = (a.inter? b).elim ⊥ WithBot.some) ∧
    ∀ p q : WithBot Interval,
      IsLUB {p, q} (p ⊔ q) ∧ IsGLB {p, q} (p ⊓ q) ∧ ⊥ ≤ p ∧ p ≤ unknown := by
  refine ⟨fun a b => ?_, fun a b => ?_, fun p q => ?_⟩
  · exact ⟨le_iff_forall_mem, eq_iff_forall_mem, inter?_eq_none_iff,
      fun _ => exists_mem_inter?_iff, isLeast_join a b⟩
  · exact ⟨WithBot.coe_le_coe, rfl, rfl⟩
  · exact ⟨isLUB_pair, isGLB_pair, bot_le, le_top⟩

end LoopBounds.Interval
