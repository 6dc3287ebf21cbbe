/-
Intervals of integers.

An `Interval` is a pair of bounds that denotes a non-empty set of integers: the
lower end is at most the upper one, it is not `+∞`, and the upper end is not
`-∞`. These three facts are fields of the type, so every operation that returns
an interval has proved them.

* `x ∈ a` says that the integer `x` lies in `a`;
* `a ≤ b` says that `a` lies within `b`, by comparing the ends;
* `ofBounds?` is the checked constructor, `ofBounds` its form for ends that a
  caller vouches for, and `between` the form that answers with all integers
  where no interval has these ends.
-/
import LoopBounds.Bound
import LoopBounds.Misuse

namespace LoopBounds

/-- A non-empty set of consecutive integers, given by its ends. -/
structure Interval where
  low : Bound
  high : Bound
  low_le_high : low ≤ high
  low_ne_posInf : low ≠ .posInf
  high_ne_negInf : high ≠ .negInf
deriving DecidableEq, Repr

namespace Interval

/-! ### Construction -/

/-- The interval with these ends, if there is one. -/
def ofBounds? (low high : Bound) : Option Interval :=
  if h : low ≤ high ∧ low ≠ .posInf ∧ high ≠ .negInf then
    some ⟨low, high, h.1, h.2.1, h.2.2⟩
  else
    none

/-- The interval with these ends; a misuse if there is none. -/
def ofBounds (low high : Bound) : Except Misuse Interval :=
  (ofBounds? low high).elim (.error .invalidBounds) .ok

/-- The integers from `low` to `high`; a misuse if there are none. -/
def range (low high : Int) : Except Misuse Interval :=
  ofBounds (.finite low) (.finite high)

/-- The interval of one integer. -/
def singleton (n : Int) : Interval :=
  ⟨.finite n, .finite n, Bound.le_refl _, by simp, by simp⟩

/-- All integers: nothing is known about the value. -/
def unknown : Interval :=
  ⟨.negInf, .posInf, by simp, by simp, by simp⟩

/-- The integers from `0` on. -/
def nonnegative : Interval :=
  ⟨0, .posInf, by simp, by simp, by simp⟩

/-- `0` and `1`: a truth value that may go either way. -/
def boolean : Interval :=
  ⟨0, 1, by simp, by simp, by simp⟩

/-- `1` for true and `0` for false. -/
def ofBool (b : Bool) : Interval :=
  singleton b.toInt

/-- The interval with these ends, or all integers if there is none. -/
def between (low high : Bound) : Interval :=
  (ofBounds? low high).getD unknown

instance : Inhabited Interval := ⟨unknown⟩

@[ext] theorem ext {a b : Interval} (hl : a.low = b.low) (hh : a.high = b.high) : a = b := by
  cases a
  cases b
  simp_all

/-- The checked constructor answers exactly on the ends of an interval. -/
theorem ofBounds?_eq_some_iff {low high : Bound} {a : Interval} :
    ofBounds? low high = some a ↔ a.low = low ∧ a.high = high := by
  constructor
  · intro h
    rw [ofBounds?] at h
    split at h
    · cases h
      exact ⟨rfl, rfl⟩
    · cases h
  · rintro ⟨rfl, rfl⟩
    rw [ofBounds?, dif_pos ⟨a.low_le_high, a.low_ne_posInf, a.high_ne_negInf⟩]

@[simp] theorem ofBounds?_ends (a : Interval) : ofBounds? a.low a.high = some a :=
  ofBounds?_eq_some_iff.2 ⟨rfl, rfl⟩

/-! ### Queries -/

/-- Whether the interval has no ends at all. -/
def isUnknown (a : Interval) : Bool :=
  a.low = .negInf && a.high = .posInf

/-- Whether the interval holds exactly one integer. -/
def isSingleton (a : Interval) : Bool :=
  a.low.isFinite && a.low = a.high

/-- The integer of a singleton. -/
def singleton? (a : Interval) : Option Int :=
  if a.isSingleton then a.low.finite? else none

instance : Membership Int Interval :=
  ⟨fun a n => a.low ≤ .finite n ∧ .finite n ≤ a.high⟩

theorem mem_def {n : Int} {a : Interval} :
    n ∈ a ↔ a.low ≤ .finite n ∧ .finite n ≤ a.high := Iff.rfl

instance (n : Int) (a : Interval) : Decidable (n ∈ a) :=
  inferInstanceAs (Decidable (_ ∧ _))

/-- Inclusion, by the ends. -/
instance : LE Interval := ⟨fun a b => b.low ≤ a.low ∧ a.high ≤ b.high⟩

theorem le_def {a b : Interval} : a ≤ b ↔ b.low ≤ a.low ∧ a.high ≤ b.high := Iff.rfl

instance (a b : Interval) : Decidable (a ≤ b) :=
  inferInstanceAs (Decidable (_ ∧ _))

/-! ### Intersection and union -/

theorem min_low_ne_posInf (a b : Interval) : min a.low b.low ≠ .posInf :=
  Bound.min_ne a.low_ne_posInf b.low_ne_posInf

theorem max_high_ne_negInf (a b : Interval) : max a.high b.high ≠ .negInf :=
  Bound.max_ne a.high_ne_negInf b.high_ne_negInf

theorem min_low_le_max_high (a b : Interval) : min a.low b.low ≤ max a.high b.high :=
  Bound.le_trans (Bound.min_le_left _ _) (Bound.le_trans a.low_le_high (Bound.le_max_left _ _))

/-- The common part; none if the intervals are disjoint. -/
def inter? (a b : Interval) : Option Interval :=
  ofBounds? (max a.low b.low) (min a.high b.high)

/-- The least interval around both. -/
def join (a b : Interval) : Interval where
  low := min a.low b.low
  high := max a.high b.high
  low_le_high := min_low_le_max_high a b
  low_ne_posInf := min_low_ne_posInf a b
  high_ne_negInf := max_high_ne_negInf a b

/-- The least interval around the given bounds, or all integers if they bound none. -/
def hull (corner : Bound) (corners : List Bound) : Interval :=
  between (corners.foldl min corner) (corners.foldl max corner)

/-! ### Text -/

/-- The two ends in brackets. -/
def text (a : Interval) : String :=
  "[" ++ a.low.text ++ ", " ++ a.high.text ++ "]"

end Interval

end LoopBounds
