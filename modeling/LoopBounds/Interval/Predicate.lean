/-
Comparisons and logic on intervals.

A predicate is decided, to `1` or `0`, where all choices of integers in its
operands agree, and is `boolean` otherwise. An interval counts as true if it
excludes `0` and as false if it is `0` alone.
-/
import LoopBounds.Interval.Basic

namespace LoopBounds.Interval

/-- The predicate "less than". -/
def lessThan (a b : Interval) : Interval :=
  if a.high < b.low then ofBool true
  else if b.high ≤ a.low then ofBool false
  else boolean

/-- The predicate "at most". -/
def atMost (a b : Interval) : Interval :=
  if a.high ≤ b.low then ofBool true
  else if b.high < a.low then ofBool false
  else boolean

/-- The predicate "greater than". -/
def greaterThan (a b : Interval) : Interval :=
  b.lessThan a

/-- The predicate "at least". -/
def atLeast (a b : Interval) : Interval :=
  b.atMost a

/-- The predicate "equal": certain for one common integer, impossible for disjoint operands. -/
def equal (a b : Interval) : Interval :=
  if a.isSingleton ∧ a = b then ofBool true
  else if a.inter? b = none then ofBool false
  else boolean

/-- The truth value that all integers of the interval share, if they do. -/
def truth? (a : Interval) : Option Bool :=
  if 0 ∉ a then some true
  else if a.isSingleton then some false
  else none

/-- Logical negation. -/
def logicalNot (a : Interval) : Interval :=
  match a.truth? with
  | some value => ofBool !value
  | none => boolean

/-- The predicate "different". -/
def notEqual (a b : Interval) : Interval :=
  (a.equal b).logicalNot

/-- Conjunction: one false operand decides it. -/
def logicalAnd (a b : Interval) : Interval :=
  match a.truth?, b.truth? with
  | some false, _ => ofBool false
  | _, some false => ofBool false
  | some true, some true => ofBool true
  | _, _ => boolean

/-- Disjunction: one true operand decides it. -/
def logicalOr (a b : Interval) : Interval :=
  match a.truth?, b.truth? with
  | some true, _ => ofBool true
  | _, some true => ofBool true
  | some false, some false => ofBool false
  | _, _ => boolean

/-- The first branch where the condition is true and the second where it is false; both, joined,
where it is open. -/
def select (condition yes no : Interval) : Interval :=
  match condition.truth? with
  | some true => yes
  | some false => no
  | none => yes.join no

end LoopBounds.Interval
