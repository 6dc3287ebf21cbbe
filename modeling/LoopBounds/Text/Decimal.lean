/-
Integers written in decimal.

A number is read only as a whole: digits `0` to `9`, at least one, with at most
one sign in front.
-/

namespace LoopBounds.Text

/-- The value of a decimal digit. -/
def digit? (c : Char) : Option Nat :=
  if c.isDigit then some (c.toNat - '0'.toNat) else none

/-- The number that the digits continue from `value`. -/
def readDigits (value : Nat) : List Char → Option Nat
  | [] => some value
  | c :: rest => do readDigits (10 * value + (← digit? c)) rest

/-- The number written by one or more digits. -/
def readDecimal : List Char → Option Nat
  | [] => none
  | digits => readDigits 0 digits

/-- A natural number, which may have a plus sign. -/
def readNat (s : String) : Option Nat :=
  match s.toList with
  | '+' :: digits => readDecimal digits
  | digits => readDecimal digits

/-- An integer, which may have a sign. -/
def readInt (s : String) : Option Int :=
  match s.toList with
  | '-' :: digits => (readDecimal digits).map fun n => -(n : Int)
  | '+' :: digits => (readDecimal digits).map Int.ofNat
  | digits => (readDecimal digits).map Int.ofNat

end LoopBounds.Text
