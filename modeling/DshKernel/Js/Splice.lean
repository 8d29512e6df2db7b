import DshKernel.Js.Number

/-!
# Array.prototype.splice

The method of arrays, for any numbers as its start and its delete count, and the arithmetic of
numbers without a fractional part that programs normalise such arguments with.
-/

namespace DshKernel.Js

inductive Whole where
  | integral (value : Integral)
  | infinity (negative : Bool)
  deriving DecidableEq

def truncFractional (bits : Nat) : Integral :=
  let exponent := bits / 2 ^ 52 % 2 ^ 11
  let magnitude : Nat := if exponent < 1023 then 0 else (2 ^ 52 + bits % 2 ^ 52) / 2 ^ (1075 - exponent)
  if bits / 2 ^ 63 % 2 = 1 then (Integral.int magnitude).neg else .int magnitude

/-- `Math.trunc`; none of `NaN` -/
def Number.trunc : Number → Option Whole
  | .integral value => some (.integral value)
  | .fractional bits => some (.integral (truncFractional bits))
  | .infinity negative => some (.infinity negative)
  | .nan => none

namespace Whole

def ofNat (n : Nat) : Whole := .integral (.int n)

def toNumber : Whole → Number
  | .integral value => .integral value
  | .infinity negative => .infinity negative

/-- `<` -/
def lt : Whole → Whole → Bool
  | .integral a, .integral b => decide (a.toInt < b.toInt)
  | .integral _, .infinity negative => !negative
  | .infinity negative, .integral _ => negative
  | .infinity negative, .infinity other => negative && !other

/-- `length + offset` and `length - start`. A length is small, so that the sum is exact or far below
zero. -/
def add (length : Nat) : Whole → Whole
  | .integral value => .integral (.int (length + value.toInt))
  | .infinity negative => .infinity negative

def sub (length : Nat) : Whole → Whole
  | .integral value => .integral (.int (length - value.toInt))
  | .infinity negative => .infinity (!negative)

/-- `Math.min`, for which `-0` is below `0` -/
def min (a b : Whole) : Whole :=
  if a.lt b then a else if b.lt a then b else if a = .integral .negZero then a else b

/-- `Math.max` -/
def max (a b : Whole) : Whole :=
  if a.lt b then b else if b.lt a then a else if a = .integral .negZero then b else a

/-- `whole === 0` -/
def isZero : Whole → Bool
  | .integral value => value.toInt == 0
  | .infinity _ => false

end Whole

namespace Whole

variable {a b : Integral}

end Whole

/-- An integer or an infinity, as `ToIntegerOrInfinity` makes it. -/
inductive IntegerOrInfinity where
  | integer (value : Int)
  | infinity (negative : Bool)

def toIntegerOrInfinity (number : Number) : IntegerOrInfinity :=
  match number.trunc with
  | none => .integer 0
  | some (.integral value) => .integer value.toInt
  | some (.infinity negative) => .infinity negative

section Splice

variable {α : Type}

def spliceStart (length : Nat) (start : Number) : Nat :=
  match toIntegerOrInfinity start with
  | .infinity true => 0
  | .infinity false => length
  | .integer value => if value < 0 then (length + value).toNat else Nat.min value.toNat length

/-- How many elements it removes, of the `available` ones from there on. -/
def spliceCount (available : Nat) (deleteCount : Number) : Nat :=
  match toIntegerOrInfinity deleteCount with
  | .infinity true => 0
  | .infinity false => available
  | .integer value => Nat.min value.toNat available

/-- `items.splice(start, deleteCount, ...inserted)`: what the list becomes. -/
def arraySplice (items : List α) (start deleteCount : Number) (inserted : List α) : List α :=
  let position := spliceStart items.length start
  items.take position ++ inserted ++
    items.drop (position + spliceCount (items.length - position) deleteCount)

def arraySpliced (items : List α) (start deleteCount : Number) : List α :=
  let position := spliceStart items.length start
  (items.drop position).take (spliceCount (items.length - position) deleteCount)

end Splice

end DshKernel.Js
