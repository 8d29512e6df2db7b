import Mathlib.Algebra.Ring.Nat
import Mathlib.Algebra.Ring.Int.Defs

/-!
# JavaScript numbers

Doubles, as far as programs that count and compare can tell them apart. The
integral ones carry arithmetic; a double with a fractional part is only ever
compared, so its bit pattern stands for it.
-/

namespace DshKernel.Js

/-- The integral doubles. `-0` is a value of its own that `===` does not see. -/
inductive Integral where
  | int (value : Int)
  | negZero
  deriving DecidableEq, Repr

inductive Number where
  | integral (value : Integral)
  | fractional (bits : Nat)
  | infinity (negative : Bool)
  | nan
  deriving DecidableEq, Repr

/-- `Number.MAX_SAFE_INTEGER` -/
def maxSafeInteger : Nat := 2 ^ 53 - 1

/-- How an integer too large for 53 bits becomes a double. Only the two facts that
programs rely on are fixed: safe integers are exact and no other integer becomes one. -/
structure Rounding where
  round : Int → Int
  exact : ∀ z : Int, z.natAbs ≤ maxSafeInteger + 1 → round z = z
  beyond : ∀ z : Int, maxSafeInteger + 1 < z.natAbs → maxSafeInteger < (round z).natAbs

/-- The multiple of `2 ^ e` nearest to `n`, the even one of two. -/
def nearestMultiple (n e : Nat) : Nat :=
  let lower := n / 2 ^ e
  let remainder := n % 2 ^ e
  if 2 ^ e < 2 * remainder ∨ (2 ^ e = 2 * remainder ∧ lower % 2 = 1) then (lower + 1) * 2 ^ e
  else lower * 2 ^ e

theorem le_nearestMultiple (n e : Nat) : n / 2 ^ e * 2 ^ e ≤ nearestMultiple n e := by
  simp only [nearestMultiple]
  split
  · exact Nat.mul_le_mul_right _ (Nat.le_succ _)
  · exact Nat.le_refl _

theorem lt_nearestMultiple {n : Nat} (h : 2 ^ 53 ≤ n) :
    maxSafeInteger < nearestMultiple n (n.log2 - 52) := by
  have hlog : 53 ≤ n.log2 := (Nat.le_log2 (by omega)).mpr h
  have hpow : 2 ^ 52 * 2 ^ (n.log2 - 52) ≤ n := by
    rw [← Nat.pow_add, Nat.add_sub_cancel' (by omega)]
    exact Nat.log2_self_le (by omega)
  have hlower : 2 ^ 52 ≤ n / 2 ^ (n.log2 - 52) :=
    (Nat.le_div_iff_mul_le (Nat.two_pow_pos _)).mpr hpow
  have htwo : 2 ^ 1 ≤ 2 ^ (n.log2 - 52) := Nat.pow_le_pow_right (by omega) (by omega)
  have hmul := Nat.mul_le_mul hlower htwo
  have hle := le_nearestMultiple n (n.log2 - 52)
  unfold maxSafeInteger
  omega

def Rounding.nearest : Rounding where
  round z :=
    if z.natAbs ≤ 2 ^ 53 then z else z.sign * nearestMultiple z.natAbs (z.natAbs.log2 - 52)
  exact z hz := if_pos (by unfold maxSafeInteger at hz; omega)
  beyond z hz := by
    have hlarge : ¬ z.natAbs ≤ 2 ^ 53 := by
      unfold maxSafeInteger at hz
      omega
    have hne : z ≠ 0 := by omega
    rw [if_neg hlarge, Int.natAbs_mul, Int.natAbs_sign_of_ne_zero hne, Nat.one_mul, Int.natAbs_natCast]
    exact lt_nearestMultiple (by omega)

namespace Integral

def ofNat (n : Nat) : Integral := .int n

def toInt : Integral → Int
  | .int z => z
  | .negZero => 0

def neg : Integral → Integral
  | .int z => if z = 0 then .negZero else .int (-z)
  | .negZero => .int 0

def add (R : Rounding) : Integral → Integral → Integral
  | .negZero, y => y
  | .int a, .negZero => .int a
  | .int a, .int b => .int (R.round (a + b))

def sub (R : Rounding) (x y : Integral) : Integral := add R x (neg y)

/-- `Number.isSafeInteger`, which accepts `-0` -/
def isSafe (x : Integral) : Bool := x.toInt.natAbs ≤ maxSafeInteger

/-- `===` -/
def strictEq (x y : Integral) : Bool := x.toInt == y.toInt

@[simp] theorem toInt_int (z : Int) : (Integral.int z).toInt = z := rfl

@[simp] theorem toInt_negZero : Integral.negZero.toInt = 0 := rfl

@[simp] theorem toInt_neg (x : Integral) : x.neg.toInt = -x.toInt := by
  cases x with
  | int z =>
    by_cases hz : z = 0
    · simp [neg, hz]
    · simp [neg, hz]
  | negZero => simp [neg]

theorem isSafe_iff (x : Integral) : x.isSafe = true ↔ x.toInt.natAbs ≤ maxSafeInteger := by
  simp [isSafe]

variable {x y : Integral}

theorem isSafe_add_iff (R : Rounding) (hx : x.isSafe) (hy : y.isSafe) :
    (add R x y).isSafe = true ↔ (x.toInt + y.toInt).natAbs ≤ maxSafeInteger := by
  rw [isSafe_iff] at hx hy
  cases x with
  | negZero => simp [add, isSafe_iff]
  | int a =>
    cases y with
    | negZero => simp [add, isSafe_iff]
    | int b =>
      simp only [add, isSafe_iff, toInt_int]
      by_cases hab : (a + b).natAbs ≤ maxSafeInteger + 1
      · rw [R.exact _ hab]
      · have hout := R.beyond (a + b) (by omega)
        omega

theorem toInt_add_of_isSafe (R : Rounding) (h : (x.toInt + y.toInt).natAbs ≤ maxSafeInteger) :
    (add R x y).toInt = x.toInt + y.toInt := by
  cases x with
  | negZero => simp [add]
  | int a =>
    cases y with
    | negZero => simp [add]
    | int b =>
      simp only [toInt_int] at h
      simp only [add, toInt_int]
      exact R.exact _ (by omega)

theorem isSafe_neg (x : Integral) : x.neg.isSafe = x.isSafe := by
  simp [isSafe]

theorem isSafe_sub_iff (R : Rounding) (hx : x.isSafe) (hy : y.isSafe) :
    (sub R x y).isSafe = true ↔ (x.toInt - y.toInt).natAbs ≤ maxSafeInteger := by
  rw [sub, isSafe_add_iff R hx (by rwa [isSafe_neg])]
  simp only [toInt_neg]
  rw [Int.sub_eq_add_neg]

theorem toInt_sub_of_isSafe (R : Rounding) (h : (x.toInt - y.toInt).natAbs ≤ maxSafeInteger) :
    (sub R x y).toInt = x.toInt - y.toInt := by
  rw [sub, toInt_add_of_isSafe R (by rw [toInt_neg]; omega), toInt_neg]
  omega

end Integral

namespace Number

def ofInt (z : Int) : Number := .integral (.int z)

def ofNat (n : Nat) : Number := .integral (.int n)

/-- `Number.isSafeInteger` -/
def isSafeInteger : Number → Bool
  | .integral x => x.isSafe
  | _ => false

/-- `===`, for which `NaN` differs from itself and the two zeros agree -/
def strictEq : Number → Number → Bool
  | .integral x, .integral y => x.strictEq y
  | .nan, _ => false
  | x, y => x == y

/-- A number that JSON text carries unchanged: finite, and not `-0`. -/
def isLossless : Number → Bool
  | .integral (.int _) => true
  | .fractional _ => true
  | _ => false

@[simp] theorem strictEq_ofNat (a b : Nat) : strictEq (ofNat a) (ofNat b) = (a == b) := by
  rw [Bool.eq_iff_iff]
  simp only [ofNat, strictEq, Integral.strictEq, Integral.toInt_int, beq_iff_eq]
  omega

/-- On numbers that JSON carries, `===` is equality. -/
theorem strictEq_iff_of_isLossless {x y : Number} (hx : x.isLossless) (hy : y.isLossless) :
    x.strictEq y = true ↔ x = y := by
  cases x with
  | integral x =>
    cases x with
    | int a =>
      cases y with
      | integral y =>
        cases y with
        | int b => simp [strictEq, Integral.strictEq]
        | negZero => simp [isLossless] at hy
      | fractional bits => simp [strictEq]
      | infinity s => simp [isLossless] at hy
      | nan => simp [isLossless] at hy
    | negZero => simp [isLossless] at hx
  | fractional bits => simp [strictEq]
  | infinity s => simp [isLossless] at hx
  | nan => simp [isLossless] at hx

theorem strictEq_self_of_ne_nan {x : Number} (hx : x ≠ .nan) : x.strictEq x = true := by
  cases x with
  | integral x => simp [strictEq, Integral.strictEq]
  | fractional bits => simp [strictEq]
  | infinity s => simp [strictEq]
  | nan => exact absurd rfl hx

def toInt : Number → Int
  | .integral x => x.toInt
  | _ => 0

end Number

/-- `+` and `-` on doubles. What they make of two safe integers is fixed. -/
structure Arithmetic where
  rounding : Rounding
  add : Number → Number → Number
  sub : Number → Number → Number
  add_integral : ∀ x y : Integral, x.isSafe = true → y.isSafe = true →
    add (.integral x) (.integral y) = .integral (Integral.add rounding x y)
  sub_integral : ∀ x y : Integral, x.isSafe = true → y.isSafe = true →
    sub (.integral x) (.integral y) = .integral (Integral.sub rounding x y)

namespace Arithmetic

/-- Doubles with ties to even, on integral numbers below the overflow; `NaN` elsewhere. -/
def nearest : Arithmetic where
  rounding := Rounding.nearest
  add
    | .integral x, .integral y => .integral (Integral.add Rounding.nearest x y)
    | _, _ => .nan
  sub
    | .integral x, .integral y => .integral (Integral.sub Rounding.nearest x y)
    | _, _ => .nan
  add_integral _ _ _ _ := rfl
  sub_integral _ _ _ _ := rfl

variable (A : Arithmetic) {a b : Number}

theorem toInt_add (ha : a.isSafeInteger = true) (hb : b.isSafeInteger = true)
    (hsum : (A.add a b).isSafeInteger = true) : (A.add a b).toInt = a.toInt + b.toInt := by
  cases a with
  | integral x =>
    cases b with
    | integral y =>
      rw [A.add_integral x y ha hb] at hsum ⊢
      exact Integral.toInt_add_of_isSafe A.rounding
        ((Integral.isSafe_add_iff A.rounding ha hb).mp hsum)
    | _ => cases hb
  | _ => cases ha

theorem toInt_sub (ha : a.isSafeInteger = true) (hb : b.isSafeInteger = true)
    (hle : (a.toInt - b.toInt).natAbs ≤ maxSafeInteger) :
    (A.sub a b).isSafeInteger = true ∧ (A.sub a b).toInt = a.toInt - b.toInt := by
  cases a with
  | integral x =>
    cases b with
    | integral y =>
      rw [A.sub_integral x y ha hb]
      exact ⟨(Integral.isSafe_sub_iff A.rounding ha hb).mpr hle,
        Integral.toInt_sub_of_isSafe A.rounding hle⟩
    | _ => cases hb
  | _ => cases ha

end Arithmetic

end DshKernel.Js
