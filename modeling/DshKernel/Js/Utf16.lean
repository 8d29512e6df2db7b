import Mathlib.Algebra.Ring.Nat
import Mathlib.Data.List.Basic

/-!
# Strings as UTF-16

A string is its units. `Array.from` takes it apart at its code points: a surrogate pair is one of
them, and so is a surrogate that stands alone.
-/

namespace DshKernel.Js

open List

def isHighSurrogate (unit : UInt16) : Bool := 0xD800 ≤ unit && unit < 0xDC00

def isLowSurrogate (unit : UInt16) : Bool := 0xDC00 ≤ unit && unit < 0xE000

def isPair (high low : UInt16) : Bool := isHighSurrogate high && isLowSurrogate low

/-- `Array.from(text)`: each code point with its units. -/
def codePoints : List UInt16 → List (List UInt16)
  | [] => []
  | [unit] => [[unit]]
  | unit :: next :: rest =>
    if isPair unit next then [unit, next] :: codePoints rest
    else [unit] :: codePoints (next :: rest)

def codePointLength (text : List UInt16) : Nat := (codePoints text).length

/-- The bytes of a code point in UTF-8, where a surrogate that stands alone is replaced. -/
def pointBytes : List UInt16 → Nat
  | [unit] => if unit < 0x80 then 1 else if unit < 0x800 then 2 else 3
  | _ => 4

/-- `Buffer.byteLength(text, 'utf8')` -/
def utf8Length (text : List UInt16) : Nat := ((codePoints text).map pointBytes).sum

def charUnits (char : Char) : List UInt16 :=
  if char.toNat < 0x10000 then [UInt16.ofNat char.toNat]
  else
    [UInt16.ofNat (0xD800 + (char.toNat - 0x10000) / 0x400),
      UInt16.ofNat (0xDC00 + (char.toNat - 0x10000) % 0x400)]

def stringUnits (text : String) : List UInt16 := text.toList.flatMap charUnits

def Apart (unit : UInt16) (text : List UInt16) : Prop :=
  ∀ next ∈ text.head?, isPair unit next = false

section CodePoints

variable {unit next : UInt16} {text rest : List UInt16}

theorem codePoints_pair (h : isPair unit next = true) :
    codePoints (unit :: next :: rest) = [unit, next] :: codePoints rest := by
  rw [codePoints, if_pos h]

theorem codePoints_cons (h : Apart unit text) : codePoints (unit :: text) = [unit] :: codePoints text := by
  cases text with
  | nil => rfl
  | cons next rest =>
    have hpair : ¬ isPair unit next = true := by
      rw [h next rfl]
      exact Bool.false_ne_true
    rw [codePoints, if_neg hpair]

theorem flatten_codePoints : (codePoints text).flatten = text := by
  induction text using codePoints.induct with
  | case1 => rfl
  | case2 unit => rfl
  | case3 unit next rest hpair ih =>
    rw [codePoints_pair hpair, flatten_cons, ih]
    rfl
  | case4 unit next rest hpair ih =>
    rw [codePoints, if_neg hpair, flatten_cons, ih]
    rfl

theorem codePoints_drop (k : Nat) :
    codePoints ((codePoints text).drop k).flatten = (codePoints text).drop k := by
  induction text using codePoints.induct generalizing k with
  | case1 => simp [codePoints]
  | case2 unit => cases k <;> simp [codePoints]
  | case3 unit next rest hpair ih =>
    cases k with
    | zero => rw [drop_zero, flatten_codePoints]
    | succ k =>
      rw [codePoints_pair hpair, drop_succ_cons]
      exact ih k
  | case4 unit next rest hpair ih =>
    cases k with
    | zero => rw [drop_zero, flatten_codePoints]
    | succ k =>
      rw [codePoints, if_neg hpair, drop_succ_cons]
      exact ih k

theorem head?_flatten_take (k : Nat) :
    ∀ unit ∈ ((codePoints text).take k).flatten.head?, unit ∈ text.head? := by
  intro unit hunit
  have hprefix : ((codePoints text).take k).flatten <+: text := by
    conv => rhs; rw [← @flatten_codePoints text, ← take_append_drop k (codePoints text),
      flatten_append]
    exact prefix_append _ _
  obtain ⟨rest, hrest⟩ := hprefix
  cases hfront : ((codePoints text).take k).flatten with
  | nil =>
    rw [hfront] at hunit
    cases hunit
  | cons first front =>
    rw [hfront] at hunit hrest
    rw [← hrest]
    exact hunit

theorem codePoints_take (k : Nat) :
    codePoints ((codePoints text).take k).flatten = (codePoints text).take k := by
  induction text using codePoints.induct generalizing k with
  | case1 => simp [codePoints]
  | case2 unit => cases k <;> simp [codePoints]
  | case3 unit next rest hpair ih =>
    cases k with
    | zero => rfl
    | succ k =>
      rw [codePoints_pair hpair, take_succ_cons, flatten_cons]
      exact (codePoints_pair hpair).trans (congrArg _ (ih k))
  | case4 unit next rest hpair ih =>
    cases k with
    | zero => rfl
    | succ k =>
      have hapart : Apart unit ((codePoints (next :: rest)).take k).flatten := by
        intro first hfirst
        have hnext : next = first := Option.some.inj (head?_flatten_take k first hfirst)
        rw [← hnext]
        exact Bool.not_eq_true _ ▸ hpair
      rw [codePoints, if_neg hpair, take_succ_cons, flatten_cons]
      exact (codePoints_cons hapart).trans (congrArg _ (ih k))

end CodePoints

section Append

variable {front back : List UInt16}

theorem codePoints_append (h : ∀ unit ∈ front.getLast?, Apart unit back) :
    codePoints (front ++ back) = codePoints front ++ codePoints back := by
  induction front using codePoints.induct with
  | case1 => rfl
  | case2 unit => exact codePoints_cons (h unit rfl)
  | case3 unit next rest hpair ih =>
    have hrest : ∀ last ∈ rest.getLast?, Apart last back := by
      intro last hlast
      apply h
      rw [getLast?_cons_cons, getLast?_cons, Option.mem_def.mp hlast]
      rfl
    rw [codePoints_pair hpair, cons_append, cons_append, codePoints_pair hpair, ih hrest]
    rfl
  | case4 unit next rest hpair ih =>
    have hrest : ∀ last ∈ (next :: rest).getLast?, Apart last back := by
      intro last hlast
      apply h
      rw [getLast?_cons_cons]
      exact hlast
    rw [cons_append, cons_append, codePoints, if_neg hpair, codePoints, if_neg hpair,
      ← cons_append, ih hrest]
    rfl

theorem utf8Length_append (h : ∀ unit ∈ front.getLast?, Apart unit back) :
    utf8Length (front ++ back) = utf8Length front + utf8Length back := by
  rw [utf8Length, codePoints_append h, map_append, sum_append]
  rfl

theorem apart_of_not_low {unit : UInt16} {text : List UInt16}
    (h : ∀ next ∈ text.head?, isLowSurrogate next = false) : Apart unit text := by
  intro next hnext
  rw [isPair, h next hnext, Bool.and_false]

theorem apart_of_not_high {unit : UInt16} {text : List UInt16} (h : isHighSurrogate unit = false) :
    Apart unit text := by
  intro next _
  rw [isPair, h, Bool.false_and]

end Append

end DshKernel.Js
