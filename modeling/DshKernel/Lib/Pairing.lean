import Mathlib.Algebra.Ring.Int.Defs
import Mathlib.Data.Finset.Card
import Mathlib.Data.Finset.Image
import Mathlib.Data.Finset.Range
import Mathlib.Algebra.BigOperators.Group.List.Basic

/-!
# Openings and closings

A sequence of marks that open and close something by name. Counting them and matching them mean
the same wherever each closing has an earlier opening of its own.
-/

namespace DshKernel.Lib

inductive Mark (α : Type) where
  | opens (name : α)
  | closes (name : α)
  deriving DecidableEq

namespace Mark

variable {α : Type}

def delta : Mark α → Int
  | opens _ => 1
  | closes _ => -1

/-- The openings less the closings. -/
def balance (marks : List (Mark α)) : Int := (marks.map delta).sum

/-- Each closing has an earlier opening of its name, which no other closing has. -/
structure Answers (marks : List (Mark α)) (opening : Nat → Nat) : Prop where
  earlier : ∀ j name, marks[j]? = some (closes name) →
    opening j < j ∧ marks[opening j]? = some (opens name)
  own : ∀ j k name other, marks[j]? = some (closes name) → marks[k]? = some (closes other) →
    opening j = opening k → j = k

/-- Every opening before `n` has its closing before `n`. -/
def AllClosed (marks : List (Mark α)) (opening : Nat → Nat) (n : Nat) : Prop :=
  ∀ i name, i < n → marks[i]? = some (opens name) →
    ∃ j, j < n ∧ marks[j]? = some (closes name) ∧ opening j = i

section Balance

variable {marks more : List (Mark α)}

@[simp] theorem balance_nil : balance ([] : List (Mark α)) = 0 := rfl

@[simp] theorem balance_append : balance (marks ++ more) = balance marks + balance more := by
  simp [balance]

theorem balance_singleton (mark : Mark α) : balance [mark] = mark.delta := by
  simp [balance]

end Balance

section Positions

variable {marks : List (Mark α)} {opening : Nat → Nat} {n i : Nat}

def isOpen : Mark α → Bool
  | opens _ => true
  | closes _ => false

/-- The places before `n` of the openings, or of the closings. -/
def places (marks : List (Mark α)) (opened : Bool) (n : Nat) : Finset Nat :=
  (Finset.range n).filter fun i => marks[i]?.map isOpen = some opened

theorem mem_places_open :
    i ∈ places marks true n ↔ i < n ∧ ∃ name, marks[i]? = some (opens name) := by
  simp only [places, Finset.mem_filter, Finset.mem_range, Option.map_eq_some_iff]
  apply and_congr_right
  intro _
  constructor
  · rintro ⟨mark, hmark, hopen⟩
    cases mark with
    | opens name => exact ⟨name, hmark⟩
    | closes name => cases hopen
  · rintro ⟨name, hmark⟩
    exact ⟨_, hmark, rfl⟩

theorem mem_places_closed :
    i ∈ places marks false n ↔ i < n ∧ ∃ name, marks[i]? = some (closes name) := by
  simp only [places, Finset.mem_filter, Finset.mem_range, Option.map_eq_some_iff]
  apply and_congr_right
  intro _
  constructor
  · rintro ⟨mark, hmark, hopen⟩
    cases mark with
    | opens name => cases hopen
    | closes name => exact ⟨name, hmark⟩
  · rintro ⟨name, hmark⟩
    exact ⟨_, hmark, rfl⟩

theorem card_places_succ (marks : List (Mark α)) (opened : Bool) (n : Nat) :
    (places marks opened (n + 1)).card =
      (places marks opened n).card + if marks[n]?.map isOpen = some opened then 1 else 0 := by
  unfold places
  rw [Finset.range_add_one, Finset.filter_insert]
  split
  · rw [Finset.card_insert_of_notMem (by simp)]
  · rfl

/-- The balance of a first part counts its places. -/
theorem balance_take (marks : List (Mark α)) (n : Nat) :
    balance (marks.take n) = (places marks true n).card - (places marks false n).card := by
  induction n with
  | zero => rfl
  | succ n ih =>
    rw [card_places_succ, card_places_succ]
    rcases Nat.lt_or_ge n marks.length with hlt | hge
    · rw [List.take_succ_eq_append_getElem hlt, balance_append, ih, balance_singleton,
        List.getElem?_eq_getElem hlt]
      cases marks[n] with
      | opens name =>
        simp [delta, isOpen]
        omega
      | closes name =>
        simp [delta, isOpen]
        omega
    · have hsame : marks.take (n + 1) = marks.take n := by
        rw [List.take_of_length_le hge, List.take_of_length_le (by omega)]
      rw [hsame, ih, List.getElem?_eq_none hge]
      simp

end Positions

namespace Answers

variable {marks : List (Mark α)} {opening : Nat → Nat}

/-- The openings that the closings before `n` have are before `n`. -/
theorem image_subset (h : Answers marks opening) (n : Nat) :
    (places marks false n).image opening ⊆ places marks true n := by
  intro i hi
  obtain ⟨j, hj, rfl⟩ := Finset.mem_image.mp hi
  obtain ⟨hlt, name, hmark⟩ := mem_places_closed.mp hj
  obtain ⟨hearlier, hopens⟩ := h.earlier j name hmark
  exact mem_places_open.mpr ⟨by omega, name, hopens⟩

theorem card_image (h : Answers marks opening) (n : Nat) :
    ((places marks false n).image opening).card = (places marks false n).card := by
  apply Finset.card_image_of_injOn
  intro j hj k hk heq
  obtain ⟨-, name, hmark⟩ := mem_places_closed.mp hj
  obtain ⟨-, other, hother⟩ := mem_places_closed.mp hk
  exact h.own j k name other hmark hother heq

theorem balance_nonneg (h : Answers marks opening) (n : Nat) : 0 ≤ balance (marks.take n) := by
  have hle := Finset.card_le_card (h.image_subset n)
  rw [h.card_image n] at hle
  rw [balance_take]
  omega

/-- Counting is matching: a first part is in balance exactly when it closes all that it opens. -/
theorem balance_eq_zero_iff (h : Answers marks opening) (n : Nat) :
    balance (marks.take n) = 0 ↔ AllClosed marks opening n := by
  have hsubset := h.image_subset n
  have hcard := h.card_image n
  have hle := Finset.card_le_card hsubset
  rw [balance_take]
  constructor
  · intro hzero i name hi hmark
    have heq : (places marks false n).image opening = places marks true n :=
      Finset.eq_of_subset_of_card_le hsubset (by omega)
    have hmem : i ∈ (places marks false n).image opening := by
      rw [heq]
      exact mem_places_open.mpr ⟨hi, name, hmark⟩
    obtain ⟨j, hj, rfl⟩ := Finset.mem_image.mp hmem
    obtain ⟨hlt, other, hother⟩ := mem_places_closed.mp hj
    have hname := (h.earlier j other hother).2
    rw [hmark] at hname
    cases hname
    exact ⟨j, hlt, hother, rfl⟩
  · intro hclosed
    have hsupset : places marks true n ⊆ (places marks false n).image opening := by
      intro i hi
      obtain ⟨hlt, name, hmark⟩ := mem_places_open.mp hi
      obtain ⟨j, hj, hclose, rfl⟩ := hclosed i name hlt hmark
      exact Finset.mem_image_of_mem _ (mem_places_closed.mpr ⟨hj, name, hclose⟩)
    have hge := Finset.card_le_card hsupset
    omega

end Answers

end Mark

end DshKernel.Lib
