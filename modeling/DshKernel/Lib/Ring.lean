import Mathlib.Algebra.Ring.Nat
import Mathlib.Data.List.Basic

/-!
# Places on a ring

The places of a ring of `cap` slots, counted from its head.
-/

namespace DshKernel.Lib

/-- The slot of entry `i` after the head. -/
def place (cap head i : Nat) : Nat := if head + i < cap then head + i else head + i - cap

/-- The slot after a slot. -/
def nextPlace (cap slot : Nat) : Nat := if slot + 1 = cap then 0 else slot + 1

/-- The slot before a slot. -/
def previousPlace (cap slot : Nat) : Nat := if slot = 0 then cap - 1 else slot - 1

section Places

variable {cap head i j : Nat}

theorem place_lt (hhead : head < cap) (hi : i < cap) : place cap head i < cap := by
  unfold place
  split <;> omega

theorem place_inj (hhead : head < cap) (hi : i < cap) (hj : j < cap) :
    place cap head i = place cap head j ↔ i = j := by
  constructor
  · unfold place
    split <;> split <;> omega
  · rintro rfl
    rfl

theorem exists_place (hhead : head < cap) (hj : j < cap) : ∃ i < cap, place cap head i = j := by
  by_cases hbefore : j < head
  · refine ⟨j + cap - head, by omega, ?_⟩
    rw [place, if_neg (by omega)]
    omega
  · refine ⟨j - head, by omega, ?_⟩
    rw [place, if_pos (by omega)]
    omega

theorem place_zero (hhead : head < cap) : place cap head 0 = head := if_pos hhead

theorem nextPlace_lt (hhead : head < cap) : nextPlace cap head < cap := by
  unfold nextPlace
  split <;> omega

theorem previousPlace_lt (hhead : head < cap) : previousPlace cap head < cap := by
  unfold previousPlace
  split <;> omega

theorem nextPlace_place (hhead : head < cap) (hi : i < cap) :
    nextPlace cap (place cap head i) = place cap head (i + 1) := by
  unfold nextPlace place
  split <;> split <;> split <;> omega

/-- One slot further, every entry is counted one less. -/
theorem place_nextPlace (hhead : head < cap) (hi : i < cap) :
    place cap (nextPlace cap head) i = place cap head (i + 1) := by
  unfold nextPlace place
  split <;> split <;> split <;> omega

theorem nextPlace_previousPlace (hhead : head < cap) :
    nextPlace cap (previousPlace cap head) = head := by
  unfold nextPlace previousPlace
  split <;> split <;> omega

theorem place_all (hhead : head < cap) : place cap head cap = head := by
  rw [place, if_neg (by omega)]
  omega

end Places

end DshKernel.Lib
