import Mathlib.Data.List.Basic

/-!
# Lists changed entry by entry

Two lists of one length whose entries are related, each to the one at its position.
-/

namespace DshKernel.Lib

variable {α : Type} {R : Nat → α → α → Prop} {before after : List α} {change : α → α}

structure Pointwise (R : Nat → α → α → Prop) (before after : List α) : Prop where
  length : after.length = before.length
  related : ∀ (i : Nat) (y : α), after[i]? = some y → ∃ x, before[i]? = some x ∧ R i x y

namespace Pointwise

theorem refl (hrefl : ∀ i x, R i x x) (before : List α) : Pointwise R before before :=
  ⟨rfl, fun i y h => ⟨y, h, hrefl i y⟩⟩

theorem mapIdx {change : Nat → α → α} (h : ∀ i x, before[i]? = some x → R i x (change i x)) :
    Pointwise R before (before.mapIdx change) := by
  refine ⟨List.length_mapIdx, ?_⟩
  intro i y hy
  rw [List.getElem?_mapIdx] at hy
  obtain ⟨x, hx, rfl⟩ := Option.map_eq_some_iff.mp hy
  exact ⟨x, hx, h i x hx⟩

theorem map (h : ∀ i x, before[i]? = some x → R i x (change x)) :
    Pointwise R before (before.map change) := by
  refine ⟨List.length_map _, ?_⟩
  intro i y hy
  rw [List.getElem?_map] at hy
  obtain ⟨x, hx, rfl⟩ := Option.map_eq_some_iff.mp hy
  exact ⟨x, hx, h i x hx⟩

theorem modify {position : Nat} (hrefl : ∀ i x, R i x x)
    (h : ∀ x, before[position]? = some x → R position x (change x)) :
    Pointwise R before (before.modify position change) := by
  refine ⟨List.length_modify _ _ _, ?_⟩
  intro i y hy
  rw [List.getElem?_modify] at hy
  obtain ⟨x, hx, rfl⟩ := Option.map_eq_some_iff.mp hy
  refine ⟨x, hx, ?_⟩
  split
  · rename_i heq
    subst heq
    exact h x hx
  · exact hrefl i x

/-- An entry before is one after, at its position. -/
theorem forward (h : Pointwise R before after) {i : Nat} {x : α} (hx : before[i]? = some x) :
    ∃ y, after[i]? = some y ∧ R i x y := by
  have hlt : i < after.length := by
    rw [h.length]
    exact (List.getElem?_eq_some_iff.mp hx).1
  have hy := List.getElem?_eq_getElem hlt
  obtain ⟨found, hfound, hrel⟩ := h.related i _ hy
  cases hx.symm.trans hfound
  exact ⟨_, hy, hrel⟩

end Pointwise

end DshKernel.Lib
