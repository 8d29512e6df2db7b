import Mathlib.Data.List.Basic

/-!
# Prefix codes

A code none of whose words begins with another one: texts in the code are read in one way only.
-/

namespace DshKernel.Lib

variable {α β : Type}

structure PrefixCode (code : α → List β) : Prop where
  nonempty : ∀ a, code a ≠ []
  split : ∀ a b rest rest', code a ++ rest = code b ++ rest' → a = b

theorem PrefixCode.flatMap_injective {code : α → List β} (h : PrefixCode code) {xs ys : List α}
    (heq : xs.flatMap code = ys.flatMap code) : xs = ys := by
  induction xs generalizing ys with
  | nil =>
    cases ys with
    | nil => rfl
    | cons y ys =>
      rw [List.flatMap_nil, List.flatMap_cons] at heq
      exact absurd (List.append_eq_nil_iff.mp heq.symm).1 (h.nonempty y)
  | cons x xs ih =>
    cases ys with
    | nil =>
      rw [List.flatMap_nil, List.flatMap_cons] at heq
      exact absurd (List.append_eq_nil_iff.mp heq).1 (h.nonempty x)
    | cons y ys =>
      rw [List.flatMap_cons, List.flatMap_cons] at heq
      obtain rfl := h.split x y _ _ heq
      rw [ih (List.append_cancel_left heq)]

end DshKernel.Lib
