import Mathlib.Algebra.Ring.Nat
import Mathlib.Data.List.Basic

/-!
# Parts of a list within a budget

The longest prefix and the longest suffix whose items cost no more than a budget.
-/

namespace DshKernel.Lib

open List

variable {α : Type} (weight : α → Nat)

def cost (items : List α) : Nat := (items.map weight).sum

structure LongestPrefix (budget : Nat) (items chosen : List α) : Prop where
  isPrefix : chosen <+: items
  fits : cost weight chosen ≤ budget
  longest : ∀ other, other <+: items → cost weight other ≤ budget → other <+: chosen

structure LongestSuffix (budget : Nat) (items chosen : List α) : Prop where
  isSuffix : chosen <:+ items
  fits : cost weight chosen ≤ budget
  longest : ∀ other, other <:+ items → cost weight other ≤ budget → other <:+ chosen

variable {weight}

@[simp] theorem cost_nil : cost weight [] = 0 := rfl

@[simp] theorem cost_cons (item : α) (items : List α) :
    cost weight (item :: items) = weight item + cost weight items := by
  simp [cost]

@[simp] theorem cost_append (left right : List α) :
    cost weight (left ++ right) = cost weight left + cost weight right := by
  simp [cost]

@[simp] theorem cost_reverse (items : List α) : cost weight items.reverse = cost weight items := by
  simp [cost, sum_reverse]

theorem cost_le_of_isPrefix {left right : List α} (h : left <+: right) :
    cost weight left ≤ cost weight right := by
  obtain ⟨rest, rfl⟩ := h
  rw [cost_append]
  omega

/-- Take items while they fit: what is left, if anything, begins with one that does not. -/
theorem exists_prefix_within (budget : Nat) (items : List α) :
    ∃ chosen rest, items = chosen ++ rest ∧ cost weight chosen ≤ budget ∧
      ∀ next more, rest = next :: more → budget < cost weight chosen + weight next := by
  induction items generalizing budget with
  | nil => exact ⟨[], [], rfl, Nat.zero_le _, fun _ _ h => nomatch h⟩
  | cons item items ih =>
    by_cases hitem : weight item ≤ budget
    · obtain ⟨chosen, rest, hitems, hfits, hstops⟩ := ih (budget - weight item)
      refine ⟨item :: chosen, rest, by rw [hitems]; rfl, by rw [cost_cons]; omega, ?_⟩
      intro next more hrest
      have hnext := hstops next more hrest
      rw [cost_cons]
      omega
    · refine ⟨[], item :: items, rfl, Nat.zero_le _, ?_⟩
      intro next more hrest
      obtain ⟨rfl, rfl⟩ := cons.inj hrest
      rw [cost_nil]
      omega

variable {chosen items rest : List α} {budget : Nat}

/-- Items taken while they fit are the longest prefix within the budget. -/
theorem longestPrefix_of_stops
    (hfits : cost weight chosen ≤ budget)
    (hstops : ∀ next more, rest = next :: more → budget < cost weight chosen + weight next) :
    LongestPrefix weight budget (chosen ++ rest) chosen := by
  refine ⟨prefix_append chosen rest, hfits, ?_⟩
  intro other hother hcost
  rcases prefix_or_prefix_of_prefix hother (prefix_append chosen rest) with h | h
  · exact h
  · obtain ⟨more, rfl⟩ := h
    cases more with
    | nil => exact ⟨[], by simp⟩
    | cons next more =>
      obtain ⟨last, hlast⟩ := (prefix_append_right_inj chosen).mp hother
      have hnext := hstops next (more ++ last) hlast.symm
      rw [cost_append, cost_cons] at hcost
      omega

theorem LongestPrefix.reverse
    (h : LongestPrefix weight budget items chosen) :
    LongestSuffix weight budget items.reverse chosen.reverse := by
  refine ⟨reverse_suffix.mpr h.isPrefix, by rw [cost_reverse]; exact h.fits, ?_⟩
  intro other hother hcost
  have hfront : other.reverse <+: items := by
    rw [← reverse_suffix, reverse_reverse]
    exact hother
  have hlongest := h.longest other.reverse hfront (by rw [cost_reverse]; exact hcost)
  rw [← reverse_prefix, reverse_reverse]
  exact hlongest

/-- From the end, items taken while they fit are the longest suffix within the budget. -/
theorem longestSuffix_of_stops
    (hfits : cost weight chosen ≤ budget)
    (hstops : ∀ more next, rest = more ++ [next] → budget < weight next + cost weight chosen) :
    LongestSuffix weight budget (rest ++ chosen) chosen := by
  have hreverse : LongestPrefix weight budget (chosen.reverse ++ rest.reverse) chosen.reverse := by
    apply longestPrefix_of_stops
    · rw [cost_reverse]
      exact hfits
    · intro next more hrest
      have hnext := hstops more.reverse next (by rw [← reverse_inj, hrest]; simp)
      rw [cost_reverse]
      omega
  have h := hreverse.reverse
  rwa [reverse_append, reverse_reverse, reverse_reverse] at h

theorem exists_suffix_within (budget : Nat) (items : List α) :
    ∃ rest chosen, items = rest ++ chosen ∧ cost weight chosen ≤ budget ∧
      ∀ more next, rest = more ++ [next] → budget < weight next + cost weight chosen := by
  obtain ⟨chosen, rest, hitems, hfits, hstops⟩ :=
    @exists_prefix_within _ weight budget items.reverse
  refine ⟨rest.reverse, chosen.reverse, ?_, by rw [cost_reverse]; exact hfits, ?_⟩
  · rw [← reverse_append, ← hitems, reverse_reverse]
  · intro more next hrest
    have hnext := hstops next more.reverse (by rw [← reverse_inj, hrest]; simp)
    rw [cost_reverse]
    omega

/-- A prefix and a suffix that together cost less than the whole do not meet. -/
theorem exists_gap {first last : List α} (hfirst : first <+: items) (hlast : last <:+ items)
    (hcost : cost weight first + cost weight last < cost weight items) :
    ∃ gap, items = first ++ gap ++ last := by
  obtain ⟨rest, rfl⟩ := hfirst
  obtain ⟨start, hstart⟩ := hlast
  have hcosts : cost weight start + cost weight last = cost weight first + cost weight rest := by
    rw [← cost_append, ← cost_append, hstart]
  rw [cost_append] at hcost
  rcases prefix_or_prefix_of_prefix (prefix_append first rest)
    (⟨last, hstart⟩ : start <+: first ++ rest) with h | h
  · obtain ⟨gap, rfl⟩ := h
    exact ⟨gap, hstart.symm⟩
  · have hle := @cost_le_of_isPrefix _ weight _ _ h
    omega

end DshKernel.Lib
