import Mathlib.Data.List.Chain
import Mathlib.Order.Cover

/-!
# Lists of adjacent ranges

The elements of a list cover inclusive ranges of a linear order. When each range begins right
behind the one before it, the ranges are disjoint and everything between the two ends of the list
is in exactly one of them.
-/

namespace DshKernel.Lib

open List

section Tiling

variable {α β : Type} [LinearOrder β] {first last : α → β}

/-- Each range is proper, and the next begins right behind it. -/
structure Tiling (first last : α → β) (l : List α) : Prop where
  proper : ∀ a ∈ l, first a ≤ last a
  adjacent : l.IsChain fun a b => last a ⋖ first b

/-- Whether the range of `a` has `c` in it. -/
def covers (first last : α → β) (c : β) (a : α) : Bool := first a ≤ c && c ≤ last a

theorem covers_iff {c : β} {a : α} : covers first last c a = true ↔ first a ≤ c ∧ c ≤ last a := by
  simp [covers]

namespace Tiling

variable {a b : α} {l l' : List α} {c : β}

theorem nil : Tiling first last ([] : List α) :=
  ⟨fun _ h => absurd h not_mem_nil, isChain_nil⟩

theorem singleton (h : first a ≤ last a) : Tiling first last [a] :=
  ⟨fun _ hmem => mem_singleton.mp hmem ▸ h, isChain_singleton a⟩

theorem append (h : Tiling first last l) (h' : Tiling first last l')
    (hjoin : ∀ a ∈ l.getLast?, ∀ b ∈ l'.head?, last a ⋖ first b) : Tiling first last (l ++ l') := by
  refine ⟨?_, h.adjacent.append h'.adjacent hjoin⟩
  intro a ha
  rcases mem_append.mp ha with ha | ha
  · exact h.proper a ha
  · exact h'.proper a ha

theorem of_prefix (h : Tiling first last l) (hbegin : l' <+: l) : Tiling first last l' := by
  refine ⟨?_, h.adjacent.prefix hbegin⟩
  intro a ha
  exact h.proper a (hbegin.subset ha)

theorem tail (h : Tiling first last (a :: l)) : Tiling first last l :=
  ⟨fun b hb => h.proper b (mem_cons_of_mem a hb), h.adjacent.tail⟩

/-- All later ranges lie behind the first. -/
theorem lt_of_mem (h : Tiling first last (a :: l)) (hb : b ∈ l) : last a < first b := by
  induction l generalizing a with
  | nil => exact absurd hb not_mem_nil
  | cons next l ih =>
    have hnext : last a < first next := (isChain_cons_cons.mp h.adjacent).1.lt
    rcases mem_cons.mp hb with rfl | hb
    · exact hnext
    · have hproper := h.proper next (by simp)
      exact (hnext.trans_le hproper).trans (ih h.tail hb)

theorem head_le (h : Tiling first last l) (ha : a ∈ l.head?) (hb : b ∈ l) : first a ≤ first b := by
  cases l with
  | nil => cases ha
  | cons start l =>
    cases ha
    rcases mem_cons.mp hb with rfl | hb
    · exact le_refl _
    · exact (h.proper a (by simp)).trans (h.lt_of_mem hb).le

theorem countP_eq_zero (h : ∀ a ∈ l, c < first a) : l.countP (covers first last c) = 0 := by
  rw [List.countP_eq_zero]
  intro a ha hcovers
  exact absurd (covers_iff.mp hcovers).1 (not_le.mpr (h a ha))

/-- Between its ends a tiling covers everything exactly once. -/
theorem countP_eq_one (h : Tiling first last l) (ha : a ∈ l.head?) (hb : b ∈ l.getLast?)
    (hfirst : first a ≤ c) (hlast : c ≤ last b) : l.countP (covers first last c) = 1 := by
  induction l generalizing a with
  | nil => cases ha
  | cons start l ih =>
    cases ha
    by_cases hc : c ≤ last start
    · have hrest : l.countP (covers first last c) = 0 :=
        countP_eq_zero fun b hb => hc.trans_lt (h.lt_of_mem hb)
      rw [countP_cons_of_pos (covers_iff.mpr ⟨hfirst, hc⟩), hrest]
    · have hout : ¬ covers first last c start = true := fun hcovers => hc (covers_iff.mp hcovers).2
      rw [countP_cons_of_neg hout]
      cases l with
      | nil =>
        cases hb
        exact absurd hlast hc
      | cons next l =>
        have hadjacent := (isChain_cons_cons.mp h.adjacent).1
        refine ih h.tail rfl ?_ (hadjacent.ge_of_gt (not_le.mp hc))
        rwa [getLast?_cons_cons] at hb

/-- What begins before a bound comes first. -/
theorem filter_prefix (h : Tiling first last l) {p : α → Bool}
    (hp : ∀ a, p a = true ↔ first a < c) : l.filter p <+: l := by
  induction l with
  | nil => exact prefix_refl _
  | cons a l ih =>
    cases hpa : p a with
    | true =>
      rw [filter_cons_of_pos hpa]
      exact (prefix_cons_inj a).mpr (ih h.tail)
    | false =>
      have hle : c ≤ first a := by
        rw [← not_lt, ← hp, hpa]
        exact Bool.false_ne_true
      have hnone : (a :: l).filter p = [] := by
        rw [filter_eq_nil_iff]
        intro b hb
        rw [hp, not_lt]
        rcases mem_cons.mp hb with rfl | hb
        · exact hle
        · exact hle.trans ((h.proper a (by simp)).trans (h.lt_of_mem hb).le)
      rw [hnone]
      exact nil_prefix

end Tiling

end Tiling

end DshKernel.Lib
