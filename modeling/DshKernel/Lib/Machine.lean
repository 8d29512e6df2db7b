import Mathlib.Data.List.Basic

/-!
# Runs of a machine

A machine takes a step for each action that it allows, and tells what happened. Its runs may be
restricted to steps that meet a condition on the state before them.
-/

namespace DshKernel.Lib

variable {S A E : Type}

/-- The states that a run leads to, with all that happened on the way. -/
inductive Reaches (step : S → A → Option (S × List E)) (meets : S → A → Prop) (start : S) :
    S → List E → Prop where
  | refl : Reaches step meets start start []
  | next {s t : S} {log news : List E} (before : Reaches step meets start s log) (a : A)
      (hmeets : meets s a) (hstep : step s a = some (t, news)) :
      Reaches step meets start t (log ++ news)

namespace Reaches

variable {step : S → A → Option (S × List E)} {meets : S → A → Prop} {start s t : S}
variable {log more : List E}

/-- What holds at the start and is kept by every step holds of every run. -/
theorem invariant {P : S → List E → Prop} (run : Reaches step meets start s log) (hstart : P start [])
    (hkept : ∀ s t log news a, P s log → meets s a → step s a = some (t, news) → P t (log ++ news)) :
    P s log := by
  induction run with
  | refl => exact hstart
  | next _ a hmeets hstep ih => exact hkept _ _ _ _ a ih hmeets hstep

theorem append (run : Reaches step meets start s log) (later : Reaches step meets s t more) :
    Reaches step meets start t (log ++ more) := by
  induction later with
  | refl =>
    rw [List.append_nil]
    exact run
  | next _ a hmeets hstep ih =>
    rw [← List.append_assoc]
    exact ih.next a hmeets hstep

/-- A reflexive and transitive relation that every step from a state of a run obeys relates the ends
of the run. -/
theorem related {R : S → S → Prop} {P : S → List E → Prop} (run : Reaches step meets start s log)
    (hstart : P start [])
    (hkept : ∀ s t log news a, P s log → meets s a → step s a = some (t, news) → P t (log ++ news))
    (hrefl : R start start) (htrans : ∀ s t u, R s t → R t u → R s u)
    (hstep : ∀ s t log news a, P s log → meets s a → step s a = some (t, news) → R s t) :
    R start s := by
  have hboth : P s log ∧ R start s := by
    induction run with
    | refl => exact ⟨hstart, hrefl⟩
    | next _ a hmeets hnext ih =>
      obtain ⟨hP, hR⟩ := ih
      exact ⟨hkept _ _ _ _ a hP hmeets hnext, htrans _ _ _ hR (hstep _ _ _ _ a hP hmeets hnext)⟩
  exact hboth.2

/-- A run under a condition is one under a weaker condition. -/
theorem weaken {weaker : S → A → Prop} (run : Reaches step meets start s log)
    (hweaker : ∀ s a, meets s a → weaker s a) : Reaches step weaker start s log := by
  induction run with
  | refl => exact .refl
  | next _ a hmeets hstep ih => exact ih.next a (hweaker _ a hmeets) hstep

end Reaches

end DshKernel.Lib
