import Mathlib.Data.List.Basic

/-!
# Histories

What holds of each entry of a history and of the entries before it. A history only grows at its
end.
-/

namespace DshKernel.Lib

variable {α : Type} {holds : List α → α → Prop} {entry : α} {entries more : List α}

/-- Each entry is as said of it and of those before it. -/
def Throughout (holds : List α → α → Prop) (entries : List α) : Prop :=
  ∀ before entry after, entries = before ++ entry :: after → holds before entry

@[simp] theorem throughout_nil : Throughout holds [] := by
  intro before entry after h
  cases before <;> cases h

theorem throughout_cons :
    Throughout holds (entry :: entries) ↔
      holds [] entry ∧ Throughout (fun before => holds (entry :: before)) entries := by
  constructor
  · intro h
    refine ⟨h [] entry entries rfl, ?_⟩
    intro before later after heq
    exact h (entry :: before) later after (by rw [heq]; rfl)
  · rintro ⟨hfirst, hrest⟩ before later after heq
    cases before with
    | nil =>
      obtain ⟨rfl, -⟩ := List.cons.inj heq
      exact hfirst
    | cons first before =>
      obtain ⟨rfl, hentries⟩ := List.cons.inj heq
      exact hrest before later after hentries

theorem throughout_append :
    Throughout holds (entries ++ more) ↔
      Throughout holds entries ∧ Throughout (fun before => holds (entries ++ before)) more := by
  induction entries generalizing holds with
  | nil => simp
  | cons entry entries ih =>
    rw [List.cons_append, throughout_cons, throughout_cons, ih, and_assoc]
    rfl

theorem throughout_concat :
    Throughout holds (entries ++ [entry]) ↔ Throughout holds entries ∧ holds entries entry := by
  rw [throughout_append, throughout_cons]
  simp

theorem Throughout.of_isPrefix (h : Throughout holds more) (hentries : entries <+: more) :
    Throughout holds entries := by
  obtain ⟨rest, rfl⟩ := hentries
  exact (throughout_append.mp h).1

/-- The entries are looked at one after the other. -/
def decideThroughout (holds : List α → α → Prop) [∀ before entry, Decidable (holds before entry)] :
    (entries : List α) → Decidable (Throughout holds entries)
  | [] => .isTrue throughout_nil
  | entry :: entries =>
    have := decideThroughout (fun before => holds (entry :: before)) entries
    decidable_of_iff _ throughout_cons.symm

instance [∀ before entry, Decidable (holds before entry)] : Decidable (Throughout holds entries) :=
  decideThroughout holds entries

end DshKernel.Lib
