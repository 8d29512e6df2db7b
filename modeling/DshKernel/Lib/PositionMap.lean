import DshKernel.Lib.OrderedMap

/-!
# Maps under positions

Maps whose keys are the positions of a list of values, in order.
-/

namespace DshKernel.Lib.OrderedMap

open List

variable {ν : Type} {m : OrderedMap Nat ν} {start place : Nat} {value : ν} {values : List ν}

/-- The entries are the values under their positions, counted from `start`. -/
def EntriesFrom (m : OrderedMap Nat ν) (start : Nat) (values : List ν) : Prop :=
  m.entries = (values.zipIdx start).map Prod.swap

theorem entriesFrom_empty : (empty : OrderedMap Nat ν).EntriesFrom start [] := rfl

namespace EntriesFrom

theorem mem_iff (h : m.EntriesFrom start values) :
    (place, value) ∈ m.entries ↔ start ≤ place ∧ values[place - start]? = some value := by
  rw [h, mem_map]
  constructor
  · rintro ⟨⟨found, at_⟩, hmem, heq⟩
    cases heq
    exact mem_zipIdx_iff_le_and_getElem?_sub.mp hmem
  · intro hvalue
    exact ⟨(value, place), mem_zipIdx_iff_le_and_getElem?_sub.mpr hvalue, rfl⟩

theorem get?_add (h : m.EntriesFrom start values) (place : Nat) :
    m.get? (start + place) = values[place]? := by
  apply Option.ext
  intro value
  rw [get?_eq_some, h.mem_iff, Nat.add_sub_cancel_left]
  exact and_iff_right (Nat.le_add_right start place)

theorem mem_keys_iff (h : m.EntriesFrom start values) :
    place ∈ m.keys ↔ start ≤ place ∧ place < start + values.length := by
  have hkeys : m.keys = range' start values.length := by
    rw [keys, h, map_map, ← zipIdx_map_snd]
    rfl
  rw [hkeys, mem_range'_1]

theorem push (h : m.EntriesFrom start values) (value : ν) :
    (m.set (start + values.length) value).EntriesFrom start (values ++ [value]) := by
  have hnew : start + values.length ∉ m.keys := by
    rw [h.mem_keys_iff]
    omega
  unfold EntriesFrom
  rw [entries_set_of_not_mem hnew, h, zipIdx_append, map_append]
  rfl

theorem set (h : m.EntriesFrom start values) (hplace : place < values.length) (value : ν) :
    (m.set (start + place) value).EntriesFrom start (values.set place value) := by
  have hold : start + place ∈ m.keys := by
    rw [h.mem_keys_iff]
    omega
  unfold EntriesFrom
  rw [entries_set_of_mem hold, h, map_map]
  apply ext_getElem
  · simp
  · intro i hleft hright
    by_cases hi : place = i
    · subst hi
      simp [replaceEntry]
    · have hne : ¬i = place := fun heq => hi heq.symm
      simp [replaceEntry, hne, hi]

theorem delete_first (h : m.EntriesFrom start (value :: values)) :
    (m.delete start).EntriesFrom (start + 1) values := by
  unfold EntriesFrom
  change m.entries.filter (fun entry => decide (entry.1 ≠ start)) = _
  rw [h, zipIdx_cons, map_cons, filter_cons_of_neg (by simp)]
  apply filter_eq_self.mpr
  intro entry hentry
  obtain ⟨⟨found, at_⟩, hmem, rfl⟩ := mem_map.mp hentry
  have hle := (mem_zipIdx_iff_le_and_getElem?_sub.mp hmem).1
  exact decide_eq_true (show at_ ≠ start by omega)

end EntriesFrom

end DshKernel.Lib.OrderedMap
