/-!
# Insertion-ordered maps

A map that is iterated in the order in which its keys were first set. Setting a key that
is present keeps its place; deleting a key and setting it again moves it to the end.
-/

namespace DshKernel.Lib

open List

section Lookup

variable {κ ν : Type} [DecidableEq κ] {entries : List (κ × ν)} {key : κ} {value : ν}

theorem lookup_eq_some_of_mem (hnodup : (entries.map Prod.fst).Nodup)
    (hmem : (key, value) ∈ entries) : entries.lookup key = some value := by
  induction entries with
  | nil => simp at hmem
  | cons head tail ih =>
    obtain ⟨k, v⟩ := head
    simp only [map_cons, nodup_cons] at hnodup
    rcases mem_cons.mp hmem with heq | htail
    · cases heq
      exact lookup_cons_self
    · have hk : key ≠ k := by
        rintro rfl
        exact hnodup.1 (mem_map_of_mem htail)
      rw [lookup_cons, beq_false_of_ne hk]
      exact ih hnodup.2 htail

theorem mem_of_lookup_eq_some (h : entries.lookup key = some value) : (key, value) ∈ entries := by
  induction entries with
  | nil => simp at h
  | cons head tail ih =>
    obtain ⟨k, v⟩ := head
    by_cases hk : key = k
    · subst hk
      rw [lookup_cons_self] at h
      rw [Option.some.inj h]
      exact mem_cons_self
    · rw [lookup_cons, beq_false_of_ne hk] at h
      exact mem_cons_of_mem _ (ih h)

theorem lookup_eq_none_iff_not_mem : entries.lookup key = none ↔ key ∉ entries.map Prod.fst := by
  rw [lookup_eq_none_iff]
  constructor
  · intro h hmem
    obtain ⟨entry, hentry, rfl⟩ := mem_map.mp hmem
    exact absurd (h entry hentry) (by simp)
  · intro h entry hentry
    rw [bne_iff_ne]
    rintro rfl
    exact h (mem_map_of_mem hentry)

theorem lookup_map_value {β : Type} (change : κ → ν → β) (entries : List (κ × ν)) :
    (entries.map fun entry => (entry.1, change entry.1 entry.2)).lookup key =
      (entries.lookup key).map (change key) := by
  induction entries with
  | nil => rfl
  | cons entry rest ih =>
    rw [map_cons, lookup_cons, lookup_cons, ih]
    by_cases hkey : key = entry.1
    · rw [hkey, beq_self_eq_true]
      rfl
    · rw [beq_false_of_ne hkey]

theorem lookup_filter (keep : κ → Bool) (entries : List (κ × ν)) :
    (entries.filter fun entry => keep entry.1).lookup key =
      if keep key then entries.lookup key else none := by
  induction entries with
  | nil => simp
  | cons entry rest ih =>
    obtain ⟨k, v⟩ := entry
    by_cases hkeep : keep k
    · rw [filter_cons_of_pos (by simpa using hkeep), lookup_cons, lookup_cons, ih]
      by_cases hkey : key = k
      · subst hkey
        simp [hkeep]
      · simp [beq_false_of_ne hkey]
    · rw [filter_cons_of_neg (by simpa using hkeep), ih, lookup_cons]
      by_cases hkey : key = k
      · subst hkey
        simp [hkeep]
      · simp [beq_false_of_ne hkey]

end Lookup

structure OrderedMap (κ ν : Type) where
  entries : List (κ × ν)
  nodup : (entries.map Prod.fst).Nodup

namespace OrderedMap

variable {κ ν : Type}

instance [Repr κ] [Repr ν] : Repr (OrderedMap κ ν) := ⟨fun m => reprPrec m.entries⟩

def empty : OrderedMap κ ν := ⟨[], nodup_nil⟩

@[simp] theorem entries_empty : (empty : OrderedMap κ ν).entries = [] := rfl

def keys (m : OrderedMap κ ν) : List κ := m.entries.map Prod.fst

variable [DecidableEq κ]

def get? (m : OrderedMap κ ν) (k : κ) : Option ν := m.entries.lookup k

/-- The value of a present key is replaced in its place. -/
def replaceEntry (k : κ) (v : ν) (entry : κ × ν) : κ × ν :=
  if entry.1 = k then (k, v) else entry

theorem map_fst_replaceEntry (k : κ) (v : ν) (entries : List (κ × ν)) :
    (entries.map (replaceEntry k v)).map Prod.fst = entries.map Prod.fst := by
  rw [map_map]
  apply map_congr_left
  intro entry _
  by_cases h : entry.1 = k
  · simp [replaceEntry, h]
  · simp [replaceEntry, h]

def set (m : OrderedMap κ ν) (k : κ) (v : ν) : OrderedMap κ ν :=
  if h : k ∈ m.keys then
    ⟨m.entries.map (replaceEntry k v), by rw [map_fst_replaceEntry]; exact m.nodup⟩
  else
    ⟨m.entries ++ [(k, v)], by
      rw [map_append]
      refine nodup_append.mpr ⟨m.nodup, by simp, ?_⟩
      intro key hkey other hother heq
      simp only [map_cons, map_nil, mem_singleton] at hother
      exact h (hother ▸ heq ▸ hkey)⟩

def delete (m : OrderedMap κ ν) (k : κ) : OrderedMap κ ν :=
  ⟨m.entries.filter fun entry => decide (entry.1 ≠ k),
    m.nodup.sublist (filter_sublist.map Prod.fst)⟩

variable {m : OrderedMap κ ν} {k other : κ} {v : ν} {entry : κ × ν} {f : κ → ν → ν} {p : ν → Prop}

theorem entries_set_of_mem (h : k ∈ m.keys) :
    (m.set k v).entries = m.entries.map (replaceEntry k v) := by
  rw [set, dif_pos h]

theorem entries_set_of_not_mem (h : k ∉ m.keys) : (m.set k v).entries = m.entries ++ [(k, v)] := by
  rw [set, dif_neg h]

theorem mem_entries_set :
    entry ∈ (m.set k v).entries ↔ entry = (k, v) ∨ entry ∈ m.entries ∧ entry.1 ≠ k := by
  unfold set
  split
  · rename_i hk
    simp only [mem_map]
    constructor
    · rintro ⟨old, hold, rfl⟩
      by_cases h : old.1 = k
      · exact Or.inl (by simp [replaceEntry, h])
      · exact Or.inr (by simpa [replaceEntry, h] using hold)
    · rintro (rfl | ⟨hold, hne⟩)
      · obtain ⟨old, hold, rfl⟩ := mem_map.mp hk
        exact ⟨old, hold, by simp [replaceEntry]⟩
      · exact ⟨entry, hold, by simp [replaceEntry, hne]⟩
  · rename_i hk
    simp only [mem_append, mem_singleton]
    constructor
    · rintro (hold | rfl)
      · exact Or.inr ⟨hold, fun heq => hk (heq ▸ mem_map_of_mem hold)⟩
      · exact Or.inl rfl
    · rintro (rfl | ⟨hold, -⟩)
      · exact Or.inr rfl
      · exact Or.inl hold

theorem mem_entries_delete : entry ∈ (m.delete k).entries ↔ entry ∈ m.entries ∧ entry.1 ≠ k := by
  simp [delete]

theorem get?_eq_some : m.get? k = some v ↔ (k, v) ∈ m.entries :=
  ⟨mem_of_lookup_eq_some, lookup_eq_some_of_mem m.nodup⟩

theorem get?_eq_none : m.get? k = none ↔ k ∉ m.keys :=
  lookup_eq_none_iff_not_mem

theorem get?_set : (m.set k v).get? other = if other = k then some v else m.get? other := by
  apply Option.ext
  intro value
  rw [get?_eq_some, mem_entries_set]
  by_cases h : other = k
  · simp [h, eq_comm]
  · simp [h, get?_eq_some]

theorem get?_delete : (m.delete k).get? other = if other = k then none else m.get? other := by
  apply Option.ext
  intro value
  rw [get?_eq_some, mem_entries_delete]
  by_cases h : other = k
  · simp [h]
  · simp [h, get?_eq_some]

/-- The values are replaced, each in its place. -/
def mapValues (m : OrderedMap κ ν) (f : κ → ν → ν) : OrderedMap κ ν :=
  ⟨m.entries.map fun entry => (entry.1, f entry.1 entry.2), by
    rw [map_map]
    exact m.nodup⟩

theorem get?_mapValues : (m.mapValues f).get? k = (m.get? k).map (f k) :=
  lookup_map_value f m.entries

theorem get?_set_eq_some {value : ν} :
    (m.set k v).get? other = some value ↔
      other = k ∧ v = value ∨ other ≠ k ∧ m.get? other = some value := by
  rw [get?_set]
  by_cases h : other = k
  · simp [h]
  · simp [h]

theorem get?_delete_eq_some {value : ν} :
    (m.delete k).get? other = some value ↔ other ≠ k ∧ m.get? other = some value := by
  rw [get?_delete]
  by_cases h : other = k
  · simp [h]
  · simp [h]

theorem get?_mapValues_eq_some {value : ν} :
    (m.mapValues f).get? k = some value ↔ ∃ old, m.get? k = some old ∧ f k old = value := by
  rw [get?_mapValues, Option.map_eq_some_iff]

theorem exists_set :
    (∃ value, (m.set k v).get? other = some value ∧ p value) ↔
      other = k ∧ p v ∨ other ≠ k ∧ ∃ value, m.get? other = some value ∧ p value := by
  simp only [get?_set_eq_some]
  grind

theorem exists_delete :
    (∃ value, (m.delete k).get? other = some value ∧ p value) ↔
      other ≠ k ∧ ∃ value, m.get? other = some value ∧ p value := by
  simp only [get?_delete_eq_some, and_assoc, exists_and_left]

theorem exists_mapValues :
    (∃ value, (m.mapValues f).get? k = some value ∧ p value) ↔
      ∃ value, m.get? k = some value ∧ p (f k value) := by
  simp only [get?_mapValues_eq_some]
  grind

/-- Every entry of a list is set in its turn. -/
def setAll (m : OrderedMap κ ν) (entries : List (κ × ν)) : OrderedMap κ ν :=
  entries.foldl (fun m entry => m.set entry.1 entry.2) m

/-- The entries win over what the map held. -/
theorem get?_setAll {entries : List (κ × ν)} (hnodup : (entries.map Prod.fst).Nodup) :
    (m.setAll entries).get? k = (entries.lookup k).or (m.get? k) := by
  induction entries generalizing m with
  | nil => rfl
  | cons entry rest ih =>
    obtain ⟨key, value⟩ := entry
    simp only [map_cons, nodup_cons] at hnodup
    change ((m.set key value).setAll rest).get? k = _
    rw [ih hnodup.2, get?_set, lookup_cons]
    by_cases hk : k = key
    · subst hk
      simp [lookup_eq_none_iff_not_mem.mpr hnodup.1]
    · rw [if_neg hk, beq_false_of_ne hk]

end OrderedMap

end DshKernel.Lib
