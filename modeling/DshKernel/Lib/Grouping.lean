/-!
# Grouping a sequence by keys

The items of one key form one group, in their order; the groups stand in the order of their first
items. An item without a key is a group of its own.
-/

namespace DshKernel.Lib

open List

section Grouping

variable {α κ : Type} [DecidableEq κ] (key : α → Option κ)

/-- An item goes to the group of an earlier one. -/
def joins (first item : α) : Bool := (key first).isSome && key first == key item

/-- The items that do not go to the group of the first one. -/
def others (first : α) (rest : List α) : List α := rest.filter fun item => !joins key first item

theorem length_others_le (first : α) (rest : List α) : (others key first rest).length ≤ rest.length :=
  length_filter_le _ _

def groups : List α → List (List α)
  | [] => []
  | first :: rest => (first :: rest.filter (joins key first)) :: groups (others key first rest)
termination_by items => items.length
decreasing_by exact Nat.lt_succ_of_le (length_others_le key first rest)

/-- The place of the group of a key. -/
def position (k : κ) (found : List (List α)) : Option Nat :=
  found.findIdx? fun group => group.head?.any fun first => key first == some k

/-- What one more item does to the groups. -/
def addTo (found : List (List α)) (item : α) : List (List α) :=
  match (key item).bind fun k => position key k found with
  | none => found ++ [[item]]
  | some place => found.modify place (· ++ [item])

variable {key} {found : List (List α)} {item first : α} {group : List α} {k : κ}

theorem groups_nil : groups key [] = [] := by
  rw [groups]

theorem groups_cons (first : α) (rest : List α) : groups key (first :: rest) =
    (first :: rest.filter (joins key first)) :: groups key (others key first rest) := by
  rw [groups]

theorem addTo_nil : addTo key [] item = [[item]] := by
  unfold addTo position
  cases key item <;> rfl

theorem addTo_cons : addTo key ((first :: group) :: found) item =
    if joins key first item then (first :: (group ++ [item])) :: found
    else (first :: group) :: addTo key found item := by
  unfold addTo position joins
  cases hitem : key item with
  | none =>
    cases key first <;> simp
  | some k =>
    by_cases hfirst : key first = some k
    · simp [hfirst, findIdx?_cons]
    · have hne : ((key first).isSome && key first == some k) = false := by
        simp [hfirst]
      simp only [hne, Option.bind_some, findIdx?_cons, head?_cons, Option.any_some]
      cases hplace : found.findIdx? fun group => group.head?.any fun first => key first == some k with
      | none => simp [hfirst]
      | some place => simp [hfirst]

/-- The groups can be built item by item. -/
theorem groups_concat (items : List α) (item : α) :
    groups key (items ++ [item]) = addTo key (groups key items) item := by
  generalize hsize : items.length = size
  induction size using Nat.strongRecOn generalizing items with
  | ind size ih =>
    cases items with
    | nil => rw [nil_append, groups_cons, groups_nil, addTo_nil, others, filter_nil, filter_nil,
        groups_nil]
    | cons first rest =>
      have hlength := length_others_le key first rest
      rw [length_cons] at hsize
      rw [cons_append, groups_cons, groups_cons, addTo_cons, ← ih _ (by omega) _ rfl]
      cases hjoins : joins key first item with
      | true => simp [others, hjoins]
      | false => simp [others, hjoins]

theorem groups_ne_nil (items : List α) : ∀ group ∈ groups key items, group ≠ [] := by
  generalize hsize : items.length = size
  induction size using Nat.strongRecOn generalizing items with
  | ind size ih =>
    cases items with
    | nil =>
      intro group hgroup
      rw [groups_nil] at hgroup
      cases hgroup
    | cons first rest =>
      have hlength := length_others_le key first rest
      rw [length_cons] at hsize
      intro group hgroup
      rw [groups_cons] at hgroup
      rcases mem_cons.mp hgroup with rfl | hgroup
      · exact cons_ne_nil _ _
      · exact ih _ (by omega) _ rfl group hgroup

/-- Items of one key are in one group. -/
theorem exists_group {items : List α} {other : α} (hitem : item ∈ items) (hother : other ∈ items)
    (hkey : key item = some k) (hsame : key other = some k) :
    ∃ group ∈ groups key items, item ∈ group ∧ other ∈ group := by
  generalize hsize : items.length = size
  induction size using Nat.strongRecOn generalizing items with
  | ind size ih =>
    cases items with
    | nil => cases hitem
    | cons first rest =>
      rw [groups_cons]
      by_cases hfirst : key first = some k
      · have hjoins : ∀ member ∈ first :: rest, key member = some k →
            member ∈ first :: rest.filter (joins key first) := by
          intro member hmember hmemberKey
          rcases mem_cons.mp hmember with rfl | hrest
          · exact mem_cons_self
          · apply mem_cons_of_mem
            exact mem_filter.mpr ⟨hrest, by simp [joins, hfirst, hmemberKey]⟩
        exact ⟨_, mem_cons_self, hjoins item hitem hkey, hjoins other hother hsame⟩
      · have hothers : ∀ member ∈ first :: rest, key member = some k → member ∈ others key first rest := by
          intro member hmember hmemberKey
          rcases mem_cons.mp hmember with rfl | hrest
          · exact absurd hmemberKey hfirst
          · exact mem_filter.mpr ⟨hrest, by simp [joins, hfirst, hmemberKey]⟩
        have hlength := length_others_le key first rest
        rw [length_cons] at hsize
        obtain ⟨group, hgroup, hmembers⟩ := ih _ (by omega) (hothers item hitem hkey)
          (hothers other hother hsame) rfl
        exact ⟨group, mem_cons_of_mem _ hgroup, hmembers⟩

/-- The place of a group does not change when items come. -/
theorem position_modify (hfound : ∀ group ∈ found, group ≠ []) (place : Nat) :
    position key k (found.modify place (· ++ [item])) = position key k found := by
  unfold position
  induction found generalizing place with
  | nil => cases place <;> rfl
  | cons group rest ih =>
    have hrest : ∀ group ∈ rest, group ≠ [] := fun group hgroup =>
      hfound group (mem_cons_of_mem _ hgroup)
    cases place with
    | zero =>
      have hgroup := hfound group mem_cons_self
      obtain ⟨first, tail, rfl⟩ := exists_cons_of_ne_nil hgroup
      rfl
    | succ place =>
      rw [modify_succ_cons, findIdx?_cons, findIdx?_cons, ih hrest]

theorem position_append : position key k (found ++ [[item]]) =
    (position key k found).or (if key item = some k then some found.length else none) := by
  unfold position
  rw [findIdx?_append]
  congr 1
  by_cases hkey : key item = some k
  · simp [hkey, findIdx?_cons]
  · simp [hkey, findIdx?_cons]

end Grouping

end DshKernel.Lib
