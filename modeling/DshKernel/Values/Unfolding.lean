import DshKernel.Values.ObjectGraph
import Mathlib.Data.List.Nodup

/-!
# Unfolding a graph

The recursion that the walk carries out: a graph below a value unfolds to JSON unless it meets an
object inside of itself or a value that is not JSON.
-/

namespace DshKernel.Values

open Js Lib List

section Traversal

variable {α β : Type} {f : α → Option β}

theorem mapM_eq_some_iff {xs : List α} {ys : List β} :
    xs.mapM f = some ys ↔ List.Forall₂ (fun x y => f x = some y) xs ys := by
  induction xs generalizing ys with
  | nil =>
    rw [forall₂_nil_left_iff]
    exact ⟨fun h => (Option.some.inj h).symm, fun h => congrArg some h.symm⟩
  | cons x xs ih =>
    rw [mapM_cons]
    constructor
    · intro h
      obtain ⟨y, hy, hrest⟩ := Option.bind_eq_some_iff.mp h
      obtain ⟨rest, hmap, hdone⟩ := Option.bind_eq_some_iff.mp hrest
      cases hdone
      exact List.Forall₂.cons hy (ih.mp hmap)
    · intro h
      cases h with
      | cons hy hrest => exact Option.bind_eq_some_iff.mpr ⟨_, hy,
          Option.bind_eq_some_iff.mpr ⟨_, ih.mpr hrest, rfl⟩⟩

theorem mapM_eq_none_iff {xs : List α} : xs.mapM f = none ↔ ∃ x ∈ xs, f x = none := by
  induction xs with
  | nil => simp
  | cons x xs ih =>
    rw [mapM_cons]
    cases hx : f x with
    | none => exact ⟨fun _ => ⟨x, mem_cons_self, hx⟩, fun _ => rfl⟩
    | some y =>
      have hbind : (do let y ← some y; let ys ← xs.mapM f; pure (y :: ys)) = none ↔
          xs.mapM f = none := by
        cases xs.mapM f with
        | none => exact ⟨fun _ => rfl, fun _ => rfl⟩
        | some ys => simp
      rw [hbind, ih]
      constructor
      · rintro ⟨other, hmem, hnone⟩
        exact ⟨other, mem_cons_of_mem _ hmem, hnone⟩
      · rintro ⟨other, hmem, hnone⟩
        rcases mem_cons.mp hmem with rfl | hmem
        · rw [hx] at hnone
          cases hnone
        · exact ⟨other, hmem, hnone⟩

theorem mapM_bind {γ : Type} {g : γ → Option α} {xs : List γ} :
    xs.mapM (fun x => (g x).bind f) = (xs.mapM g).bind (mapM f) := by
  induction xs with
  | nil => rfl
  | cons x xs ih =>
    rw [mapM_cons, mapM_cons, ih]
    cases g x with
    | none => rfl
    | some y =>
      cases xs.mapM g with
      | none =>
        cases hy : f y with
        | none => simp [hy]
        | some z => simp [hy]
      | some ys =>
        rw [Option.bind_some]
        exact mapM_cons.symm

theorem mapM_fields {κ : Type} {g : κ → α} {keys : List κ} :
    (keys.map fun key => (key, g key)).mapM (fun field => (f field.2).map (Prod.mk field.1)) =
      (keys.mapM fun key => f (g key)).map keys.zip := by
  induction keys with
  | nil => rfl
  | cons key keys ih =>
    rw [map_cons, mapM_cons, mapM_cons, ih]
    cases hkey : f (g key) with
    | none => rfl
    | some y =>
      cases keys.mapM fun key => f (g key) with
      | none => rfl
      | some ys => rfl

end Traversal

theorem indexKey_inj {i j : Nat} : indexKey i = indexKey j ↔ i = j := by
  constructor
  · intro h
    have hdigits := congrArg String.toList (PropertyKey.str.inj h)
    rw [Nat.toList_repr, Nat.toList_repr] at hdigits
    have hi := @Nat.ofDigitChars_toDigits 10 i (by decide) (by decide)
    rw [hdigits, Nat.ofDigitChars_toDigits (by decide) (by decide)] at hi
    exact hi.symm
  · rintro rfl
    rfl

namespace ObjectNode

variable {node : ObjectNode}

theorem own?_eq_some {key : PropertyKey} {value : Raw} :
    node.own? key = some value ↔
      ∃ property ∈ node.properties, property.key = key ∧ property.value = value := by
  rw [own?, Option.map_eq_some_iff]
  constructor
  · rintro ⟨property, hfind, hvalue⟩
    exact ⟨property, mem_of_find?_eq_some hfind, by simpa using find?_some hfind, hvalue⟩
  · rintro ⟨property, hmem, hkey, hvalue⟩
    refine ⟨property, ?_, hvalue⟩
    have hunique : ∀ properties : List Property, (properties.map Property.key).Nodup →
        property ∈ properties → properties.find? (fun other => other.key = key) = some property := by
      intro properties hnodup hmem
      induction properties with
      | nil => cases hmem
      | cons head tail ih =>
        rw [map_cons, nodup_cons] at hnodup
        rcases mem_cons.mp hmem with rfl | htail
        · rw [find?_cons_of_pos]
          simp [hkey]
        · rw [find?_cons_of_neg]
          · exact ih hnodup.2 htail
          · have hne : head.key ≠ key := by
              rintro rfl
              exact hnodup.1 (mem_map.mpr ⟨property, htail, hkey⟩)
            simp [hne]
    exact hunique node.properties node.nodup hmem

theorem own?_isSome {key : PropertyKey} : (node.own? key).isSome = true ↔ key ∈ node.keys := by
  rw [Option.isSome_iff_exists, keys, mem_map]
  constructor
  · rintro ⟨value, hvalue⟩
    obtain ⟨property, hmem, hkey, -⟩ := own?_eq_some.mp hvalue
    exact ⟨property, hmem, hkey⟩
  · rintro ⟨property, hmem, hkey⟩
    exact ⟨property.value, own?_eq_some.mpr ⟨property, hmem, hkey, rfl⟩⟩

def items? (node : ObjectNode) : Option (List Raw) :=
  if node.hasPlainArrayPrototype ∧ node.arrayKeyCount = node.length + 1 then
    (range node.length).mapM fun index => node.own? (indexKey index)
  else none

def fields? (node : ObjectNode) : Option (List (String × Raw)) :=
  if node.hasPlainObjectPrototype then
    node.enumerableStringKeys.map fun keys =>
      keys.map fun key => (key, (node.own? (.str key)).getD .undefined)
  else none

theorem nodup_indexKeys (n : Nat) : ((range n).map indexKey).Nodup :=
  List.Nodup.map (fun _ _ h => indexKey_inj.mp h) nodup_range

theorem items?_eq_some (harray : node.isArray = true) {items : List Raw} :
    node.items? = some items ↔ node.IsArrayOf items := by
  have hforall : List.Forall₂ (fun index item => node.own? (indexKey index) = some item)
      (range node.length) items ↔ items.length = node.length ∧
        ∀ index (h : index < items.length), node.own? (indexKey index) = some items[index] := by
    rw [forall₂_iff_get]
    constructor
    · rintro ⟨hlength, hget⟩
      rw [length_range] at hlength
      refine ⟨hlength.symm, ?_⟩
      intro index hindex
      have h := hget index (by rw [length_range]; omega) hindex
      simpa using h
    · rintro ⟨hlength, hget⟩
      refine ⟨by rw [length_range, hlength], ?_⟩
      intro index _ hindex
      simpa using hget index hindex
  constructor
  · intro h
    rw [items?] at h
    split at h
    · rename_i hchecks
      obtain ⟨hlength, hitems⟩ := hforall.mp (mapM_eq_some_iff.mp h)
      refine ⟨harray, hchecks.1, ?_, hlength, hitems⟩
      have hsubset : (range node.length).map indexKey ⊆ node.keys := by
        intro key hkey
        obtain ⟨index, hindex, rfl⟩ := mem_map.mp hkey
        rw [← own?_isSome, hitems index (by rw [hlength]; exact mem_range.mp hindex)]
        rfl
      have hcount : node.keys.length ≤ ((range node.length).map indexKey).length := by
        have hchecked : node.properties.length + 1 = node.length + 1 := hchecks.2
        rw [keys, length_map, length_map, length_range]
        omega
      have hperm := (subperm_of_subset (nodup_indexKeys _) hsubset).perm_of_length_le hcount
      intro key
      rw [← hperm.mem_iff, mem_map]
      simp only [mem_range, eq_comm]
    · cases h
  · intro h
    have hperm : node.keys.Perm ((range node.length).map indexKey) := by
      refine (perm_ext_iff_of_nodup node.nodup (nodup_indexKeys _)).mpr ?_
      intro key
      rw [← keys, h.keys, mem_map]
      simp only [mem_range, eq_comm]
    have hcount : node.arrayKeyCount = node.length + 1 := by
      have hlength := hperm.length_eq
      rw [keys, length_map, length_map, length_range] at hlength
      rw [arrayKeyCount, hlength]
    rw [items?, if_pos ⟨h.prototype, hcount⟩]
    exact mapM_eq_some_iff.mpr (hforall.mpr ⟨h.length, h.items⟩)

def fieldProperty (field : String × Raw) : Property :=
  { key := .str field.1, enumerable := true, value := field.2 }

theorem enumerableName?_eq_some {property : Property} {name : String} :
    enumerableName? property = some name ↔ property = fieldProperty (name, property.value) := by
  obtain ⟨key, enumerable, value⟩ := property
  cases key with
  | symbol id => simp [enumerableName?, fieldProperty]
  | str other => cases enumerable <;> simp [enumerableName?, fieldProperty]

theorem fields?_eq_some (harray : node.isArray = false) {fields : List (String × Raw)} :
    node.fields? = some fields ↔ node.IsRecordOf fields := by
  have hfield : ∀ name value, fieldProperty (name, value) ∈ node.properties →
      (name, (node.own? (.str name)).getD .undefined) = (name, value) := by
    intro name value hmem
    have hown : node.own? (.str name) = some value := own?_eq_some.mpr ⟨_, hmem, rfl, rfl⟩
    rw [hown]
    rfl
  constructor
  · intro h
    rw [fields?] at h
    split at h
    · rename_i hprototype
      obtain ⟨names, hnames, hfields⟩ := Option.map_eq_some_iff.mp h
      refine ⟨harray, hprototype, ?_⟩
      have hall : ∀ properties names, properties ⊆ node.properties →
          List.Forall₂ (fun property name => enumerableName? property = some name)
            properties names →
          properties = (names.map fun name =>
            (name, (node.own? (.str name)).getD .undefined)).map fieldProperty := by
        intro properties names hsubset hforall
        induction hforall with
        | nil => rfl
        | @cons property name properties names hname hrest ih =>
          rw [cons_subset] at hsubset
          have hproperty := enumerableName?_eq_some.mp hname
          rw [hproperty] at hsubset
          rw [map_cons, map_cons, hfield _ _ hsubset.1, ← ih hsubset.2, ← hproperty]
      rw [← hfields]
      exact hall _ _ (List.Subset.refl _) (mapM_eq_some_iff.mp hnames)
    · cases h
  · rintro ⟨-, hprototype, hproperties⟩
    have hnames : node.enumerableStringKeys = some (fields.map Prod.fst) := by
      rw [enumerableStringKeys, hproperties, mapM_eq_some_iff, forall₂_map_left_iff,
        forall₂_map_right_iff, forall₂_same]
      exact fun _ _ => rfl
    have hself : ∀ field ∈ fields,
        (field.1, (node.own? (.str field.1)).getD .undefined) = field := by
      intro field hmem
      apply hfield field.1 field.2
      rw [hproperties]
      exact mem_map_of_mem hmem
    rw [fields?, if_pos hprototype, hnames, Option.map_some, map_map]
    exact congrArg some ((map_congr_left hself).trans (map_id' fields))

theorem nodup_enumerableStringKeys {names : List String}
    (h : node.enumerableStringKeys = some names) : names.Nodup := by
  have hkeys : ∀ properties names,
      List.Forall₂ (fun property name => enumerableName? property = some name) properties names →
      properties.map Property.key = names.map PropertyKey.str := by
    intro properties names hforall
    induction hforall with
    | nil => rfl
    | cons hname _ ih =>
      rw [map_cons, map_cons, ih, enumerableName?_eq_some.mp hname]
      rfl
  have hnodup := node.nodup
  rw [hkeys _ _ (mapM_eq_some_iff.mp h)] at hnodup
  exact List.Nodup.of_map _ hnodup

end ObjectNode

/-! ## The recursion -/

section Recursion

variable (heap : ObjectHeap)

/-- The JSON that the graph below a value unfolds to, inside of `ancestors`. A path without
repetition is no longer than the heap, so a budget of the heap's length is never used up. -/
def unfoldBelow : Nat → List Nat → Raw → Option Json
  | _, _, .undefined => none
  | _, _, .other => none
  | _, _, .null => some .null
  | _, _, .bool value => some (.bool value)
  | _, _, .str value => some (.str value)
  | _, _, .num value => if value.isLossless then some (.num value) else none
  | 0, _, .ref _ => none
  | budget + 1, ancestors, .ref id =>
    if id ∈ ancestors then none
    else match heap[id]? with
      | none => none
      | some node =>
        if node.isArray then
          node.items?.bind fun items =>
            (items.mapM (unfoldBelow budget (id :: ancestors))).map .arr
        else
          node.fields?.bind fun fields =>
            (fields.mapM fun field =>
              (unfoldBelow budget (id :: ancestors) field.2).map (Prod.mk field.1)).map .obj

end Recursion

end DshKernel.Values
