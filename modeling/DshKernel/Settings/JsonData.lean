import DshKernel.Js.Json
import Mathlib.Data.List.Forall2
import Mathlib.Data.List.Perm.Subperm

/-!
# JSON data and its equality

`deepEqualJson` of the value helpers. Over JSON data it is an equivalence, under which two objects
are equal when they have equal values under the same keys.
-/

namespace DshKernel.Settings

open Js Lib List

abbrev Fields := List (String × Json)

mutual

/-- Two values that JSON text does not tell apart. An object has a property that it inherits, too:
`__proto__` reads as an object without keys, and every other inherited one as a function. -/
def deepEqualJson : Json → Json → Bool
  | .null, .null => true
  | .bool a, .bool b => a == b
  | .num a, .num b => a.strictEq b
  | .str a, .str b => a == b
  | .arr xs, .arr ys => deepEqualItems xs ys
  | .obj xs, .obj ys => xs.length == ys.length && deepEqualFields xs ys
  | _, _ => false

def deepEqualItems : List Json → List Json → Bool
  | [], [] => true
  | x :: xs, y :: ys => deepEqualJson x y && deepEqualItems xs ys
  | _, _ => false

def deepEqualFields : Fields → Fields → Bool
  | [], _ => true
  | (key, x) :: xs, ys =>
    (match ys.lookup key with
      | some y => deepEqualJson x y
      | none => key == "__proto__" && deepEqualJson x (.obj [])) && deepEqualFields xs ys

end

/-- What JSON text carries: finite numbers, no key twice, and no key that objects inherit as an
object. -/
inductive Data : Json → Prop where
  | null : Data .null
  | bool (value : Bool) : Data (.bool value)
  | num {value : Number} (hnan : value ≠ .nan) (hfinite : ∀ negative, value ≠ .infinity negative) :
      Data (.num value)
  | str (value : String) : Data (.str value)
  | arr {items : List Json} (h : ∀ item ∈ items, Data item) : Data (.arr items)
  | obj {fields : Fields} (hnodup : (fields.map Prod.fst).Nodup)
      (hproto : "__proto__" ∉ fields.map Prod.fst) (h : ∀ field ∈ fields, Data field.2) :
      Data (.obj fields)

/-- Equality of values that may be `undefined`. -/
def sameJson : Option Json → Option Json → Bool
  | none, none => true
  | some a, some b => deepEqualJson a b
  | _, _ => false

section Equality

variable {a b c : Json} {xs ys : Fields}

theorem deepEqualItems_iff {items others : List Json} :
    deepEqualItems items others = true ↔
      List.Forall₂ (fun x y => deepEqualJson x y = true) items others := by
  induction items generalizing others with
  | nil =>
    cases others with
    | nil => simp [deepEqualItems]
    | cons y ys => simp [deepEqualItems]
  | cons x xs ih =>
    cases others with
    | nil => simp [deepEqualItems]
    | cons y ys => simp [deepEqualItems, ih]

theorem deepEqualFields_iff (hproto : "__proto__" ∉ xs.map Prod.fst) :
    deepEqualFields xs ys = true ↔
      ∀ field ∈ xs, ∃ y, ys.lookup field.1 = some y ∧ deepEqualJson field.2 y = true := by
  induction xs with
  | nil => simp [deepEqualFields]
  | cons field rest ih =>
    obtain ⟨key, x⟩ := field
    simp only [map_cons, mem_cons, not_or] at hproto
    have hkey : (key == "__proto__") = false := beq_false_of_ne (Ne.symm hproto.1)
    rw [deepEqualFields, Bool.and_eq_true, ih hproto.2, forall_mem_cons]
    apply and_congr_left'
    cases hlookup : ys.lookup key with
    | none => simp [hkey]
    | some y => simp

theorem lookup_isSome_iff {key : String} : (xs.lookup key).isSome = true ↔ key ∈ xs.map Prod.fst := by
  induction xs with
  | nil => simp
  | cons field rest ih =>
    obtain ⟨k, v⟩ := field
    rw [lookup_cons, map_cons, mem_cons]
    by_cases h : key = k
    · simp [h]
    · rw [beq_false_of_ne h]
      simp [h, ih]

theorem deepEqualJson_obj_iff (hx : Data (.obj xs)) (hy : Data (.obj ys)) :
    deepEqualJson (.obj xs) (.obj ys) = true ↔
      ∀ key, sameJson (xs.lookup key) (ys.lookup key) = true := by
  cases hx with
  | obj hnodupX hprotoX _ =>
  cases hy with
  | obj hnodupY _ _ =>
  rw [deepEqualJson, Bool.and_eq_true, beq_iff_eq, deepEqualFields_iff hprotoX]
  constructor
  · rintro ⟨hlength, hfields⟩ key
    have hsubset : xs.map Prod.fst ⊆ ys.map Prod.fst := by
      intro k hk
      obtain ⟨field, hfield, rfl⟩ := mem_map.mp hk
      obtain ⟨y, hlookup, -⟩ := hfields field hfield
      exact lookup_isSome_iff.mp (by rw [hlookup]; rfl)
    -- As many keys, without one twice: the second object has no other key.
    have hperm : (xs.map Prod.fst).Perm (ys.map Prod.fst) :=
      (subperm_of_subset hnodupX hsubset).perm_of_length_le (by simp [hlength])
    cases hlookup : xs.lookup key with
    | none =>
      have hnone : ys.lookup key = none := by
        rw [← Option.not_isSome_iff_eq_none, lookup_isSome_iff, ← hperm.mem_iff,
          ← lookup_isSome_iff, hlookup]
        simp
      rw [hnone]
      rfl
    | some x =>
      obtain ⟨y, hy, heq⟩ := hfields (key, x) (mem_of_lookup_eq_some hlookup)
      rw [show ys.lookup key = some y from hy]
      exact heq
  · intro hkeys
    have hmem : ∀ key, key ∈ xs.map Prod.fst ↔ key ∈ ys.map Prod.fst := by
      intro key
      rw [← lookup_isSome_iff, ← lookup_isSome_iff]
      have hkey := hkeys key
      cases hx : xs.lookup key with
      | none =>
        cases hy : ys.lookup key with
        | none => rfl
        | some y =>
          rw [hx, hy] at hkey
          cases hkey
      | some x =>
        cases hy : ys.lookup key with
        | none =>
          rw [hx, hy] at hkey
          cases hkey
        | some y => simp
    refine ⟨?_, ?_⟩
    · have hlength := ((perm_ext_iff_of_nodup hnodupX hnodupY).mpr hmem).length_eq
      simpa using hlength
    · intro field hfield
      have hkey := hkeys field.1
      rw [lookup_eq_some_of_mem hnodupX hfield] at hkey
      cases hy : ys.lookup field.1 with
      | none =>
        rw [hy] at hkey
        cases hkey
      | some y =>
        rw [hy] at hkey
        exact ⟨y, rfl, hkey⟩

theorem Data.lookup {key : String} (h : Data (.obj xs)) (hlookup : xs.lookup key = some a) :
    Data a := by
  cases h with
  | obj _ _ hfields => exact hfields (key, a) (mem_of_lookup_eq_some hlookup)

theorem strictEq_trans {l m n : Number} (h : l.strictEq m = true) (h' : m.strictEq n = true) :
    l.strictEq n = true := by
  cases l <;> cases m <;> cases n <;> simp_all [Number.strictEq, Integral.strictEq]

theorem deepEqualJson_refl (h : Data a) : deepEqualJson a a = true := by
  induction h with
  | null => rfl
  | bool value => simp [deepEqualJson]
  | num hnan _ => exact Number.strictEq_self_of_ne_nan hnan
  | str value => simp [deepEqualJson]
  | arr _ ih =>
    rw [deepEqualJson, deepEqualItems_iff, forall₂_same]
    exact ih
  | @obj fields hnodup hproto hfields ih =>
    rw [deepEqualJson_obj_iff (.obj hnodup hproto hfields) (.obj hnodup hproto hfields)]
    intro key
    cases hlookup : fields.lookup key with
    | none => rfl
    | some value => exact ih (key, value) (mem_of_lookup_eq_some hlookup)

theorem sameJson_refl {value : Option Json} (h : ∀ data, value = some data → Data data) :
    sameJson value value = true := by
  cases value with
  | none => rfl
  | some data => exact deepEqualJson_refl (h data rfl)

theorem deepEqualJson_trans (ha : Data a) (hb : Data b) (hc : Data c)
    (h : deepEqualJson a b = true) (h' : deepEqualJson b c = true) : deepEqualJson a c = true := by
  induction ha generalizing b c with
  | null =>
    cases b with
    | null => exact h'
    | _ => simp [deepEqualJson] at h
  | bool value =>
    cases b with
    | bool other =>
      rw [deepEqualJson, beq_iff_eq] at h
      rw [h]
      exact h'
    | _ => simp [deepEqualJson] at h
  | num _ =>
    cases b with
    | num m =>
      cases c with
      | num n =>
        rw [deepEqualJson] at h h' ⊢
        exact strictEq_trans h h'
      | _ => simp [deepEqualJson] at h'
    | _ => simp [deepEqualJson] at h
  | str value =>
    cases b with
    | str other =>
      rw [deepEqualJson, beq_iff_eq] at h
      rw [h]
      exact h'
    | _ => simp [deepEqualJson] at h
  | @arr items _ ih =>
    cases hb with
    | @arr middle hmiddle =>
      cases hc with
      | @arr others hothers =>
        rw [deepEqualJson, deepEqualItems_iff, forall₂_iff_get] at h h' ⊢
        obtain ⟨hlength, hitems⟩ := h
        obtain ⟨hlength', hitems'⟩ := h'
        refine ⟨hlength.trans hlength', fun i hi hi' => ?_⟩
        have him : i < middle.length := by omega
        exact ih _ (get_mem _ _) (hmiddle _ (get_mem _ _)) (hothers _ (get_mem _ _))
          (hitems i hi him) (hitems' i him hi')
      | _ => simp [deepEqualJson] at h'
    | _ => simp [deepEqualJson] at h
  | @obj fields hnodup hproto hfields ih =>
    have ha : Data (.obj fields) := .obj hnodup hproto hfields
    cases b with
    | obj middle =>
      cases c with
      | obj others =>
        rw [deepEqualJson_obj_iff ha hb] at h
        rw [deepEqualJson_obj_iff hb hc] at h'
        rw [deepEqualJson_obj_iff ha hc]
        intro key
        have hkey := h key
        have hkey' := h' key
        cases hx : fields.lookup key with
        | none =>
          cases hy : middle.lookup key with
          | none =>
            rw [hy] at hkey'
            exact hkey'
          | some y =>
            rw [hx, hy] at hkey
            cases hkey
        | some x =>
          cases hy : middle.lookup key with
          | none =>
            rw [hx, hy] at hkey
            cases hkey
          | some y =>
            rw [hx, hy] at hkey
            rw [hy] at hkey'
            cases hz : others.lookup key with
            | none =>
              rw [hz] at hkey'
              cases hkey'
            | some z =>
              rw [hz] at hkey'
              exact ih (key, x) (mem_of_lookup_eq_some hx) (hb.lookup hy) (hc.lookup hz) hkey hkey'
      | _ => simp [deepEqualJson] at h'
    | _ => simp [deepEqualJson] at h

theorem sameJson_trans {x y z : Option Json} (hx : ∀ data, x = some data → Data data)
    (hy : ∀ data, y = some data → Data data) (hz : ∀ data, z = some data → Data data)
    (h : sameJson x y = true) (h' : sameJson y z = true) : sameJson x z = true := by
  cases x with
  | none =>
    cases y with
    | none => exact h'
    | some y => cases h
  | some x =>
    cases y with
    | none => cases h
    | some y =>
      cases z with
      | none => cases h'
      | some z => exact deepEqualJson_trans (hx x rfl) (hy y rfl) (hz z rfl) h h'

end Equality

end DshKernel.Settings
