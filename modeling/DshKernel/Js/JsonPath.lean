import DshKernel.Js.Json
import Mathlib.Data.List.Perm.Subperm
import Mathlib.Data.List.Nodup

/-!
# What stands where in a JSON value

A path of property names and positions leads to a place of a value. Two values are equal for `===`
on their leaves when they look the same at every place.
-/

namespace DshKernel.Js

open Lib List

inductive PathStep where
  | key (name : String)
  | index (position : Nat)
  deriving DecidableEq, Repr

inductive Shape where
  | null
  | bool (value : Bool)
  | num (value : Number)
  | str (value : String)
  | arr
  | obj
  deriving DecidableEq, Repr

/-- The number that `===` does not tell from the given one. -/
def Number.canonical : Number → Number
  | .integral .negZero => .integral (.int 0)
  | number => number

namespace Json

/-- Numbers are taken up to `===`. -/
def shape : Json → Shape
  | .null => .null
  | .bool value => .bool value
  | .num value => .num value.canonical
  | .str value => .str value
  | .arr _ => .arr
  | .obj _ => .obj

def child (value : Json) : PathStep → Option Json
  | .key name => value.get? name
  | .index position => value.asArray.bind (·[position]?)

def shapeAt (value : Json) : List PathStep → Option Shape
  | [] => some value.shape
  | step :: path =>
    match value.child step with
    | none => none
    | some inner => inner.shapeAt path

def setAt (value : Json) (path : List PathStep) (replacement : Json) : Json :=
  match path, value with
  | [], _ => replacement
  | .key name :: rest, .obj fields =>
    .obj (fields.map fun field =>
      if field.1 = name then (field.1, field.2.setAt rest replacement) else field)
  | .index position :: rest, .arr items =>
    .arr (items.modify position fun item => item.setAt rest replacement)
  | _ :: _, other => other

end Json

section SetAt

theorem lookup_map_set {fields : List (String × Json)} {name other : String}
    {change : Json → Json} :
    (fields.map fun field => if field.1 = name then (field.1, change field.2) else field).lookup
        other =
      if other = name then (fields.lookup other).map change else fields.lookup other := by
  induction fields with
  | nil => simp
  | cons field rest ih =>
    obtain ⟨key, value⟩ := field
    rw [map_cons]
    by_cases hname : key = name
    · subst hname
      rw [if_pos rfl]
      by_cases hother : other = key
      · subst hother
        simp
      · rw [lookup_cons, lookup_cons, beq_false_of_ne hother]
        exact ih
    · rw [if_neg hname]
      by_cases hother : other = key
      · subst hother
        rw [if_neg hname, lookup_cons, lookup_cons, beq_self_eq_true]
      · rw [lookup_cons, lookup_cons, beq_false_of_ne hother]
        exact ih

theorem Json.shape_setAt_cons (value replacement : Json) (step : PathStep)
    (path : List PathStep) : (value.setAt (step :: path) replacement).shape = value.shape := by
  cases step with
  | key name =>
    cases value with
    | obj fields =>
      rw [Json.setAt]
      rfl
    | _ => rw [Json.setAt]; all_goals simp
  | index position =>
    cases value with
    | arr items =>
      rw [Json.setAt]
      rfl
    | _ => rw [Json.setAt]; all_goals simp

variable {replacement value : Json} {path : List PathStep}

theorem Json.child_setAt_of_ne {step other : PathStep} (h : other ≠ step) :
    (value.setAt (step :: path) replacement).child other = value.child other := by
  cases step with
  | key name =>
    cases value with
    | obj fields =>
      rw [Json.setAt]
      cases other with
      | key otherName =>
        have hne : otherName ≠ name := fun heq => h (congrArg PathStep.key heq)
        have hlookup := @lookup_map_set fields name otherName (·.setAt path replacement)
        rw [if_neg hne] at hlookup
        exact hlookup
      | index position => rfl
    | _ => rw [Json.setAt]; all_goals simp
  | index position =>
    cases value with
    | arr items =>
      rw [Json.setAt]
      cases other with
      | key name => rfl
      | index otherPosition =>
        have hne : position ≠ otherPosition := fun heq => h (congrArg PathStep.index heq.symm)
        change (items.modify position _)[otherPosition]? = items[otherPosition]?
        rw [getElem?_modify]
        simp [hne]
    | _ => rw [Json.setAt]; all_goals simp

theorem Json.child_setAt (value replacement : Json) (step : PathStep) (path : List PathStep) :
    (value.setAt (step :: path) replacement).child step =
      (value.child step).map (·.setAt path replacement) := by
  cases step with
  | key name =>
    cases value with
    | obj fields =>
      rw [Json.setAt]
      have hlookup := @lookup_map_set fields name name (·.setAt path replacement)
      rw [if_pos rfl] at hlookup
      exact hlookup
    | _ => rw [Json.setAt]; all_goals simp [Json.child, Json.get?]
  | index position =>
    cases value with
    | arr items =>
      rw [Json.setAt]
      change (items.modify position _)[position]? = (items[position]?).map _
      rw [getElem?_modify]
      simp
    | _ => rw [Json.setAt]; all_goals simp [Json.child, Json.asArray]

theorem Json.shapeAt_setAt {other : List PathStep}
    (h : ¬ path <+: other) : (value.setAt path replacement).shapeAt other = value.shapeAt other := by
  induction path generalizing value other with
  | nil => exact absurd nil_prefix h
  | cons step path ih =>
    cases other with
    | nil =>
      rw [Json.shapeAt, Json.shapeAt, Json.shape_setAt_cons]
    | cons otherStep rest =>
      rw [Json.shapeAt, Json.shapeAt]
      by_cases hstep : otherStep = step
      · subst hstep
        rw [Json.child_setAt]
        cases value.child otherStep with
        | none => rfl
        | some inner =>
          apply ih
          intro hprefix
          exact h (cons_prefix_cons.mpr ⟨rfl, hprefix⟩)
      · rw [Json.child_setAt_of_ne hstep]

theorem Json.wellFormed_setAt
    (h : value.WellFormed) (hreplacement : replacement.WellFormed) :
    (value.setAt path replacement).WellFormed := by
  induction path generalizing value with
  | nil => rwa [Json.setAt]
  | cons step path ih =>
    cases step with
    | key name =>
      cases value with
      | obj fields =>
        rw [Json.setAt]
        have hfields := Json.fieldsWellFormed_iff.mp h.2
        refine ⟨?_, Json.fieldsWellFormed_iff.mpr ?_⟩
        · have hkeys : (fields.map fun field =>
              if field.1 = name then (field.1, field.2.setAt path replacement) else field).map
                Prod.fst = fields.map Prod.fst := by
            rw [map_map]
            apply map_congr_left
            intro field _
            dsimp only [Function.comp]
            split
            · rfl
            · rfl
          rw [hkeys]
          exact h.1
        · intro field hfield
          obtain ⟨old, hold, rfl⟩ := mem_map.mp hfield
          split
          · exact ih (hfields old hold)
          · exact hfields old hold
      | _ =>
        rw [Json.setAt]
        · exact h
        all_goals simp
    | index position =>
      cases value with
      | arr items =>
        rw [Json.setAt]
        apply Json.itemsWellFormed_iff.mpr
        intro item hitem
        obtain ⟨other, hother⟩ := getElem?_of_mem hitem
        rw [getElem?_modify] at hother
        obtain ⟨old, hold, rfl⟩ := Option.map_eq_some_iff.mp hother
        have hwell := Json.itemsWellFormed_iff.mp h old (mem_of_getElem? hold)
        split
        · exact ih hwell
        · exact hwell
      | _ =>
        rw [Json.setAt]
        · exact h
        all_goals simp

end SetAt

section Equal

theorem Number.canonical_eq_of_strictEq {x y : Number} (h : x.strictEq y = true) :
    x.canonical = y.canonical := by
  cases x with
  | integral x =>
    cases y with
    | integral y =>
      have hint : x.toInt = y.toInt := by simpa [Number.strictEq, Integral.strictEq] using h
      cases x with
      | int a =>
        cases y with
        | int b =>
          rw [show a = b from hint]
        | negZero =>
          rw [show a = 0 from hint]
          rfl
      | negZero =>
        cases y with
        | int b =>
          rw [← show (0 : Int) = b from hint]
          rfl
        | negZero => rfl
    | _ => simp [Number.strictEq] at h
  | nan => simp [Number.strictEq] at h
  | _ =>
    have heq := h
    simp only [Number.strictEq, beq_iff_eq] at heq
    rw [heq]

variable {eq : Number → Number → Bool}

variable {a b x : Json} {xs ys : List (String × Json)} {key : String}

theorem lookup_of_fieldsEqualBy
    (h : Json.fieldsEqualBy eq xs ys = true) (hx : xs.lookup key = some x) :
    ∃ y, ys.lookup key = some y ∧ Json.equalBy eq x y = true := by
  induction xs with
  | nil => simp at hx
  | cons field rest ih =>
    obtain ⟨name, value⟩ := field
    simp only [Json.fieldsEqualBy, Bool.and_eq_true] at h
    rw [lookup_cons] at hx
    by_cases hname : key = name
    · subst hname
      rw [beq_self_eq_true] at hx
      cases hx
      cases hy : ys.lookup key with
      | none => simp [hy] at h
      | some y =>
        rw [hy] at h
        exact ⟨y, rfl, h.1⟩
    · rw [beq_false_of_ne hname] at hx
      exact ih h.2 hx

theorem lookup_isSome_of_fieldsEqualBy
    (hlength : xs.length = ys.length) (hnodup : (xs.map Prod.fst).Nodup)
    (h : Json.fieldsEqualBy eq xs ys = true) (hy : (ys.lookup key).isSome = true) :
    (xs.lookup key).isSome = true := by
  have hsubset : xs.map Prod.fst ⊆ ys.map Prod.fst := by
    intro name hname
    obtain ⟨field, hfield, rfl⟩ := mem_map.mp hname
    obtain ⟨other, hother, -⟩ :=
      lookup_of_fieldsEqualBy h (lookup_eq_some_of_mem hnodup hfield)
    exact mem_map.mpr ⟨_, mem_of_lookup_eq_some hother, rfl⟩
  have hperm := (subperm_of_subset hnodup hsubset).perm_of_length_le (by simp [hlength])
  obtain ⟨value, hvalue⟩ := Option.isSome_iff_exists.mp hy
  have hkey : key ∈ xs.map Prod.fst := by
    rw [hperm.mem_iff]
    exact mem_map.mpr ⟨_, mem_of_lookup_eq_some hvalue, rfl⟩
  obtain ⟨field, hfield, rfl⟩ := mem_map.mp hkey
  rw [lookup_eq_some_of_mem hnodup hfield]
  rfl

theorem getElem?_of_itemsEqualBy {xs ys : List Json} (h : Json.itemsEqualBy eq xs ys = true)
    (position : Nat) :
    (xs[position]? = none ∧ ys[position]? = none) ∨
      ∃ x y, xs[position]? = some x ∧ ys[position]? = some y ∧ Json.equalBy eq x y = true := by
  induction xs generalizing ys position with
  | nil =>
    cases ys with
    | nil => exact Or.inl ⟨rfl, rfl⟩
    | cons y ys => simp [Json.itemsEqualBy] at h
  | cons x xs ih =>
    cases ys with
    | nil => simp [Json.itemsEqualBy] at h
    | cons y ys =>
      simp only [Json.itemsEqualBy, Bool.and_eq_true] at h
      cases position with
      | zero => exact Or.inr ⟨x, y, rfl, rfl, h.1⟩
      | succ position => exact ih h.2 position

theorem child_of_equalBy (h : Json.equalBy eq a b = true) (ha : a.WellFormed) (step : PathStep) :
    (a.child step = none ∧ b.child step = none) ∨
      ∃ x y, a.child step = some x ∧ b.child step = some y ∧ Json.equalBy eq x y = true := by
  cases step with
  | key name =>
    cases a with
    | obj xs =>
      cases b with
      | obj ys =>
        simp only [Json.equalBy, Bool.and_eq_true, beq_iff_eq] at h
        change (xs.lookup name = none ∧ ys.lookup name = none) ∨
          ∃ x y, xs.lookup name = some x ∧ ys.lookup name = some y ∧ _
        cases hx : xs.lookup name with
        | some x =>
          obtain ⟨y, hy, hequal⟩ := lookup_of_fieldsEqualBy h.2 hx
          exact Or.inr ⟨x, y, rfl, hy, hequal⟩
        | none =>
          refine Or.inl ⟨rfl, ?_⟩
          rw [← Option.not_isSome_iff_eq_none]
          intro hy
          have hsome := lookup_isSome_of_fieldsEqualBy h.1 ha.1 h.2 hy
          rw [hx] at hsome
          cases hsome
      | _ => simp [Json.equalBy] at h
    | _ => cases b <;> first | exact Or.inl ⟨rfl, rfl⟩ | simp [Json.equalBy] at h
  | index position =>
    cases a with
    | arr xs =>
      cases b with
      | arr ys => exact getElem?_of_itemsEqualBy h position
      | _ => simp [Json.equalBy] at h
    | _ => cases b <;> first | exact Or.inl ⟨rfl, rfl⟩ | simp [Json.equalBy] at h

theorem wellFormed_of_child {step : PathStep} (ha : a.WellFormed)
    (h : a.child step = some x) : x.WellFormed := by
  cases step with
  | key name =>
    cases a with
    | obj fields =>
      exact Json.fieldsWellFormed_iff.mp ha.2 (name, x) (mem_of_lookup_eq_some h)
    | _ => cases h
  | index position =>
    cases a with
    | arr items => exact Json.itemsWellFormed_iff.mp ha x (mem_of_getElem? h)
    | _ => cases h

theorem shape_of_equalBy (h : Json.equalBy Number.strictEq a b = true) : a.shape = b.shape := by
  cases a with
  | num x =>
    cases b with
    | num y => exact congrArg Shape.num (Number.canonical_eq_of_strictEq h)
    | _ => simp [Json.equalBy] at h
  | bool x =>
    cases b with
    | bool y => exact congrArg Shape.bool (by simpa [Json.equalBy] using h)
    | _ => simp [Json.equalBy] at h
  | str x =>
    cases b with
    | str y => exact congrArg Shape.str (by simpa [Json.equalBy] using h)
    | _ => simp [Json.equalBy] at h
  | _ => cases b <;> first | rfl | simp [Json.equalBy] at h

/-- Values that are deeply equal for `===` look the same at every place. -/
theorem shapeAt_of_equalBy (h : Json.equalBy Number.strictEq a b = true)
    (ha : a.WellFormed) (path : List PathStep) : a.shapeAt path = b.shapeAt path := by
  induction path generalizing a b with
  | nil => rw [Json.shapeAt, Json.shapeAt, shape_of_equalBy h]
  | cons step path ih =>
    rw [Json.shapeAt, Json.shapeAt]
    rcases child_of_equalBy h ha step with ⟨hx, hy⟩ | ⟨x, y, hx, hy, hequal⟩
    · rw [hx, hy]
    · rw [hx, hy]
      exact ih hequal (wellFormed_of_child ha hx)

end Equal

end DshKernel.Js
