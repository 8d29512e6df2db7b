import DshKernel.Js.Number
import DshKernel.Lib.OrderedMap

/-!
# JSON values as JavaScript holds them

An object is the list of its own enumerable properties in property order. Numbers
are all of JavaScript's, since a parsed text may hold `-0` or an infinity.
-/

namespace DshKernel.Js

open Lib

inductive Json where
  | null
  | bool (value : Bool)
  | num (value : Number)
  | str (value : String)
  | arr (items : List Json)
  | obj (fields : List (String × Json))
  deriving Repr

namespace Json

/-- Reading a property; `none` is `undefined`. -/
def get? : Json → String → Option Json
  | .obj fields, key => fields.lookup key
  | _, _ => none

/-- `Object.keys` of an object -/
def keys : Json → List String
  | .obj fields => fields.map Prod.fst
  | _ => []

def ofNat (n : Nat) : Json := .num (.ofNat n)

def ofInt (z : Int) : Json := .num (.ofInt z)

/-- `typeof value === 'object' && value !== null` -/
def isObject : Json → Bool
  | .arr _ => true
  | .obj _ => true
  | _ => false

def isArray : Json → Bool
  | .arr _ => true
  | _ => false

/-- `Array.isArray(value)` -/
def asArray : Json → Option (List Json)
  | .arr items => some items
  | _ => none

/-- `typeof value === 'string'` -/
def asString : Json → Option String
  | .str s => some s
  | _ => none

/-- `typeof value === 'boolean'` -/
def asBool : Json → Option Bool
  | .bool b => some b
  | _ => none

/-- `typeof value === 'number'` -/
def asNumber : Json → Option Number
  | .num n => some n
  | _ => none

mutual

/-- Structural equality that ignores property order, over a given comparison of numbers. -/
def equalBy (eq : Number → Number → Bool) : Json → Json → Bool
  | .null, .null => true
  | .bool a, .bool b => a == b
  | .num a, .num b => eq a b
  | .str a, .str b => a == b
  | .arr xs, .arr ys => itemsEqualBy eq xs ys
  | .obj xs, .obj ys => xs.length == ys.length && fieldsEqualBy eq xs ys
  | _, _ => false

def itemsEqualBy (eq : Number → Number → Bool) : List Json → List Json → Bool
  | [], [] => true
  | x :: xs, y :: ys => equalBy eq x y && itemsEqualBy eq xs ys
  | _, _ => false

def fieldsEqualBy (eq : Number → Number → Bool) :
    List (String × Json) → List (String × Json) → Bool
  | [], _ => true
  | (key, x) :: xs, ys =>
    (match ys.lookup key with
      | some y => equalBy eq x y
      | none => false) && fieldsEqualBy eq xs ys

end

/-- The same JSON value: equal up to the order of properties, with `-0` told from `0`. -/
def Same (a b : Json) : Prop := equalBy (· == ·) a b = true

instance (a b : Json) : Decidable (Same a b) := inferInstanceAs (Decidable (_ = true))

mutual

def WellFormed : Json → Prop
  | .arr items => ItemsWellFormed items
  | .obj fields => (fields.map Prod.fst).Nodup ∧ FieldsWellFormed fields
  | _ => True

def ItemsWellFormed : List Json → Prop
  | [] => True
  | x :: xs => WellFormed x ∧ ItemsWellFormed xs

def FieldsWellFormed : List (String × Json) → Prop
  | [] => True
  | (_, x) :: xs => WellFormed x ∧ FieldsWellFormed xs

end

mutual

/-- What `snapshotJsonValue` checks of a plain value: every number is finite and not `-0`. -/
def isLossless : Json → Bool
  | .num n => n.isLossless
  | .arr items => itemsLossless items
  | .obj fields => fieldsLossless fields
  | _ => true

def itemsLossless : List Json → Bool
  | [] => true
  | x :: xs => isLossless x && itemsLossless xs

def fieldsLossless : List (String × Json) → Bool
  | [] => true
  | (_, x) :: xs => isLossless x && fieldsLossless xs

end

/-- `snapshotJsonValue` on a value without accessors, cycles or exotic objects: a detached
copy, or `undefined` when JSON text would not carry it. -/
def snapshotJsonValue (value : Json) : Option Json :=
  if value.isLossless then some value else none

mutual

theorem equalBy_refl {eq : Number → Number → Bool} (hrefl : ∀ n, eq n n = true) :
    ∀ v : Json, v.WellFormed → equalBy eq v v = true
  | .null, _ => rfl
  | .bool b, _ => by simp [equalBy]
  | .num n, _ => hrefl n
  | .str s, _ => by simp [equalBy]
  | .arr items, h => itemsEqualBy_refl hrefl items h
  | .obj fields, h => by
    simp only [equalBy, Bool.and_eq_true, beq_self_eq_true, true_and]
    exact fieldsEqualBy_refl hrefl fields fields h.2
      (fun p hp => lookup_eq_some_of_mem h.1 hp)

theorem itemsEqualBy_refl {eq : Number → Number → Bool} (hrefl : ∀ n, eq n n = true) :
    ∀ items : List Json, ItemsWellFormed items → itemsEqualBy eq items items = true
  | [], _ => rfl
  | x :: xs, h => by
    simp only [itemsEqualBy, Bool.and_eq_true]
    exact ⟨equalBy_refl hrefl x h.1, itemsEqualBy_refl hrefl xs h.2⟩

theorem fieldsEqualBy_refl {eq : Number → Number → Bool} (hrefl : ∀ n, eq n n = true) :
    ∀ fields all : List (String × Json), FieldsWellFormed fields →
      (∀ p ∈ fields, all.lookup p.1 = some p.2) → fieldsEqualBy eq fields all = true
  | [], _, _, _ => rfl
  | (key, x) :: xs, all, h, hall => by
    have hx : all.lookup key = some x := hall (key, x) List.mem_cons_self
    simp only [fieldsEqualBy, hx, Bool.and_eq_true]
    exact ⟨equalBy_refl hrefl x h.1,
      fieldsEqualBy_refl hrefl xs all h.2 (fun p hp => hall p (List.mem_cons_of_mem _ hp))⟩

end

theorem Same.refl {v : Json} (h : v.WellFormed) : Same v v :=
  equalBy_refl (by simp) v h

variable {items : List Json} {fields : List (String × Json)}

theorem itemsLossless_iff :
    itemsLossless items = true ↔ ∀ item ∈ items, item.isLossless = true := by
  induction items with
  | nil => simp [itemsLossless]
  | cons item rest ih => simp [itemsLossless, ih]

theorem fieldsLossless_iff :
    fieldsLossless fields = true ↔ ∀ field ∈ fields, field.2.isLossless = true := by
  induction fields with
  | nil => simp [fieldsLossless]
  | cons field rest ih => simp [fieldsLossless, ih]

theorem itemsWellFormed_iff : ItemsWellFormed items ↔ ∀ item ∈ items, item.WellFormed := by
  induction items with
  | nil => simp [ItemsWellFormed]
  | cons item rest ih => simp [ItemsWellFormed, ih]

theorem fieldsWellFormed_iff : FieldsWellFormed fields ↔ ∀ field ∈ fields, field.2.WellFormed := by
  induction fields with
  | nil => simp [FieldsWellFormed]
  | cons field rest ih => simp [FieldsWellFormed, ih]

@[simp] theorem snapshotJsonValue_eq_some {v w : Json} :
    snapshotJsonValue v = some w ↔ v.isLossless = true ∧ v = w := by
  simp [snapshotJsonValue]

end Json

end DshKernel.Js
