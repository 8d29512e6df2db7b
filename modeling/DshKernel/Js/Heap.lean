import DshKernel.Js.Json

/-!
# Values on a heap

Untrusted input is a graph: objects may be shared and cyclic. A value is a primitive or a reference,
and the heap says what the reference is to. Objects hold data properties; a property with a getter
is not modelled.
-/

namespace DshKernel.Js

open Lib

inductive Raw where
  | undefined
  | null
  | bool (value : Bool)
  | num (value : Number)
  | str (value : String)
  | ref (id : Nat)
  /-- A function, a symbol or a bigint. -/
  | other
  deriving DecidableEq, Repr

/-- `record` has an intrinsic prototype and only own enumerable string keys, in property order;
`array` is intrinsic, dense and undecorated; everything else is `exotic`. -/
inductive HeapObject where
  | record (fields : OrderedMap String Raw)
  | array (items : List Raw)
  | exotic (isArray : Bool)
  deriving Repr

abbrev Heap := List HeapObject

namespace Heap

/-- `isJsonSchemaRecord`, with the identity and the properties of the record -/
def record? (heap : Heap) : Raw → Option (Nat × OrderedMap String Raw)
  | .ref id =>
    match heap[id]? with
    | some (.record fields) => some (id, fields)
    | _ => none
  | _ => none

/-- `isPlainJsonArray`, with the items of the array -/
def plainArray? (heap : Heap) : Raw → Option (List Raw)
  | .ref id =>
    match heap[id]? with
    | some (.array items) => some items
    | _ => none
  | _ => none

/-- `Array.isArray` -/
def isArray (heap : Heap) : Raw → Bool
  | .ref id =>
    match heap[id]? with
    | some (.array _) => true
    | some (.exotic isArray) => isArray
    | _ => false
  | _ => false

/-- The walk of `isJsonValue` below `ancestors`. A path without repetition is no longer than the
heap, so a budget of the heap's length is never used up. -/
def isJsonBelow (heap : Heap) : Nat → List Nat → Raw → Bool
  | _, _, .undefined => false
  | _, _, .other => false
  | _, _, .null => true
  | _, _, .bool _ => true
  | _, _, .str _ => true
  | _, _, .num value => value.isLossless
  | 0, _, .ref _ => false
  | budget + 1, ancestors, .ref id =>
    !ancestors.contains id &&
      match heap[id]? with
      | some (.record fields) =>
        fields.entries.all fun entry => heap.isJsonBelow budget (id :: ancestors) entry.2
      | some (.array items) => items.all (heap.isJsonBelow budget (id :: ancestors))
      | _ => false

/-- `isJsonValue` -/
def isJsonValue (heap : Heap) (value : Raw) : Bool := heap.isJsonBelow heap.length [] value

/-- `heap[id][key] = value` as `Object.defineProperty` does it: an own property, whatever its
name. -/
def setField (heap : Heap) (id : Nat) (key : String) (value : Raw) : Heap :=
  heap.modify id fun object => match object with
    | .record fields => .record (fields.set key value)
    | object => object

/-- `heap[id][index] = value`; an index past the end leaves a hole. -/
def setItem (heap : Heap) (id index : Nat) (value : Raw) : Heap :=
  heap.modify id fun object => match object with
    | .array items =>
      if index < items.length then .array (items.set index value)
      else if index = items.length then .array (items ++ [value])
      else .exotic true
    | object => object

/-- `heap[id].push(value)` -/
def pushItem (heap : Heap) (id : Nat) (value : Raw) : Heap :=
  heap.modify id fun object => match object with
    | .array items => .array (items ++ [value])
    | object => object

end Heap

/-- The value refers to an object among the first `size`, or to none. -/
def Raw.Within (size : Nat) : Raw → Prop
  | .ref id => id < size
  | _ => True

def HeapObject.Within (size : Nat) : HeapObject → Prop
  | .record fields => ∀ entry ∈ fields.entries, entry.2.Within size
  | .array items => ∀ item ∈ items, item.Within size
  | .exotic _ => True

instance (size : Nat) : (value : Raw) → Decidable (value.Within size)
  | .ref id => inferInstanceAs (Decidable (id < size))
  | .undefined => .isTrue trivial
  | .null => .isTrue trivial
  | .bool _ => .isTrue trivial
  | .num _ => .isTrue trivial
  | .str _ => .isTrue trivial
  | .other => .isTrue trivial

instance (size : Nat) : (object : HeapObject) → Decidable (object.Within size)
  | .record fields => inferInstanceAs (Decidable (∀ entry ∈ fields.entries, entry.2.Within size))
  | .array items => inferInstanceAs (Decidable (∀ item ∈ items, item.Within size))
  | .exotic _ => .isTrue trivial

structure Graph where
  heap : Heap
  root : Raw
  closed : ∀ object ∈ heap, object.Within heap.length
  within : root.Within heap.length

def Raw.scalar? : Raw → Option Json
  | .null => some .null
  | .bool value => some (.bool value)
  | .num value => some (.num value)
  | .str value => some (.str value)
  | _ => none

/-- `Object.hasOwn(fields, key)` -/
def hasOwn (fields : OrderedMap String Raw) (key : String) : Bool := (fields.get? key).isSome

/-- `Object.hasOwn(fields, key) ? fields[key] : undefined` -/
def ownOrUndefined (fields : OrderedMap String Raw) (key : String) : Raw :=
  (fields.get? key).getD .undefined

theorem Heap.record?_eq_some {heap : Heap} {value : Raw} {id : Nat}
    {fields : OrderedMap String Raw} :
    heap.record? value = some (id, fields) ↔ value = .ref id ∧ heap[id]? = some (.record fields) := by
  cases value with
  | ref other =>
    simp only [record?, Raw.ref.injEq]
    constructor
    · intro h
      split at h
      · rename_i found heq
        cases h
        exact ⟨rfl, heq⟩
      · cases h
    · rintro ⟨rfl, hid⟩
      rw [hid]
  | _ => simp [record?]

theorem Heap.plainArray?_eq_some {heap : Heap} {value : Raw} {items : List Raw} :
    heap.plainArray? value = some items ↔ ∃ id, value = .ref id ∧ heap[id]? = some (.array items) := by
  cases value with
  | ref id =>
    simp only [plainArray?, Raw.ref.injEq]
    constructor
    · intro h
      split at h
      · rename_i found heq
        cases h
        exact ⟨id, rfl, heq⟩
      · cases h
    · rintro ⟨_, rfl, hid⟩
      rw [hid]
  | _ => simp [plainArray?]

namespace Heap

variable {heap : Heap} {id index other : Nat} {key : String} {value : Raw}

@[simp] theorem length_setField : (heap.setField id key value).length = heap.length :=
  List.length_modify _ _ _

@[simp] theorem length_setItem : (heap.setItem id index value).length = heap.length :=
  List.length_modify _ _ _

@[simp] theorem length_pushItem : (heap.pushItem id value).length = heap.length :=
  List.length_modify _ _ _

theorem getElem?_setField_of_ne (h : other ≠ id) :
    (heap.setField id key value)[other]? = heap[other]? := by
  exact List.getElem?_modify_ne _ heap (Ne.symm h)

theorem getElem?_setItem_of_ne (h : other ≠ id) :
    (heap.setItem id index value)[other]? = heap[other]? := by
  exact List.getElem?_modify_ne _ heap (Ne.symm h)

theorem getElem?_pushItem_of_ne (h : other ≠ id) :
    (heap.pushItem id value)[other]? = heap[other]? := by
  exact List.getElem?_modify_ne _ heap (Ne.symm h)

theorem getElem?_setField_self {fields : OrderedMap String Raw}
    (h : heap[id]? = some (.record fields)) :
    (heap.setField id key value)[id]? = some (.record (fields.set key value)) := by
  rw [setField, List.getElem?_modify_eq, h]
  rfl

theorem getElem?_setField_congr {later : Heap} (h : later[other]? = heap[other]?) :
    (later.setField id key value)[other]? = (heap.setField id key value)[other]? := by
  by_cases hother : other = id
  · subst hother
    rw [setField, setField, List.getElem?_modify_eq, List.getElem?_modify_eq, h]
  · rw [getElem?_setField_of_ne hother, getElem?_setField_of_ne hother, h]

theorem getElem?_setItem_self {items : List Raw} (h : heap[id]? = some (.array items)) :
    (heap.setItem id items.length value)[id]? = some (.array (items ++ [value])) := by
  rw [setItem, List.getElem?_modify_eq, h]
  simp

theorem getElem?_pushItem_self {items : List Raw} (h : heap[id]? = some (.array items)) :
    (heap.pushItem id value)[id]? = some (.array (items ++ [value])) := by
  rw [pushItem, List.getElem?_modify_eq, h]
  rfl

end Heap

end DshKernel.Js
