import DshKernel.Js.Heap
import Mathlib.Data.List.Perm.Subperm
import Mathlib.Data.List.Forall2
import Mathlib.Logic.Relation

/-!
# Object graphs

Objects with all their own properties, as `Reflect.ownKeys` lists them, and what of them is JSON.
-/

namespace DshKernel.Values

open Js Lib

inductive PropertyKey where
  | str (name : String)
  | symbol (id : Nat)
  deriving DecidableEq, Repr

structure Property where
  key : PropertyKey
  enumerable : Bool
  value : Raw
  deriving DecidableEq, Repr

/-- `intrinsicArray` and `intrinsicObject` are those of any realm that `hasPlainArrayPrototype` and
`isIntrinsicObjectPrototype` recognize. -/
inductive Prototype where
  | null
  | intrinsicObject
  | intrinsicArray
  | other
  deriving DecidableEq, Repr

/-- An object with its own data properties. The `length` of an array stands apart from them. -/
structure ObjectNode where
  isArray : Bool
  length : Nat
  prototype : Prototype
  properties : List Property
  nodup : (properties.map Property.key).Nodup

abbrev ObjectHeap := List ObjectNode

/-- `String(index)`, the key of an array item -/
def indexKey (index : Nat) : PropertyKey := .str (Nat.repr index)

namespace ObjectNode

def keys (node : ObjectNode) : List PropertyKey := node.properties.map Property.key

def own? (node : ObjectNode) (key : PropertyKey) : Option Raw :=
  (node.properties.find? fun property => property.key = key).map Property.value

def hasPlainArrayPrototype (node : ObjectNode) : Bool := node.prototype = .intrinsicArray

def hasPlainObjectPrototype (node : ObjectNode) : Bool :=
  node.prototype = .null || node.prototype = .intrinsicObject

/-- `Reflect.ownKeys(array).length` -/
def arrayKeyCount (node : ObjectNode) : Nat := node.properties.length + 1

def enumerableName? (property : Property) : Option String :=
  match property.key with
  | .str name => if property.enumerable then some name else none
  | .symbol _ => none

/-- `undefined` where one key is a symbol or not enumerable -/
def enumerableStringKeys (node : ObjectNode) : Option (List String) :=
  node.properties.mapM enumerableName?

/-! ## What of it is JSON -/

structure IsArrayOf (node : ObjectNode) (items : List Raw) : Prop where
  isArray : node.isArray = true
  prototype : node.hasPlainArrayPrototype = true
  keys : ∀ key, key ∈ node.keys ↔ ∃ index < node.length, key = indexKey index
  length : items.length = node.length
  items : ∀ index (h : index < items.length), node.own? (indexKey index) = some items[index]

structure IsRecordOf (node : ObjectNode) (fields : List (String × Raw)) : Prop where
  isArray : node.isArray = false
  prototype : node.hasPlainObjectPrototype = true
  properties : node.properties =
    fields.map fun field => { key := .str field.1, enumerable := true, value := field.2 }

end ObjectNode

structure ObjectGraph where
  heap : ObjectHeap
  root : Raw
  closed : ∀ node ∈ heap, ∀ property ∈ node.properties, property.value.Within heap.length
  within : root.Within heap.length

variable (heap : ObjectHeap)

/-- `below` is the value of an own property of `above`. -/
def Child (above below : Raw) : Prop :=
  ∃ id node property, above = .ref id ∧ heap[id]? = some node ∧ property ∈ node.properties ∧
    property.value = below

/-- A value that JSON does not carry, whatever its properties hold. -/
def NotLossless : Raw → Prop
  | .undefined => True
  | .other => True
  | .num value => value.isLossless = false
  | .ref id => ∀ node, heap[id]? = some node →
      (∀ items, ¬ node.IsArrayOf items) ∧ ∀ fields, ¬ node.IsRecordOf fields
  | _ => False

def Rejectable (value : Raw) : Prop :=
  ∃ reached, Relation.ReflTransGen (Child heap) value reached ∧
    (NotLossless heap reached ∨ Relation.TransGen (Child heap) reached reached)

mutual

def Unfolds : Raw → Json → Prop
  | value, .null => value = .null
  | value, .bool b => value = .bool b
  | value, .num n => value = .num n ∧ n.isLossless = true
  | value, .str s => value = .str s
  | value, .arr jsons => ∃ id node items, value = .ref id ∧ heap[id]? = some node ∧
      node.IsArrayOf items ∧ ItemsUnfold items jsons
  | value, .obj jsons => ∃ id node fields, value = .ref id ∧ heap[id]? = some node ∧
      node.IsRecordOf fields ∧ FieldsUnfold fields jsons

def ItemsUnfold : List Raw → List Json → Prop
  | [], [] => True
  | item :: items, json :: jsons => Unfolds item json ∧ ItemsUnfold items jsons
  | _, _ => False

def FieldsUnfold : List (String × Raw) → List (String × Json) → Prop
  | [], [] => True
  | field :: fields, json :: jsons =>
    field.1 = json.1 ∧ Unfolds field.2 json.2 ∧ FieldsUnfold fields jsons
  | _, _ => False

end

end DshKernel.Values
