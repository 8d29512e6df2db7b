import DshKernel.Scope.ScopeChain
import Mathlib.Data.Fintype.Basic

/-!
# Layered stores

The global and the exact-scope layers of a registry, made up of tables of named and of anonymous
entries. A registration is an effect with an undo of its own; an empty layer is reclaimed.
-/

namespace DshKernel.Scope

open Lib

/-- A table of entries: the maps that have been its `data`, and the one that is. An undo keeps the
map that it was made for, and a drained table goes on with a new one. -/
structure Entries (η V : Type) where
  maps : Nat → OrderedMap η V := fun _ => .empty
  data : Nat := 0

namespace Entries

variable {η V : Type} [DecidableEq η]

def current (table : Entries η V) : OrderedMap η V := table.maps table.data

def isEmpty (table : Entries η V) : Bool := table.current.entries.isEmpty

def add (table : Entries η V) (key : η) (value : V) : Entries η V :=
  { table with maps := fun generation =>
      if generation = table.data then (table.maps generation).set key value
      else table.maps generation }

def undo (table : Entries η V) (generation : Nat) (key : η) : Entries η V :=
  let left := (table.maps generation).delete key
  { maps := fun other => if other = generation then left else table.maps other
    data := if left.entries.isEmpty && table.data = generation then table.data + 1 else table.data }

end Entries

abbrev NamedEntries (V : Type) := Entries String V

abbrev AnonymousEntries (V : Type) := Entries Nat V

def NamedEntries.insert {V : Type} (duplicateError : String → String) (table : NamedEntries V)
    (name : String) (value : V) : Except String (NamedEntries V) :=
  if (table.current.get? name).isSome then .error (duplicateError name)
  else .ok (table.add name value)

def AnonymousEntries.append {V : Type} (table : AnonymousEntries V) (symbol : Nat) (value : V) :
    AnonymousEntries V :=
  table.add symbol value

structure Layer (ν μ V : Type) where
  named : ν → NamedEntries V := fun _ => {}
  anonymous : μ → AnonymousEntries V := fun _ => {}

inductive Contribution (ν μ V : Type) where
  | named (table : ν) (name : String) (value : V)
  | anonymous (table : μ) (value : V)

inductive Undo (ν μ : Type) where
  | named (table : ν) (generation : Nat) (name : String)
  | anonymous (table : μ) (generation : Nat) (symbol : Nat)

namespace Layer

variable {ν μ V : Type}

def isEmpty [Fintype ν] [Fintype μ] (layer : Layer ν μ V) : Bool :=
  decide (∀ table, (layer.named table).isEmpty = true) &&
    decide (∀ table, (layer.anonymous table).isEmpty = true)

variable [DecidableEq ν] [DecidableEq μ]

def setNamed (layer : Layer ν μ V) (table : ν) (entries : NamedEntries V) : Layer ν μ V :=
  { layer with named := fun other => if other = table then entries else layer.named other }

def setAnonymous (layer : Layer ν μ V) (table : μ) (entries : AnonymousEntries V) : Layer ν μ V :=
  { layer with anonymous := fun other => if other = table then entries else layer.anonymous other }

def undo (layer : Layer ν μ V) : Undo ν μ → Layer ν μ V
  | .named table generation name =>
    layer.setNamed table ((layer.named table).undo generation name)
  | .anonymous table generation symbol =>
    layer.setAnonymous table ((layer.anonymous table).undo generation symbol)

def undoOf (layer : Layer ν μ V) (symbol : Nat) : Contribution ν μ V → Undo ν μ
  | .named table name _ => .named table (layer.named table).data name
  | .anonymous table _ => .anonymous table (layer.anonymous table).data symbol

def contribute (duplicateError : String → String) (layer : Layer ν μ V) (symbol : Nat) :
    Contribution ν μ V → Except String (Layer ν μ V)
  | .named table name value =>
    match (layer.named table).insert duplicateError name value with
    | .error error => .error error
    | .ok entries => .ok (layer.setNamed table entries)
  | .anonymous table value =>
    .ok (layer.setAnonymous table ((layer.anonymous table).append symbol value))

end Layer

structure LayerEffect (κ ν μ : Type) where
  scope : Option κ
  layer : Nat
  undo : Undo ν μ
  active : Bool := true

/-- The layers that were created, the global one first, those in use by scopes, and the effects. -/
structure ScopedLayers (κ ν μ V : Type) where
  layers : Nat → Layer ν μ V := fun _ => {}
  created : Nat := 1
  scopedLayers : OrderedMap κ Nat := .empty
  effects : List (LayerEffect κ ν μ) := []

namespace ScopedLayers

variable {κ ν μ V : Type} [DecidableEq κ]

def globalLayer (store : ScopedLayers κ ν μ V) : Layer ν μ V := store.layers 0

def peek (store : ScopedLayers κ ν μ V) : Option κ → Option (Layer ν μ V)
  | none => none
  | some scope => (store.scopedLayers.get? scope).map store.layers

def chainLayers (store : ScopedLayers κ ν μ V) (parents : ScopeParents κ) (scope : Option κ) :
    List (Layer ν μ V) :=
  (scopeChainOf parents scope).reverse.filterMap fun key => (store.scopedLayers.get? key).map store.layers

def merge (store : ScopedLayers κ ν μ V) (parents : ScopeParents κ) (scope : Option κ)
    (pick : ν) : OrderedMap String V :=
  (store.chainLayers parents scope).foldl
    (fun merged layer => merged.setAll (layer.named pick).current.entries)
    (OrderedMap.empty.setAll (store.globalLayer.named pick).current.entries)

def layerOf (store : ScopedLayers κ ν μ V) : Option κ → Option Nat
  | none => some 0
  | some scope => store.scopedLayers.get? scope

def layerFor (store : ScopedLayers κ ν μ V) (scope : Option κ) :
    ScopedLayers κ ν μ V × Nat × Bool :=
  match scope with
  | none => (store, 0, false)
  | some key =>
    match store.scopedLayers.get? key with
    | some layer => (store, layer, false)
    | none =>
      ({ store with
          layers := fun other => if other = store.created then {} else store.layers other
          created := store.created + 1
          scopedLayers := store.scopedLayers.set key store.created }, store.created, true)

variable [DecidableEq ν] [DecidableEq μ] [Fintype ν] [Fintype μ]

/-- `if (scope !== undefined && layer.isEmpty()) this.scoped.delete(scope)` -/
def reclaim (store : ScopedLayers κ ν μ V) (scope : Option κ) (layer : Nat) : ScopedLayers κ ν μ V :=
  match scope with
  | none => store
  | some key =>
    if (store.layers layer).isEmpty then { store with scopedLayers := store.scopedLayers.delete key } else store

/-- One registration: its action may throw before it changes the layer. What the notification
does, and the disposal of the effect when it throws, are steps of their own. -/
def effect (store : ScopedLayers κ ν μ V) (duplicateError : String → String) (scope : Option κ)
    (action : Except String (Contribution ν μ V)) : ScopedLayers κ ν μ V × Except String Nat :=
  let (store, layer, created) := store.layerFor scope
  let symbol := store.effects.length
  let refused (error : String) : ScopedLayers κ ν μ V × Except String Nat :=
    (if created then store.reclaim scope layer else store, .error error)
  match action with
  | .error error => refused error
  | .ok contribution =>
    match (store.layers layer).contribute duplicateError symbol contribution with
    | .error error => refused error
    | .ok changed =>
      ({ store with
          layers := fun other => if other = layer then changed else store.layers other
          effects := store.effects ++
            [⟨scope, layer, (store.layers layer).undoOf symbol contribution, true⟩] },
        .ok symbol)

def dispose (store : ScopedLayers κ ν μ V) (id : Nat) : ScopedLayers κ ν μ V :=
  match store.effects[id]? with
  | none => store
  | some made =>
    if made.active then
      let undone : ScopedLayers κ ν μ V :=
        { store with
          layers := fun other =>
            if other = made.layer then (store.layers made.layer).undo made.undo else store.layers other
          effects := store.effects.set id { made with active := false } }
      undone.reclaim made.scope made.layer
    else store

end ScopedLayers

end DshKernel.Scope
