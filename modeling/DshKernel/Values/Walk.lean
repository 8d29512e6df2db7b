import DshKernel.Lib.TaskStack
import DshKernel.Values.ObjectGraph

/-!
# The walk over a JSON value

`walkJsonValue` checks a graph with a stack of tasks and the set of objects it is inside of; with
`detach` it builds a copy on a heap of its own as it goes.
-/

namespace DshKernel.Values

open Js Lib

inductive SnapshotDestination where
  | root
  | array (target index : Nat)
  | object (target : Nat) (key : String)
  deriving DecidableEq, Repr

inductive JsonWalkTask where
  | visit (value : Raw) (destination : Option SnapshotDestination)
  | arrayItem (source index : Nat) (target : Option Nat)
  | objectProperty (source : Nat) (key : String) (target : Option Nat)
  | leave (source : Nat)
  deriving DecidableEq, Repr

structure WalkState where
  ancestors : List Nat := []
  root : Option Raw := none
  targets : Heap := []

def WalkState.assign (state : WalkState) (destination : Option SnapshotDestination) (item : Raw) :
    WalkState :=
  match destination with
  | none => state
  | some .root => { state with root := some item }
  | some (.array target index) =>
    { state with targets := state.targets.setItem target index item }
  | some (.object target key) => { state with targets := state.targets.setField target key item }

/-- `new` as the target of the object that is visited: it is assigned, and the walk goes inside. -/
def WalkState.enter (state : WalkState) (detach : Bool) (destination : Option SnapshotDestination)
    (id : Nat) (new : HeapObject) : WalkState :=
  let assigned := if detach then
      { state with targets := state.targets ++ [new] }.assign destination
        (.ref state.targets.length)
    else state
  { assigned with ancestors := id :: assigned.ancestors }

/-- `detach ? target : undefined` -/
def WalkState.target (state : WalkState) (detach : Bool) : Option Nat :=
  if detach then some state.targets.length else none

section Tasks

variable (heap : ObjectHeap) (detach : Bool)

def visitArray (id : Nat) (node : ObjectNode) (destination : Option SnapshotDestination)
    (state : WalkState) : Except Unit (List JsonWalkTask × WalkState) :=
  if !node.hasPlainArrayPrototype then .error ()
  else if node.arrayKeyCount ≠ node.length + 1 then .error ()
  else .ok
    ((List.range node.length).map (fun index =>
        .arrayItem id index (state.target detach)) ++ [.leave id],
      state.enter detach destination id (.array []))

def visitObject (id : Nat) (node : ObjectNode) (destination : Option SnapshotDestination)
    (state : WalkState) : Except Unit (List JsonWalkTask × WalkState) :=
  if !node.hasPlainObjectPrototype then .error ()
  else match node.enumerableStringKeys with
    | none => .error ()
    | some keys => .ok
      (keys.map (fun key => .objectProperty id key (state.target detach)) ++ [.leave id],
        state.enter detach destination id (.record OrderedMap.empty))

def performTask : JsonWalkTask → WalkState → Except Unit (List JsonWalkTask × WalkState)
  | .leave source, state => .ok ([], { state with ancestors := state.ancestors.erase source })
  | .arrayItem source index target, state =>
    match heap[source]?.bind fun node => node.own? (indexKey index) with
    | none => .error ()
    | some value => .ok ([.visit value (target.map fun target => .array target index)], state)
  | .objectProperty source key target, state =>
    let value := (heap[source]?.bind fun node => node.own? (.str key)).getD .undefined
    .ok ([.visit value (target.map fun target => .object target key)], state)
  | .visit .null destination, state => .ok ([], state.assign destination .null)
  | .visit (.bool value) destination, state => .ok ([], state.assign destination (.bool value))
  | .visit (.str value) destination, state => .ok ([], state.assign destination (.str value))
  | .visit (.num value) destination, state =>
    if value.isLossless then .ok ([], state.assign destination (.num value)) else .error ()
  | .visit .undefined _, _ => .error ()
  | .visit .other _, _ => .error ()
  | .visit (.ref id) destination, state =>
    if id ∈ state.ancestors then .error ()
    else match heap[id]? with
      | none => .error ()
      | some node =>
        if node.isArray then visitArray detach id node destination state
        else visitObject detach id node destination state

/-- At most `fuel` turns of the loop. -/
def walkJsonValue (fuel : Nat) (value : Raw) : Option (Except Unit WalkState) :=
  runTasks (performTask heap detach) fuel
    [.visit value (if detach then some .root else none)] {}

end Tasks

/-- The snapshot with the heap its objects are on, or `undefined`. -/
def snapshotJsonValue (heap : ObjectHeap) (fuel : Nat) (value : Raw) :
    Option (Option (Raw × Heap)) :=
  (walkJsonValue heap true fuel value).map fun
    | .error _ => none
    | .ok state => state.root.map fun root => (root, state.targets)

def isJsonValue (heap : ObjectHeap) (fuel : Nat) (value : Raw) : Option Bool :=
  (walkJsonValue heap false fuel value).map fun
    | .error _ => false
    | .ok _ => true

end DshKernel.Values
