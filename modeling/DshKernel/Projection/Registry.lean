import DshKernel.Session.Event

/-!
# The units of the projection registry

Units are pure folds over the events of a session. A checkpoint row has the version of a state, the
seq of the last event that went into it, and the state; a restore folds on from the rows it may use.
-/

namespace DshKernel.Projection

open Js Session

/-- The client view of a unit. A schema that throws gives `none`. -/
structure Wire (σ ν : Type) where
  viewSchema : ν → Option ν
  view : σ → ν

/-- `ErasedDefinition` -/
structure Definition (σ ν : Type) where
  key : String
  stateSchema : σ → Option σ
  init : Json → Nat → σ
  apply : σ → SessionEvent → σ
  wire : Option (Wire σ ν)
  stateVersion : Number

def cursorBefore (offset : Nat) : Int := (offset : Int) - 1

structure CheckpointRow (σ : Type) where
  ver : Number
  seq : Int
  val : σ

inductive ProjectionError where
  | cannotRestore (key : String) (baseSeq : Nat)
  | missingSeq (key : String) (seq : Nat)
  | stateSchema (key : String)
  | viewSchema (key : String)
  deriving Repr

/-- The message, for `JSON.stringify` of a key; that of a schema is the schema's own. -/
def ProjectionError.text (quote : String → String) (schema : String → String) : ProjectionError → String
  | cannotRestore key baseSeq =>
    let name := quote key
    s!"session projection {name} cannot restore from seq {baseSeq}: its checkpoint row is missing, version-mismatched, or beyond the supplied log end; re-read from seq 0"
  | missingSeq key seq =>
    let name := quote key
    s!"session projection {name} cannot restore across missing seq {seq}"
  | stateSchema key => schema key
  | viewSchema key => schema key

/-- `ProjectionSnapshot` -/
structure Snapshot (ν : Type) where
  asOfSeq : Int
  values : List (String × ν)

section Restore

variable {σ ν : Type}

abbrev Checkpoint (σ : Type) := List (String × CheckpointRow σ)

def endSeqOf (events : List SessionEvent) (baseSeq : Nat) : Int :=
  (events.getLast?.map fun event => (event.seq : Int)).getD (cursorBefore baseSeq)

def usableRow (checkpoint : Checkpoint σ) (definition : Definition σ ν) (baseSeq : Nat)
    (endSeq : Int) : Option (CheckpointRow σ) :=
  (checkpoint.lookup definition.key).filter fun row =>
    row.ver.strictEq definition.stateVersion && decide (cursorBefore baseSeq ≤ row.seq)
      && decide (row.seq ≤ endSeq)

/-- The replay of the supplied events from `index` on. -/
def replay (definition : Definition σ ν) (baseSeq : Nat) :
    Nat → List SessionEvent → σ → Except ProjectionError σ
  | _, [], state => .ok state
  | index, event :: rest, state =>
    if event.seq ≠ baseSeq + index then .error (.missingSeq definition.key (baseSeq + index))
    else replay definition baseSeq (index + 1) rest (definition.apply state event)

def restoreUnit (checkpoint : Checkpoint σ) (events : List SessionEvent) (baseSeq : Nat)
    (header : Json) (inheritedEventCount : Nat) (definition : Definition σ ν) :
    Except ProjectionError σ :=
  match usableRow checkpoint definition baseSeq (endSeqOf events baseSeq) with
  | some row =>
    match definition.stateSchema row.val with
    | none => .error (.stateSchema definition.key)
    | some state =>
      let startIndex := (row.seq - baseSeq + 1).toNat
      replay definition baseSeq startIndex (events.drop startIndex) state
  | none =>
    if 0 < baseSeq then .error (.cannotRestore definition.key baseSeq)
    else replay definition baseSeq 0 events (definition.init header inheritedEventCount)

def restoredView (definition : Definition σ ν) (state : σ) :
    Except ProjectionError (List (String × ν)) :=
  match definition.wire with
  | none => .ok []
  | some wire =>
    match wire.viewSchema (wire.view state) with
    | none => .error (.viewSchema definition.key)
    | some value => .ok [(definition.key, value)]

structure Restored (σ ν : Type) where
  snapshot : Snapshot ν
  checkpoint : Checkpoint σ

/-- The loop of `restore` over the units. -/
def restoreLoop (checkpoint : Checkpoint σ) (events : List SessionEvent) (baseSeq : Nat)
    (header : Json) (inheritedEventCount : Nat) :
    List (Definition σ ν) → Except ProjectionError (List (String × ν) × Checkpoint σ)
  | [] => .ok ([], [])
  | definition :: rest =>
    match restoreUnit checkpoint events baseSeq header inheritedEventCount definition with
    | .error failure => .error failure
    | .ok state =>
      match restoredView definition state with
      | .error failure => .error failure
      | .ok value =>
        match restoreLoop checkpoint events baseSeq header inheritedEventCount rest with
        | .error failure => .error failure
        | .ok (values, rows) => .ok (value ++ values,
            (definition.key, ⟨definition.stateVersion, endSeqOf events baseSeq, state⟩) :: rows)

def restore (definitions : List (Definition σ ν)) (checkpoint : Checkpoint σ)
    (events : List SessionEvent) (baseSeq : Nat) (header : Json) (inheritedEventCount : Nat) :
    Except ProjectionError (Restored σ ν) :=
  match restoreLoop checkpoint events baseSeq header inheritedEventCount definitions with
  | .error failure => .error failure
  | .ok (values, rows) => .ok ⟨⟨endSeqOf events baseSeq, values⟩, rows⟩

end Restore

end DshKernel.Projection
