import DshKernel.Js.Number
import DshKernel.Js.Text

/-!
# The durable goal fold

The changes of a goal and its admitted rounds are events of the session log. The strict fold takes
them one after another, and refuses each that does not follow from the state before it.
-/

namespace DshKernel.Goal

open Js

structure GoalRef where
  id : String
  revision : Nat
  deriving DecidableEq

inductive GoalPhase where
  | active
  | paused
  | blocked
  | complete
  deriving DecidableEq

def GoalPhase.text : GoalPhase → String
  | .active => "active"
  | .paused => "paused"
  | .blocked => "blocked"
  | .complete => "complete"

structure GoalBlockReason where
  code : String
  message : String
  deriving DecidableEq

structure GoalSnapshot where
  id : String
  revision : Nat
  objective : String
  phase : GoalPhase
  blockedReason : Option GoalBlockReason
  maxGoalRounds : Nat
  deriving DecidableEq

inductive SnapshotOperation where
  | create
  | edit
  | pause
  | resume
  | complete
  | block
  deriving DecidableEq

def SnapshotOperation.text : SnapshotOperation → String
  | .create => "create"
  | .edit => "edit"
  | .pause => "pause"
  | .resume => "resume"
  | .complete => "complete"
  | .block => "block"

structure GoalSnapshotChange where
  operation : SnapshotOperation
  goal : GoalSnapshot
  roundsStarted : Nat
  createdAt : Nat
  updatedAt : Nat

inductive GoalChange where
  | snapshot (change : GoalSnapshotChange)
  | clear (cleared : GoalRef) (clearedAt : Nat)

structure GoalMessageSource where
  goalId : String
  revision : Nat
  round : Nat

inductive GoalEventBody where
  | goalChange (data : GoalChange)
  /-- A message of the user; `none` is a source of another kind. -/
  | userMessage (source : Option GoalMessageSource)
  | other

structure GoalEvent where
  seq : Nat
  body : GoalEventBody

/-! ## Decoding -/

def trimText (text : String) : String := String.ofList (trim text.toList)

def isNormalized (text : String) : Bool := trimText text ≠ "" && trimText text = text

def inAlphabet (char : Char) : Bool := inRange 0x61 0x7A char || inRange 0x30 0x39 char

/-- `[a-z0-9]+(?:-[a-z0-9]+)*` up to the end, behind a letter or digit (`true`) or a hyphen. -/
def isKebabTail : Bool → List Char → Bool
  | after, [] => after
  | after, char :: rest =>
    if inAlphabet char then isKebabTail true rest
    else if char = '-' then after && isKebabTail false rest
    else false

/-- `/^[a-z][a-z0-9]*(?:-[a-z0-9]+)*$/` -/
def isLowerKebab (code : String) : Bool :=
  match code.toList with
  | [] => false
  | first :: rest => inRange 0x61 0x7A first && isKebabTail true rest

def positiveInteger (value : Nat) (field : String) : Except String Nat :=
  if maxSafeInteger < value ∨ value < 1 then
    .error s!"goal change {field} must be a positive safe integer"
  else .ok value

def nonNegativeInteger (value : Nat) (field : String) : Except String Nat :=
  if maxSafeInteger < value then
    .error s!"goal change {field} must be a non-negative safe integer"
  else .ok value

def decodeBlockReason (reason : GoalBlockReason) : Except String GoalBlockReason :=
  if !isLowerKebab reason.code then
    .error "goal change goal.blockedReason.code must be lower-kebab-case"
  else if !isNormalized reason.message then
    .error "goal change goal.blockedReason.message must be non-empty and normalized"
  else .ok reason

def expectedKeys (phase : GoalPhase) : String :=
  if phase = .blocked then "blockedReason,id,maxGoalRounds,objective,phase,revision"
  else "id,maxGoalRounds,objective,phase,revision"

def decodeSnapshot (goal : GoalSnapshot) : Except String GoalSnapshot := do
  if goal.id = "" then
    throw "goal change goal.id must be a non-empty string"
  if !isNormalized goal.objective then
    throw "goal change goal.objective must be non-empty and normalized"
  if goal.blockedReason.isSome ≠ decide (goal.phase = .blocked) then
    throw s!"goal change goal for phase {goal.phase.text} must have exactly {expectedKeys goal.phase} fields"
  let revision ← positiveInteger goal.revision "goal.revision"
  let maxGoalRounds ← positiveInteger goal.maxGoalRounds "goal.maxGoalRounds"
  let blockedReason ← match goal.blockedReason with
    | none => pure none
    | some reason => some <$> decodeBlockReason reason
  return { goal with
    revision := revision
    maxGoalRounds := maxGoalRounds
    blockedReason := blockedReason }

def decodeRef (cleared : GoalRef) : Except String GoalRef := do
  if cleared.id = "" then
    throw "goal clear tombstone id must be a non-empty string"
  let revision ← positiveInteger cleared.revision "cleared.revision"
  return { cleared with revision := revision }

def decodeGoalChange : GoalChange → Except String GoalChange
  | .clear cleared clearedAt => do
    let cleared ← decodeRef cleared
    let clearedAt ← nonNegativeInteger clearedAt "clearedAt"
    return .clear cleared clearedAt
  | .snapshot change => do
    let createdAt ← nonNegativeInteger change.createdAt "createdAt"
    let updatedAt ← nonNegativeInteger change.updatedAt "updatedAt"
    if updatedAt < createdAt then
      throw "goal change updatedAt cannot precede createdAt"
    let goal ← decodeSnapshot change.goal
    let roundsStarted ← nonNegativeInteger change.roundsStarted "roundsStarted"
    return .snapshot ⟨change.operation, goal, roundsStarted, createdAt, updatedAt⟩

/-! ## The fold -/

structure GoalFoldState where
  goal : Option GoalSnapshot
  roundsStarted : Nat
  createdAt : Option Nat
  updatedAt : Option Nat
  lastRef : Option GoalRef
  seenGoalIds : List String

def emptyGoalFoldState : GoalFoldState := ⟨none, 0, none, none, none, []⟩

def goalSource (source : GoalMessageSource) : Except String GoalMessageSource :=
  if source.goalId = "" ∨ maxSafeInteger < source.revision ∨ source.revision < 1 ∨
      maxSafeInteger < source.round ∨ source.round < 1 then
    .error "goal message source is invalid"
  else .ok source

def requireSameDefinition (current next : GoalSnapshot) (operation : SnapshotOperation) :
    Except String Unit :=
  if next.objective ≠ current.objective ∨ next.maxGoalRounds ≠ current.maxGoalRounds then
    .error s!"goal {operation.text} cannot change objective or maxGoalRounds"
  else .ok ()

def requireNextRevision (current : GoalSnapshot) (next : GoalRef) (operation : String) :
    Except String Unit :=
  if next.id ≠ current.id ∨ next.revision ≠ current.revision + 1 then
    .error s!"goal {operation} must advance the current goal by one revision"
  else .ok ()

def validateSnapshotTransition (state : GoalFoldState) (change : GoalSnapshotChange)
    (current : GoalSnapshot) : Except String Unit := do
  let next := change.goal
  requireNextRevision current ⟨next.id, next.revision⟩ change.operation.text
  match state.updatedAt with
  | none => throw "current goal fold lacks updatedAt"
  | some updatedAt =>
    if some change.createdAt ≠ state.createdAt ∨ change.updatedAt < updatedAt ∨
        change.roundsStarted ≠ state.roundsStarted then
      throw s!"goal {change.operation.text} does not preserve the current counters and timestamps"
    match change.operation with
    | .edit =>
      if next.phase ≠ current.phase ∨ next.blockedReason ≠ current.blockedReason then
        throw "goal edit cannot change phase or blocked reason"
    | .pause =>
      requireSameDefinition current next change.operation
      if current.phase ≠ .active ∨ next.phase ≠ .paused then
        throw "goal pause has an invalid phase transition"
    | .resume =>
      requireSameDefinition current next change.operation
      if current.phase = .complete ∨ next.phase ≠ .active ∨
          next.maxGoalRounds ≤ state.roundsStarted then
        throw "goal resume has an invalid phase transition or exhausted round budget"
    | .complete =>
      requireSameDefinition current next change.operation
      if current.phase = .complete ∨ next.phase ≠ .complete then
        throw "goal complete has an invalid phase transition"
    | .block =>
      requireSameDefinition current next change.operation
      if current.phase ≠ .active ∨ next.phase ≠ .blocked then
        throw "goal block has an invalid phase transition"
    | .create => throw "goal create cannot be validated as a current-goal transition"

def goalChangeRef : GoalChange → GoalRef
  | .clear cleared _ => cleared
  | .snapshot change => ⟨change.goal.id, change.goal.revision⟩

def GoalFoldState.withSnapshot (state : GoalFoldState) (change : GoalSnapshotChange) :
    GoalFoldState :=
  { state with
    goal := some change.goal
    roundsStarted := change.roundsStarted
    createdAt := some change.createdAt
    updatedAt := some change.updatedAt
    lastRef := some (goalChangeRef (.snapshot change)) }

def applyGoalChange (state : GoalFoldState) : GoalChange → Except String GoalFoldState
  | .clear cleared clearedAt =>
    match state.goal with
    | none => .error "goal clear requires a current goal"
    | some current => do
      requireNextRevision current cleared "clear"
      match state.updatedAt with
      | none => throw "current goal fold lacks updatedAt"
      | some updatedAt =>
        if clearedAt < updatedAt then
          throw "goal clear timestamp cannot precede the current goal update"
        return ⟨none, 0, none, none, some cleared, state.seenGoalIds⟩
  | .snapshot change =>
    if change.operation = .create then
      if change.goal.revision ≠ 1 ∨ change.goal.phase ≠ .active ∨ change.roundsStarted ≠ 0 ∨
          (∃ current ∈ state.goal, current.phase ≠ .complete) ∨
          change.goal.id ∈ state.seenGoalIds then
        .error "goal create requires a fresh active revision-one goal with zero rounds"
      else
        .ok ({ state with seenGoalIds := state.seenGoalIds ++ [change.goal.id] }.withSnapshot change)
    else
      match state.goal with
      | none => .error s!"goal {change.operation.text} requires a current goal"
      | some current => do
        validateSnapshotTransition state change current
        return state.withSnapshot change

def applyGoalEvent (state : GoalFoldState) (event : GoalEvent) : Except String GoalFoldState :=
  match event.body with
  | .goalChange data => do
    let change ← decodeGoalChange data
    applyGoalChange state change
  | .userMessage none => .ok state
  | .userMessage (some source) => do
    let source ← goalSource source
    match state.goal with
    | none =>
      throw s!"goal round at session event {event.seq} is not the next admitted round of the active goal"
    | some current =>
      if current.phase ≠ .active ∨ source.goalId ≠ current.id ∨
          source.revision ≠ current.revision ∨ source.round ≠ state.roundsStarted + 1 ∨
          current.maxGoalRounds < source.round then
        throw s!"goal round at session event {event.seq} is not the next admitted round of the active goal"
      else return { state with roundsStarted := source.round }
  | .other => .ok state

/-- `FoldedGoal` -/
structure FoldedGoal where
  goal : Option GoalSnapshot
  roundsStarted : Nat
  createdAt : Option Nat
  updatedAt : Option Nat
  lastRef : Option GoalRef

def foldGoal (events : List GoalEvent) : Except String FoldedGoal := do
  let state ← events.foldlM applyGoalEvent emptyGoalFoldState
  return ⟨state.goal, state.roundsStarted, state.createdAt, state.updatedAt, state.lastRef⟩

end DshKernel.Goal
