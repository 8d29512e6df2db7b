import DshKernel.Goal.GoalProjection

/-!
# The goal service and the admission of rounds

The service checks a request against the projection and appends one change. The round driver
reserves a round of an armed goal and checks it when its message is claimed; the agent loop appends
the message later.
-/

namespace DshKernel.Goal

open Js

inductive GoalErrorCode where
  | notFound
  | alreadyExists
  | staleRevision
  | invalidObjective
  | invalidMaxRounds
  | invalidBlockReason
  | invalidEdit
  | invalidTransition
  deriving DecidableEq

inductive ServiceError where
  | goal (message : String) (code : GoalErrorCode)
  /-- The failure that the projection has kept. -/
  | replay (failure : String)

inductive GoalActivation where
  | armed
  | disarmed
  deriving DecidableEq

structure CreateGoalRequest where
  objective : String
  maxGoalRounds : Option Number

structure EditGoalRequest where
  objective : Option String
  maxGoalRounds : Option Number

/-- `Date.now()`, up to the last time of a `Date`. -/
structure Clock where
  now : Nat
  valid : now ≤ 8640000000000000

def resolveMaxGoalRounds (value : Number) : Except ServiceError Nat :=
  if !value.isSafeInteger ∨ value.toInt < 1 then
    .error (.goal "maxGoalRounds must be a positive safe integer" .invalidMaxRounds)
  else .ok value.toInt.toNat

def resolveObjective (value : String) : Except ServiceError String :=
  if trimText value = "" then
    .error (.goal "goal objective must be a non-empty string" .invalidObjective)
  else .ok (trimText value)

def resolveBlockReason (reason : GoalBlockReason) : Except ServiceError GoalBlockReason :=
  if !isLowerKebab reason.code ∨ trimText reason.message = "" then
    .error (.goal "goal block reason requires a lower-kebab-case code and a non-empty message"
      .invalidBlockReason)
  else .ok { reason with message := trimText reason.message }

/-! ## The requests -/

def currentState (state : GoalProjectionState) : Except ServiceError (Option GoalProjection) :=
  match state.failure with
  | some failure => .error (.replay failure)
  | none => .ok state.current

def expectCurrent (state : Option GoalProjection) (ref : GoalRef) :
    Except ServiceError GoalProjection :=
  match state with
  | none => .error (.goal "no current goal" .notFound)
  | some state =>
    if ref.id ≠ state.goal.id ∨ ref.revision ≠ state.goal.revision then
      .error (.goal (s!"stale goal ref \"{ref.id}\" revision {ref.revision}; "
        ++ s!"current is \"{state.goal.id}\" revision {state.goal.revision}") .staleRevision)
    else .ok state

def withPhase (current : GoalSnapshot) (phase : GoalPhase) : GoalSnapshot where
  id := current.id
  revision := current.revision + 1
  objective := current.objective
  phase := phase
  blockedReason := none
  maxGoalRounds := current.maxGoalRounds

def nextMutationTime (clock : Clock) (state : GoalProjection) : Nat := max clock.now state.updatedAt

def transitionError (current : GoalSnapshot) (operation : SnapshotOperation)
    (allowed : List GoalPhase) : ServiceError :=
  let expected := String.intercalate " or " (allowed.map GoalPhase.text)
  .goal s!"cannot {operation.text} goal \"{current.id}\" from phase \"{current.phase.text}\"; expected {expected}"
    .invalidTransition

structure Commit where
  change : GoalChange
  activation : GoalActivation

def commitCurrent (clock : Clock) (state : GoalProjection) (operation : SnapshotOperation)
    (goal : GoalSnapshot) (activation : GoalActivation) : Commit where
  change := .snapshot
    ⟨operation, goal, state.roundsStarted, state.createdAt, nextMutationTime clock state⟩
  activation := activation

section
variable (state : GoalProjectionState) (activation : GoalActivation) (clock : Clock) (ref : GoalRef)

def create (defaultMaxGoalRounds : Nat) (uuid : String) (request : CreateGoalRequest) :
    Except ServiceError Commit := do
  let objective ← resolveObjective request.objective
  let maxGoalRounds ←
    resolveMaxGoalRounds (request.maxGoalRounds.getD (Number.ofNat defaultMaxGoalRounds))
  let current ← currentState state
  let goal : GoalSnapshot := ⟨"goal-" ++ uuid, 1, objective, .active, none, maxGoalRounds⟩
  let committed : Commit := ⟨.snapshot ⟨.create, goal, 0, clock.now, clock.now⟩, .armed⟩
  match current with
  | none => return committed
  | some current =>
    if current.goal.phase ≠ .complete then
      throw (.goal (s!"goal \"{current.goal.id}\" already exists with phase "
        ++ s!"\"{current.goal.phase.text}\"") .alreadyExists)
    return committed

def edit (request : EditGoalRequest) : Except ServiceError Commit := do
  let state ← expectCurrent (← currentState state) ref
  let current := state.goal
  if request.objective = none ∧ request.maxGoalRounds = none then
    throw (.goal "goal edit requires objective and/or maxGoalRounds" .invalidEdit)
  let objective ← request.objective.elim (.ok current.objective) resolveObjective
  let maxGoalRounds ← request.maxGoalRounds.elim (.ok current.maxGoalRounds) resolveMaxGoalRounds
  return commitCurrent clock state .edit
    { current with
      revision := current.revision + 1
      objective := objective
      maxGoalRounds := maxGoalRounds }
    activation

def transition (operation : SnapshotOperation) (allowed : List GoalPhase) (phase : GoalPhase)
    (activation : GoalActivation) : Except ServiceError Commit := do
  let state ← expectCurrent (← currentState state) ref
  if state.goal.phase ∉ allowed then
    throw (transitionError state.goal operation allowed)
  return commitCurrent clock state operation (withPhase state.goal phase) activation

def pause : Except ServiceError Commit :=
  transition state clock ref .pause [.active] .paused .disarmed

def complete : Except ServiceError Commit :=
  transition state clock ref .complete [.active, .paused, .blocked] .complete .disarmed

def resume : Except ServiceError Commit := do
  let state ← expectCurrent (← currentState state) ref
  let current := state.goal
  if current.phase ∉ [GoalPhase.active, .paused, .blocked] then
    throw (transitionError current .resume [.active, .paused, .blocked])
  if current.phase = .active ∧ activation = .armed then
    throw (.goal s!"goal \"{current.id}\" is already active and armed" .invalidTransition)
  if current.maxGoalRounds ≤ state.roundsStarted then
    throw (.goal (s!"goal \"{current.id}\" exhausted {current.maxGoalRounds} goal rounds; "
      ++ "increase maxGoalRounds before resuming") .invalidTransition)
  return commitCurrent clock state .resume (withPhase current .active) .armed

def block (reason : GoalBlockReason) : Except ServiceError Commit := do
  let state ← expectCurrent (← currentState state) ref
  let current := state.goal
  if current.phase ≠ .active then
    throw (transitionError current .block [.active])
  let reason ← resolveBlockReason reason
  return commitCurrent clock state .block
    { withPhase current .blocked with blockedReason := some reason } .disarmed

def clear : Except ServiceError Commit := do
  let state ← expectCurrent (← currentState state) ref
  return ⟨.clear ⟨state.goal.id, state.goal.revision + 1⟩ (nextMutationTime clock state), .disarmed⟩

end

/-! ## The machine -/

inductive AttemptPhase where
  | queued
  | claimed
  | admitted
  deriving DecidableEq

structure RoundAttempt where
  goalId : String
  revision : Nat
  round : Nat
  phase : AttemptPhase
  stale : Bool

def RoundAttempt.source (attempt : RoundAttempt) : GoalMessageSource :=
  ⟨attempt.goalId, attempt.revision, attempt.round⟩

structure World where
  length : Nat
  state : GoalProjectionState
  activation : GoalActivation
  attempt : Option RoundAttempt
  /-- The round whose message has passed the check and is not in the log yet. -/
  entered : Option GoalMessageSource

def World.start : World := ⟨0, .init, .disarmed, none, none⟩

def maxLogLength : Nat := 2 ^ 32 - 1

/-- `session.append`, and the projection driven over the event. -/
def World.append (world : World) (body : GoalEventBody) : Option (World × List GoalEvent) :=
  if world.length < maxLogLength then
    some ({ world with
      length := world.length + 1
      state := applyGoalProjection world.state ⟨world.length, body⟩ }, [⟨world.length, body⟩])
  else none

/-- `commit` of what a request asks for; nothing is written for one that is refused. -/
def World.commit (world : World) : Except ServiceError Commit → Option (World × List GoalEvent)
  | .error _ => none
  | .ok committed =>
    { world with activation := committed.activation }.append (.goalChange committed.change)

/-- `validReservation` -/
def World.validReservation (world : World) (attempt : RoundAttempt) : Bool :=
  attempt.phase = .claimed && !attempt.stale && world.state.failure.isNone &&
    world.activation = .armed &&
    world.state.current.any fun current =>
      current.goal.id = attempt.goalId && current.goal.revision = attempt.revision &&
        current.goal.phase = .active && attempt.round = current.roundsStarted + 1

/-- What `drive` does with an armed active goal. -/
def World.drive (world : World) (clock : Clock) (current : GoalProjection) :
    Option (World × List GoalEvent) :=
  if current.goal.maxGoalRounds ≤ current.roundsStarted then
    world.commit (block world.state clock ⟨current.goal.id, current.goal.revision⟩
      ⟨"round-limit",
        s!"Goal reached its configured limit of {current.goal.maxGoalRounds} rounds."⟩)
  else
    some ({ world with
      attempt := some
        ⟨current.goal.id, current.goal.revision, current.roundsStarted + 1, .queued, false⟩ }, [])

inductive Action where
  | create (uuid : String) (request : CreateGoalRequest) (clock : Clock)
  | edit (ref : GoalRef) (request : EditGoalRequest) (clock : Clock)
  | pause (ref : GoalRef) (clock : Clock)
  | resume (ref : GoalRef) (clock : Clock)
  | complete (ref : GoalRef) (clock : Clock)
  | block (ref : GoalRef) (reason : GoalBlockReason) (clock : Clock)
  | clear (ref : GoalRef) (clock : Clock)
  | disarm
  | drive (clock : Clock)
  /-- The message of the reservation is claimed. -/
  | claim
  /-- A competing message makes the reservation stale. -/
  | compete
  /-- The reservation is given up. -/
  | release
  /-- The claimed message passes the check before its step. -/
  | enter
  /-- The step is not made. -/
  | abandon
  /-- The message of the round is appended. -/
  | admission
  /-- Any other event. -/
  | append (plain : Bool)
  /-- The process starts again over the same log. -/
  | restart

/-- One step; a step that is not enabled, or a request that is refused, is none. An id from
`randomUUID` is a new one. -/
def step (defaultMaxGoalRounds : Nat) (world : World) : Action → Option (World × List GoalEvent)
  | .create uuid request clock =>
    if "goal-" ++ uuid ∈ world.state.seenGoalIds then none
    else world.commit (create world.state clock defaultMaxGoalRounds uuid request)
  | .edit ref request clock => world.commit (edit world.state world.activation clock ref request)
  | .pause ref clock => world.commit (pause world.state clock ref)
  | .resume ref clock => world.commit (resume world.state world.activation clock ref)
  | .complete ref clock => world.commit (complete world.state clock ref)
  | .block ref reason clock => world.commit (block world.state clock ref reason)
  | .clear ref clock => world.commit (clear world.state clock ref)
  | .disarm => some ({ world with activation := .disarmed }, [])
  | .drive clock =>
    match world.attempt, world.state.failure, world.state.current with
    | none, none, some current =>
      if current.goal.phase = .active ∧ world.activation = .armed then world.drive clock current
      else none
    | _, _, _ => none
  | .claim =>
    world.attempt.map fun attempt =>
      ({ world with attempt := some { attempt with phase := .claimed } }, [])
  | .compete =>
    world.attempt.map fun attempt =>
      ({ world with attempt := some { attempt with stale := true } }, [])
  | .release => some ({ world with attempt := none }, [])
  | .enter =>
    match world.attempt, world.entered with
    | some attempt, none =>
      if world.validReservation attempt then
        some ({ world with entered := some attempt.source }, [])
      else none
    | _, _ => none
  | .abandon => some ({ world with entered := none }, [])
  | .admission =>
    match world.entered with
    | none => none
    | some source =>
      ({ world with
        entered := none
        attempt := world.attempt.map fun attempt => { attempt with phase := .admitted } } : World).append
        (.userMessage (some source))
  | .append plain => world.append (if plain then .other else .userMessage none)
  | .restart =>
    some ({ world with activation := .disarmed, attempt := none, entered := none }, [])

end DshKernel.Goal
