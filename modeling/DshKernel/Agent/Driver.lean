import DshKernel.Agent.World

/-!
# The driver of an agent

`ReactLoopAgent`: what wakes, cancels and feeds the driver, its turns and its steps. Each loop of
the source is a program of its own that goes on as itself or as the code behind the loop, with the
`catch` and `finally` blocks of its exits.
-/

namespace DshKernel.Agent

open Js Lib Session Llm Program

/-- The variables of `turn`. -/
structure TurnVars where
  turn : Nat
  turnEnds : Option StepEndReason := none
  target : InboxTarget := .nextTurn

/-- The variables of `step`. -/
structure StepVars extends TurnVars where
  step : Nat
  system : String
  promptTools : List Json

/-- `requestSurfaceGeneration`, the messages and the route of a request that was built. -/
structure Request where
  header : EpochHeader
  messages : List Message

inductive AgentCall where
  | send (message : UserMessage) (target : InboxTarget) (wakeup : Bool)
  | cancel (cause : CancelCause) (keepInbox : Bool)
  | splice (target : InboxTarget) (start deleteCount : Nat) (inserted : List UserMessage)
  | runMaintenance
  | publish (data : EventData) (sourceEventSeqs surfaceOp : Option Json)
  | settle (index : Nat) (outcome : Except Failure Slot)
  | kick
  | steps (vars : TurnVars)
  | request (vars : StepVars) (startsRequestSeries : Bool)
  | stream (vars : StepVars) (request : Request) (assembler : BlockAssembler) (chunkSeqs : List Nat)
  | tools (vars : StepVars)
  | fillPool (vars : StepVars)
  | drainPool (vars : StepVars)

abbrev AgentBlock := AgentProgram (Option AgentCall)

/-- `setPhase`: the phase with what happens in the same moment, and the status notification. -/
def setPhase (next : Phase) (happenings : List Happening) (site : AgentSite) : AgentProgram Unit := do
  let w ← get
  modify fun w => { w with phase := next, history := w.history ++ happenings }
  if next.isRunning ≠ w.phase.isRunning then call site else pure ()

def sentHappenings (w : AgentWorld) (latched : Bool) : Option UserMessage → List Happening
  | none => []
  | some message => if message.id ∈ w.inbox.ids then [.sent message.id latched] else []

/-- `wakeDriver`. A wake that a message sends is noted with it. -/
def wakeDriver (message : Option UserMessage) (wakeAfterAbort : Bool) : AgentProgram Unit := do
  let w ← get
  match w.phase with
  | .idle lastTurn =>
    setPhase (.running none lastTurn 0 false) (.woken :: sentHappenings w false message)
      (.notification .driver)
    call .kick
  | phase =>
    if phase.reason ≠ some .disposed ∧ (phase.isMaintenance ∨ wakeAfterAbort) then
      modify fun w =>
        { w with
          phase := w.phase.setWake true, history := w.history ++ sentHappenings w true message }
    else modify fun w => { w with history := w.history ++ sentHappenings w false message }

def send (out : Outside) (message : UserMessage) (target : InboxTarget) (wakeup : Bool) :
    AgentProgram Unit := do
  let w ← get
  -- captured before the insertion, so that a cancel by one of its observers cannot reclassify it
  let wakingAfterAbort := wakeup && w.phase.reason.isSome
  let resolvedTarget := if wakingAfterAbort then .nextTurn else target
  let _ ← mutate out .others resolvedTarget (w.inbox.get resolvedTarget).length 0 [message] true
  if wakeup then wakeDriver (some message) wakingAfterAbort else pure ()

/-- `abort.abort(cause)`: the first cause is kept, and its observers run. -/
def abort (cause : CancelCause) : AgentProgram Unit := do
  let w ← get
  if !w.phase.isIdle && w.phase.reason.isNone then
    modify fun w =>
      { w with phase := w.phase.setReason cause, history := w.history ++ [.aborted cause] }
    call (.notification .others)
  else pure ()

def cancel (out : Outside) (cause : CancelCause) (keepInbox : Bool) : AgentProgram Unit := do
  if keepInbox then abort cause
  else
    clear out
    modify fun w => { w with phase := w.phase.setWake false, history := w.history ++ [.cleared] }
    abort cause

def becomeIdle (lastTurn : Nat) (wakeRequested : Bool) : AgentProgram Unit := do
  setPhase (.idle lastTurn) [.settled] (.settling wakeRequested)
  let w ← get
  if wakeRequested && w.inbox.hasPending then wakeDriver none false else pure ()

def busyText : String := "agent already has active work"

/-- `runMaintenance`, with the job that others run. -/
def runMaintenance : AgentProgram Unit := do
  let w ← get
  match w.phase with
  | .idle lastTurn =>
    setPhase (.maintenance none lastTurn false) [] (.notification .others)
    call .job
    call .maintenance
    let w ← get
    becomeIdle lastTurn w.phase.wakeRequested
  | _ => throw (.other busyText)

/-- `throwError`: the failure is reported, and thrown on. -/
def reportError {α : Type} (failure : Failure) : AgentProgram α := do
  call (.notification .driver)
  throw failure

def reporting {α : Type} (program : AgentProgram α) : AgentProgram α := do
  match ← program.attempt with
  | .ok value => pure value
  | .error failure => reportError failure

/-- `kick` behind `await this.turn()`. -/
def turnReturns (exit : TurnExit) : AgentBlock := do
  call (.awaiting .turn)
  match exit with
  | .again => pure (some .kick)
  | _ =>
    let w ← get
    match w.phase with
    | .running _ turn _ wakeRequested =>
      becomeIdle turn wakeRequested
      pure none
    | _ => pure none

/-- The opening of `turn`. -/
def openTurn (out : Outside) : AgentProgram Nat := do
  let w ← get
  match w.phase with
  | .running _ lastTurn _ _ =>
    throwIfAborted
    let turn := lastTurn + 1
    let _ ← reporting (append out .driver (.turnStart (.ofNat turn)) none none)
    modify fun w =>
      { w with phase := w.phase.setTurn turn, history := w.history ++ [.turnOpened turn] }
    pure turn
  | _ => reportError (.other "turn without driver reservation")

def kick (out : Outside) : AgentBlock := do
  match ← (openTurn out).attempt with
  | .error _ =>
    record (.turnExit .threw)
    turnReturns .threw
  | .ok turn => pure (some (.steps { turn }))

structure TurnEnding where
  reason : TurnEndReason
  stopped : Bool

/-- The `catch` block of `turn`. -/
def turnEndReason (w : AgentWorld) : Except Failure TurnEnding → TurnEndReason
  | .ok ending => ending.reason
  | .error failure =>
    match w.phase.reason with
    | some cause => .aborted cause.toJson
    | none => .error failure.toJson

def reportTurn (w : AgentWorld) : Except Failure TurnEnding → AgentProgram Unit
  | .ok _ => pure ()
  | .error _ => if w.phase.reason.isSome then pure () else call (.notification .driver)

/-- What follows the `finally` block of `turn`. -/
def closeTurn : Except Failure TurnEnding → AgentBlock
  | .error _ => do
    record (.turnExit .threw)
    turnReturns .threw
  | .ok ending =>
    if ending.stopped then do
      let w ← get
      if w.inbox.hasPending then do
        modify fun w =>
          { w with phase := w.phase.renew, history := w.history ++ [.turnExit .again] }
        turnReturns .again
      else do
        record (.turnExit .stopped)
        turnReturns .stopped
    else do
      record (.turnExit .parked)
      turnReturns .parked

/-- The `catch` and `finally` blocks of `turn`, and what follows them. -/
def leaveTurn (out : Outside) (vars : TurnVars) (outcome : Except Failure TurnEnding) : AgentBlock := do
  let w ← get
  let reason := turnEndReason w outcome
  reportTurn w outcome
  match ← (reporting (append out .driver (.turnEnd (.ofNat vars.turn) reason) none none)).attempt with
  | .error _ =>
    record (.turnExit .threw)
    turnReturns .threw
  | .ok _ =>
    record (.turnClosed reason)
    closeTurn outcome

/-- `preStep`: nothing when the step is rejected. -/
def preStep (out : Outside) (target : InboxTarget) :
    AgentProgram (Option (List UserMessage × Bool × PromptAssembly)) := do
  let w ← get
  if !w.phase.isRunning then throw (.other "pre-step outside running phase")
  else
    let claimed ← claim out target
    let question ← ask
    let assembly ← awaiting (fromExcept (out.assemble question))
    throwIfAborted
    let question ← ask
    let proposal := claimed ++ (out.project question).toList
    let decision ← awaiting (fromExcept (out.preStep question proposal))
    throwIfAborted
    match decision with
    | .reject => pure none
    | .enter messages startsRequestSeries => pure (some (messages, startsRequestSeries, assembly))

/-- Where one round of the loop of `turn` gets without a failure. -/
inductive StepEntry where
  | ends (ending : TurnEnding)
  | entered (step : Nat) (messages : List UserMessage) (startsRequestSeries : Bool)
      (assembly : PromptAssembly)

/-- One round of the loop of `turn`, up to the opening of a step. -/
def enterStep (out : Outside) (vars : TurnVars) : AgentProgram StepEntry := do
  throwIfAborted
  let w ← get
  let step := w.phase.step + 1
  let decision ← awaiting (preStep out vars.target)
  match decision with
  | none =>
    record (.proposed none)
    pure (.ends ⟨.blocked, false⟩)
  | some (messages, startsRequestSeries, assembly) =>
    record (.proposed (some messages.length))
    match messages, vars.turnEnds with
    | [], some reason => pure (.ends ⟨reason.toTurnEnd, true⟩)
    | _, _ =>
      let w ← get
      if w.phase.step = 0 ∧ messages.isEmpty then pure (.ends ⟨.completed, false⟩)
      else
        throwIfAborted
        let _ ← append out .driver (.stepStart (.ofNat vars.turn) (.ofNat step)) none none
        modify fun w => { w with phase := w.phase.setStep step }
        pure (.entered step messages startsRequestSeries assembly)

def appendOp : Json := .str "append"

def appendMessages (out : Outside) : List UserMessage → AgentProgram Unit
  | [] => pure ()
  | message :: rest => do
    let _ ← append out .driver (.userMessage message) none (some appendOp)
    appendMessages out rest

/-- The stop checks behind a step: whether the loop of `turn` is left. -/
def stopChecks (out : Outside) (turnEnds : Option StepEndReason) : AgentProgram Bool := do
  throwIfAborted
  let w ← get
  if turnEnds.isSome && w.inbox.nextStep.isEmpty then
    let question ← ask
    awaiting (fromExcept (out.turnStopping question))
    throwIfAborted
  else pure ()
  let w ← get
  record (.stopCheck !w.inbox.nextStep.isEmpty)
  pure (turnEnds.isSome && w.inbox.nextStep.isEmpty)

def nextTurnEnds (turnEnds stepEnd : Option StepEndReason) : Option StepEndReason :=
  if turnEnds = some .maxTokens then turnEnds else stepEnd

/-- The `finally` block around `step`, and what follows it. -/
def leaveStep (out : Outside) (vars : TurnVars) (step : Nat)
    (outcome : Except Failure (Option StepEndReason)) : AgentBlock := do
  let ended ← (append out .driver (.stepEnd (.ofNat vars.turn) (.ofNat step)) none none).attempt
  match ended, outcome with
  | .error failure, _ => leaveTurn out vars (.error failure)
  | .ok _, .error failure => leaveTurn out vars (.error failure)
  | .ok _, .ok stepEnd =>
    let turnEnds := nextTurnEnds vars.turnEnds stepEnd
    match ← (stopChecks out turnEnds).attempt with
    | .error failure => leaveTurn out vars (.error failure)
    | .ok stops =>
      match stops, turnEnds with
      | true, some reason => leaveTurn out vars (.ok ⟨reason.toTurnEnd, true⟩)
      | _, _ => pure (some (.steps { vars with turnEnds, target := .nextStep }))

def StepOutcome.toStepEnd : StepOutcome → Option StepEndReason
  | .noCalls => some .completed
  | .maxTokens => some .maxTokens
  | .concluded => some .completed
  | .unread => none

/-- `await this.step(...)` with what the step came to. -/
def stepReturns (out : Outside) (vars : StepVars) (outcome : StepOutcome) : AgentBlock := do
  record (.stepDone outcome)
  call (.awaiting .promise)
  leaveStep out vars.toTurnVars vars.step (.ok outcome.toStepEnd)

def stepThrows (out : Outside) (vars : TurnVars) (step : Nat) (failure : Failure) : AgentBlock := do
  call (.awaiting .promise)
  leaveStep out vars step (.error failure)

/-- The messages of a step that was opened, and the start of `step`. -/
def beginStep (out : Outside) (assembly : PromptAssembly) : AgentProgram String := do
  let w ← get
  if !w.phase.isRunning then throw (.other "step outside running phase")
  else
    throwIfAborted
    let question ← ask
    fromExcept (out.renderPrompt question assembly)

def steps (out : Outside) (vars : TurnVars) : AgentBlock := do
  match ← (enterStep out vars).attempt with
  | .error failure => leaveTurn out vars (.error failure)
  | .ok (.ends ending) => leaveTurn out vars (.ok ending)
  | .ok (.entered step messages startsRequestSeries assembly) =>
    match ← (appendMessages out messages).attempt with
    | .error failure => leaveStep out vars step (.error failure)
    | .ok () =>
      match ← (beginStep out assembly).attempt with
      | .error failure => stepThrows out vars step failure
      | .ok system =>
        pure (some (.request { vars with step, system, promptTools := assembly.tools } startsRequestSeries))

end DshKernel.Agent
