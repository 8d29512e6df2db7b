import DshKernel.Lib.EventLoop
import DshKernel.Llm.Assembler
import DshKernel.Session.Derivations

/-!
# The state of an agent

What an agent of the loop and its parts share: the session log, the inbox, the phase of the
driver, and the tool calls in progress. What code outside the agent answers is a parameter.
-/

namespace DshKernel.Agent

open Js Lib Session Llm

/-- `AgentCancelCause` -/
inductive CancelCause where
  | user
  | parent
  | hook (reason : String)
  | disposed
  deriving DecidableEq, Repr

def CancelCause.toJson : CancelCause → Json
  | .user => .obj [("kind", .str "user")]
  | .parent => .obj [("kind", .str "parent")]
  | .hook reason => .obj [("kind", .str "hook"), ("reason", .str reason)]
  | .disposed => .obj [("kind", .str "disposed")]

/-- What is thrown: the reason of an aborted signal, an `LlmError` with its facts, or any other
error with its rendered chain. -/
inductive Failure where
  | aborted (cause : CancelCause)
  | llm (failure : Json)
  | other (message : String)

def Failure.toJson : Failure → Json
  | .aborted _ => .obj [("message", .str "[object Object]"), ("code", .str "UNKNOWN")]
  | .llm failure => failure
  | .other message => .obj [("message", .str message), ("code", .str "UNKNOWN")]

inductive InboxTarget where
  | nextTurn
  | nextStep
  deriving DecidableEq, Repr

def InboxTarget.toString : InboxTarget → String
  | .nextTurn => "next-turn"
  | .nextStep => "next-step"

structure Inbox where
  nextTurn : List UserMessage := []
  nextStep : List UserMessage := []

namespace Inbox

def get (inbox : Inbox) : InboxTarget → List UserMessage
  | .nextTurn => inbox.nextTurn
  | .nextStep => inbox.nextStep

def set (inbox : Inbox) (messages : List UserMessage) : InboxTarget → Inbox
  | .nextTurn => { inbox with nextTurn := messages }
  | .nextStep => { inbox with nextStep := messages }

def hasPending (inbox : Inbox) : Bool := !inbox.nextTurn.isEmpty || !inbox.nextStep.isEmpty

def ids (inbox : Inbox) : List String :=
  inbox.nextTurn.map UserMessage.id ++ inbox.nextStep.map UserMessage.id

end Inbox

/-- `Phase`. An abort controller is the reason of its signal, if it was aborted. -/
inductive Phase where
  | idle (lastTurn : Nat)
  | maintenance (abort : Option CancelCause) (lastTurn : Nat) (wakeRequested : Bool)
  | running (abort : Option CancelCause) (turn step : Nat) (wakeRequested : Bool)

namespace Phase

def isIdle : Phase → Bool
  | .idle _ => true
  | .maintenance _ _ _ => false
  | .running _ _ _ _ => false

def isRunning : Phase → Bool
  | .idle _ => false
  | .maintenance _ _ _ => false
  | .running _ _ _ _ => true

def isMaintenance : Phase → Bool
  | .idle _ => false
  | .maintenance _ _ _ => true
  | .running _ _ _ _ => false

/-- `phase.abort.signal.reason` -/
def reason : Phase → Option CancelCause
  | .idle _ => none
  | .maintenance abort _ _ => abort
  | .running abort _ _ _ => abort

def wakeRequested : Phase → Bool
  | .idle _ => false
  | .maintenance _ _ wakeRequested => wakeRequested
  | .running _ _ _ wakeRequested => wakeRequested

def turn : Phase → Nat
  | .idle lastTurn => lastTurn
  | .maintenance _ lastTurn _ => lastTurn
  | .running _ turn _ _ => turn

def step : Phase → Nat
  | .idle _ => 0
  | .maintenance _ _ _ => 0
  | .running _ _ step _ => step

def setReason (cause : CancelCause) : Phase → Phase
  | .idle lastTurn => .idle lastTurn
  | .maintenance _ lastTurn wakeRequested => .maintenance (some cause) lastTurn wakeRequested
  | .running _ turn step wakeRequested => .running (some cause) turn step wakeRequested

def setWake (wakeRequested : Bool) : Phase → Phase
  | .idle lastTurn => .idle lastTurn
  | .maintenance abort lastTurn _ => .maintenance abort lastTurn wakeRequested
  | .running abort turn step _ => .running abort turn step wakeRequested

def setTurn (turn : Nat) : Phase → Phase
  | .idle lastTurn => .idle lastTurn
  | .maintenance abort lastTurn wakeRequested => .maintenance abort lastTurn wakeRequested
  | .running abort _ step wakeRequested => .running abort turn step wakeRequested

def setStep (step : Nat) : Phase → Phase
  | .idle lastTurn => .idle lastTurn
  | .maintenance abort lastTurn wakeRequested => .maintenance abort lastTurn wakeRequested
  | .running abort turn _ wakeRequested => .running abort turn step wakeRequested

def renew : Phase → Phase
  | .idle lastTurn => .idle lastTurn
  | .maintenance abort lastTurn wakeRequested => .maintenance abort lastTurn wakeRequested
  | .running _ turn _ _ => .running none turn 0 false

end Phase

/-- `ToolExecutionMode['kind']` -/
inductive ExecutionMode where
  | parallel
  | exclusive
  deriving DecidableEq, Repr

structure ToolExecutionResult where
  content : List ContentBlock
  isError : Bool
  errorInfo : Option ToolResultError := none
  «meta» : Option Json := none
  additionalContexts : List UserMessage := []
  concludesTurn : Bool := false

structure Slot where
  result : ToolExecutionResult
  needsPost : Bool

/-- What `prepare` answers. -/
inductive Prepared where
  | dispatch
  | postResult (result : ToolExecutionResult)
  | finalResult (result : ToolExecutionResult)

/-- The variables of `runGroup`. A dispatch that settled is still in flight until it was raced
for. -/
structure Group where
  calls : List ToolCallBlock := []
  mode : ExecutionMode := .exclusive
  maxParallelToolCalls : Nat := 1
  slots : List (Option Slot) := []
  callSeqs : List (Option Nat) := []
  nextToStart : Nat := 0
  committed : Nat := 0
  started : Nat := 0
  aborted : Bool := false
  concluded : Bool := false
  schedulerFailure : Option Failure := none
  inFlight : List Nat := []
  settled : List Nat := []

structure Commit where
  slot : Option Slot
  result : ToolExecutionResult

/-- How `executeToolCalls` was left. -/
inductive ToolsExit where
  | returned (concluded : Bool)
  | failed
  deriving DecidableEq, Repr

/-- The variables of `executeToolCalls` and of its current group, what was answered, committed,
accepted and dispatched, in order, and where the log stood. -/
structure ToolRun where
  start : Nat := 0
  planned : List ToolCallBlock := []
  next : Nat := 0
  concluded : Bool := false
  group : Group := {}
  answers : List (Nat × Slot) := []
  commits : List Commit := []
  contexts : List UserMessage := []
  dispatched : List Nat := []
  exit : Option ToolsExit := none

/-- `StepEndReason` -/
inductive StepEndReason where
  | completed
  | maxTokens
  deriving DecidableEq, Repr

def StepEndReason.toTurnEnd : StepEndReason → TurnEndReason
  | .completed => .completed
  | .maxTokens => .maxTokens

inductive StepOutcome where
  | noCalls
  | maxTokens
  | concluded
  | unread
  deriving DecidableEq, Repr

inductive TurnExit where
  | again
  | stopped
  | parked
  | threw
  deriving DecidableEq, Repr

inductive Happening where
  | sent (id : String) (latched : Bool)
  | woken
  | withdrawn (ids : List String)
  | cleared
  | aborted (cause : CancelCause)
  | settled
  | turnExit (exit : TurnExit)
  | turnOpened (turn : Nat)
  | proposed (enters : Option Nat)
  | requested (messages : List Message)
  | dispatched (position : Nat) (mode : ExecutionMode)
  | bodySettled (position : Nat)
  | stepDone (outcome : StepOutcome)
  | stopCheck (waiting : Bool)
  | turnClosed (reason : TurnEndReason)

structure AgentWorld where
  log : List SessionEvent := []
  appending : Bool := false
  inbox : Inbox := {}
  phase : Phase := .idle 0
  requestHeaderLogged : Bool := false
  requestSurfaceGeneration : Option Nat := none
  tools : ToolRun := {}
  clock : Nat := 0
  history : List Happening := []

inductive Caller where
  | driver
  | others
  deriving DecidableEq

/-- What the driver awaits: a promise that other code settles or that is settled already, the
promise of a turn, one dispatch of a group, or all of them. -/
inductive Awaited where
  | promise
  | turn
  | anyDispatch
  | allDispatches

inductive AgentSite where
  | publication (caller : Caller)
  | notification (caller : Caller)
  | kick
  | settling (wakeRequested : Bool)
  | job
  | maintenance
  | awaiting (awaited : Awaited)

abbrev AgentProgram := Program Failure AgentSite AgentWorld

/-- `PromptAssembly`, as far as the loop reads it. -/
structure PromptAssembly where
  tools : List Json := []

/-- `PreStepDecision` -/
inductive PreStepDecision where
  | reject
  | enter (messages : List UserMessage) (startsRequestSeries : Bool)

structure PreparedLlmCall where
  config : LlmCallConfig
  adapterDefaults : LlmCallConfigAdapterDefaults
  contextWindow : Option Number

/-- `AgentOptions` -/
structure AgentOptions where
  provider : Option String := none
  model : Option String := none
  reasoningEffort : Option String := none
  maxTokens : Option Number := none

/-- What code outside of the agent answers, each time it is asked. An append is refused by what
`Session.append` checks, or by a veto of its dispatch. -/
structure Outside where
  options : AgentOptions
  stringify : Json → String
  chunkJson : StreamChunk → Json
  now : Nat → Number
  check : Nat → List SessionEvent → SessionEvent → Except String Unit
  veto : Nat → SessionEvent → Option String
  messageId : Nat → String
  assemble : Nat → Except Failure PromptAssembly
  project : Nat → Option UserMessage
  preStep : Nat → List UserMessage → Except Failure PreStepDecision
  turnStopping : Nat → Except Failure Unit
  renderPrompt : Nat → PromptAssembly → Except Failure String
  request : Nat → LlmCallConfig → Except Failure LlmCallConfig
  prepareCall : Nat → LlmCallConfig → Except Failure (Option PreparedLlmCall)
  openStream : Nat → Except Failure Unit
  chunk : Nat → Except Failure (Option StreamChunk)
  requestError : Nat → Json → Except Failure Bool
  executionMode : Nat → ToolCallBlock → Except Failure ExecutionMode
  maxParallelToolCalls : Nat → Nat
  prepare : Nat → ToolCallBlock → Except Failure Prepared
  race : Nat → Nat
  finalize : Nat → Slot → Except Failure ToolExecutionResult
  finish : Nat → Slot → Except Failure ToolExecutionResult

open Program

def ask : AgentProgram Nat := do
  let w ← get
  modify fun w => { w with clock := w.clock + 1 }
  pure w.clock

def fromExcept {α : Type} : Except Failure α → AgentProgram α
  | .ok value => pure value
  | .error failure => throw failure

/-- `await` -/
def awaiting {α : Type} (program : AgentProgram α) : AgentProgram α := do
  let outcome ← program.attempt
  call (.awaiting .promise)
  fromExcept outcome

/-- `signal.throwIfAborted()` -/
def throwIfAborted : AgentProgram Unit := do
  let w ← get
  match w.phase.reason with
  | some cause => throw (.aborted cause)
  | none => pure ()

def record (happening : Happening) : AgentProgram Unit :=
  modify fun w => { w with history := w.history ++ [happening] }

def reenteredText : String :=
  "session append cannot reenter while another append is being published"

def commitEvent (out : Outside) (caller : Caller) (event : SessionEvent) : AgentProgram Nat := do
  modify fun w => { w with appending := true }
  call (.publication caller)
  let time ← ask
  match out.veto time event with
  | some message =>
    modify fun w => { w with appending := false }
    throw (.other message)
  | none =>
    modify fun w => { w with log := w.log ++ [event] }
    call (.publication caller)
    modify fun w => { w with appending := false }
    pure event.seq

/-- `Session.append` of an entered session. -/
def append (out : Outside) (caller : Caller) (data : EventData)
    (sourceEventSeqs surfaceOp : Option Json) : AgentProgram Nat := do
  let w ← get
  if w.appending then throw (.other reenteredText)
  else
    let time ← ask
    let event : SessionEvent :=
      { seq := w.log.length, time := out.now time, data, sourceEventSeqs, surfaceOp }
    match out.check time w.log event with
    | .error message => throw (.other message)
    | .ok () => commitEvent out caller event

def notify (caller : Caller) : List UserMessage → AgentProgram Unit
  | [] => pure ()
  | _ :: rest => do
    call (.notification caller)
    notify caller rest

def inboxSplicedType : ExtensionType := ⟨"agent/inbox/spliced", by decide⟩

def inboxSpliced (target : InboxTarget) (start removedCount : Nat) (inserted : List UserMessage)
    (canceled : Bool) : EventData :=
  .extension inboxSplicedType <| .obj <|
    [("target", .str target.toString), ("start", .ofNat start)]
    ++ (if removedCount = 0 then [] else [("removedCount", .ofNat removedCount)])
    ++ [("inserted", .arr (inserted.map UserMessage.toJson))]
    ++ if canceled then [("outcome", .str "canceled")] else []

def firstRepeated (seen : List String) : List String → Option String
  | [] => none
  | id :: rest => if id ∈ seen then some id else firstRepeated (id :: seen) rest

def spliced (messages : List UserMessage) (start removedCount : Nat) (inserted : List UserMessage) :
    List UserMessage :=
  messages.take start ++ inserted ++ messages.drop (start + removedCount)

/-- `Inbox.mutate`, for a start and a count that are natural numbers. -/
def mutate (out : Outside) (caller : Caller) (target : InboxTarget) (start deleteCount : Nat)
    (inserted : List UserMessage) (discardRemoved : Bool) : AgentProgram (List UserMessage) := do
  let w ← get
  let messages := w.inbox.get target
  let actualStart := min start messages.length
  let actualDeleteCount := min deleteCount (messages.length - actualStart)
  let candidate := w.inbox.set (spliced messages actualStart actualDeleteCount inserted) target
  if actualDeleteCount = 0 ∧ inserted.isEmpty then pure []
  else if let some id := firstRepeated [] candidate.ids then
    throw (.other s!"message \"{id}\" is already pending")
  else
    let canceled := discardRemoved && actualDeleteCount ≠ 0
    let _ ← append out caller (inboxSpliced target actualStart actualDeleteCount inserted canceled) none none
    let w ← get
    let removed := ((w.inbox.get target).drop actualStart).take actualDeleteCount
    modify fun w =>
      { w with
        inbox := w.inbox.set (spliced (w.inbox.get target) actualStart actualDeleteCount inserted) target
        history := w.history ++ [.withdrawn (removed.map UserMessage.id)] }
    if discardRemoved then notify caller removed else pure ()
    notify caller inserted
    pure removed

/-- `Inbox.clear` -/
def clear (out : Outside) : AgentProgram Unit := do
  let w ← get
  let _ ← mutate out .others .nextStep 0 w.inbox.nextStep.length [] true
  let w ← get
  let _ ← mutate out .others .nextTurn 0 w.inbox.nextTurn.length [] true
  pure ()

/-- `Inbox.claim` -/
def claim (out : Outside) (target : InboxTarget) : AgentProgram (List UserMessage) := do
  let w ← get
  let steps ← mutate out .driver .nextStep 0 w.inbox.nextStep.length [] false
  let turns ← match target with
    | .nextTurn => mutate out .driver .nextTurn 0 1 [] false
    | .nextStep => pure []
  notify .driver (steps ++ turns)
  pure (steps ++ turns)

end DshKernel.Agent
