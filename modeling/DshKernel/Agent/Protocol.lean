import DshKernel.Agent.Machine

/-!
# The protocol of an agent

Where the driver stands, and what one step of an agent may do to its state there. The programs of
the event loop refine this relation; the properties of their runs are invariants of it.
-/

namespace DshKernel.Agent

open Js Lib Session Llm

/-- What is left of the calls that an abort skips: those behind the group, with what its end
assigns, or none. -/
inductive SkipRest where
  | group (next : Nat) (concluded : Bool) (planned : List ToolCallBlock)
  | planned (concluded : Bool)

inductive ToolPoint where
  | between
  | pool
  | starting (index : Nat) (call : ToolCallBlock)
  | called (index : Nat) (seq : Nat)
  | registered (index : Nat)
  | placed
  | changed
  | commits (left : Nat)
  | committing (left : Nat) (call : ToolCallBlock) (slot : Slot) (seq : Nat)
  | resulted (left : Nat) (slot : Slot) (result : ToolExecutionResult)
  | accepting (left : Nat) (result : ToolExecutionResult) (contexts : List UserMessage)
  | finishing (started : Nat) (concluded : Bool)
  | skipping (calls : List ToolCallBlock) (rest : SkipRest)
  | skipCalled (call : ToolCallBlock) (seq : Nat) (calls : List ToolCallBlock) (rest : SkipRest)
  | skipResulted (calls : List ToolCallBlock) (rest : SkipRest)
  | failing (failure : Failure)
  | leaving (exit : ToolsExit)

inductive Stage where
  | requesting
  | derived (messages : List Message)
  | answered (calls : List ToolCallBlock)
  | tools (point : ToolPoint)
  | concluded (concluded : Bool)
  | through (outcome : StepOutcome)
  | failed

/-- Where the driver stands. Without one, a program that settled may be due to deliver a wake. -/
inductive Control where
  | undriven (due : Bool)
  | maintaining (due : Bool)
  | reserved
  | starting (turn : Nat)
  | opening (turn : Nat)
  | between (vars : TurnVars)
  | proposing (vars : TurnVars) (step : Nat)
  | proposed (vars : TurnVars) (step messages : Nat)
  | entering (vars : TurnVars) (step : Nat)
  | stepOpening (vars : TurnVars) (step : Nat)
  | inStep (vars : TurnVars) (step : Nat) (stage : Stage)
  | checking (vars : TurnVars)
  | checked (vars : TurnVars) (waiting : Bool)
  | ending (turn : Nat) (ending : Option TurnEnding)
  | closing (reason : TurnEndReason) (ending : Option TurnEnding)
  | closed (ending : Option TurnEnding)
  | exiting

def Control.isDriver : Control → Bool
  | .undriven _ => false
  | .maintaining _ => false
  | _ => true

def Control.due : Control → Bool
  | .undriven due => due
  | .maintaining due => due
  | _ => false

def TurnVars.afterStep (vars : TurnVars) (outcome : StepOutcome) : TurnVars :=
  { vars with turnEnds := nextTurnEnds vars.turnEnds outcome.toStepEnd, target := .nextStep }

section Parameters

variable (out : Outside) (foreign : Foreign)

def Outside.Refuses (data : EventData) : Prop :=
  ∃ time log, ∃ event : SessionEvent, event.data = data ∧
    ((∃ message, out.check time log event = .error message) ∨ (out.veto time event).isSome = true)

def Outside.Finalizes (slot : Slot) (result : ToolExecutionResult) : Prop :=
  ∃ time, out.finalize time slot = .ok result ∨ out.finish time slot = .ok result

def isFailure : TurnEndReason → Prop
  | .aborted _ => True
  | .error _ => True
  | _ => False

def toolResultData (turn step : Nat) (id : String) (call : ToolCallBlock)
    (result : ToolExecutionResult) : EventData :=
  .toolResult ⟨.ofNat turn, .ofNat step, createToolResultMessage id call result, result.errorInfo,
    result.meta⟩

def toolCallData (turn step : Nat) (call : ToolCallBlock) : EventData :=
  .toolCall ⟨.ofNat turn, .ofNat step, call.id, call.name, call.arguments⟩

inductive ToolLogs (turn step : Nat) :
    ToolPoint → EventData → Option Json → Option Json → Nat → ToolPoint → Prop where
  | call {index : Nat} {call : ToolCallBlock} {seq : Nat} :
      ToolLogs turn step (.starting index call) (toolCallData turn step call) none none seq
        (.called index seq)
  | result {id : String} {call : ToolCallBlock} {slot : Slot} {left callSeq seq : Nat}
      {result : ToolExecutionResult} : out.Finalizes slot result →
      ToolLogs turn step (.committing left call slot callSeq)
        (toolResultData turn step id call result) (some (.arr [.ofNat callSeq])) (some appendOp) seq
        (.resulted left slot result)
  | skippedCall {call : ToolCallBlock} {calls : List ToolCallBlock} {rest : SkipRest} {seq : Nat} :
      ToolLogs turn step (.skipping (call :: calls) rest) (toolCallData turn step call) none none seq
        (.skipCalled call seq calls rest)
  | skippedResult {id : String} {call : ToolCallBlock} {calls : List ToolCallBlock} {rest : SkipRest}
      {callSeq seq : Nat} :
      ToolLogs turn step (.skipCalled call callSeq calls rest)
        (toolResultData turn step id call abortedBeforeDispatch) (some (.arr [.ofNat callSeq]))
        (some appendOp) seq (.skipResulted calls rest)

inductive StepLogs (turn step : Nat) :
    Stage → EventData → Option Json → Option Json → Nat → Stage → Prop where
  | message {message : UserMessage} {seq : Nat} :
      StepLogs turn step .requesting (.userMessage message) none (some appendOp) seq .requesting
  | chunk {chunk : Json} {seq : Nat} :
      StepLogs turn step .requesting (.assistantChunk (.ofNat turn) (.ofNat step) chunk) none none seq
        .requesting
  | header {messages : List Message} {data : RequestHeaderData} {seq : Nat} :
      StepLogs turn step (.derived messages) (.requestHeader data) none none seq (.derived messages)
  | context {messages : List Message} {context : RequestContext} {seq : Nat} :
      StepLogs turn step (.derived messages) (.requestContext context) none none seq
        (.derived messages)
  | answer {data : AssistantMessageData} {sourceEventSeqs : Option Json} {seq : Nat} :
      data.turn = .ofNat turn → data.step = .ofNat step → data.interrupted = false →
      StepLogs turn step .requesting (.assistantMessage data) sourceEventSeqs (some appendOp) seq
        (.answered (toolCallsOf data.message.content))
  | interrupted {data : AssistantMessageData} {sourceEventSeqs : Option Json} {seq : Nat} :
      data.turn = .ofNat turn → data.step = .ofNat step → toolCallsOf data.message.content = [] →
      StepLogs turn step .requesting (.assistantMessage data) sourceEventSeqs (some appendOp) seq
        .failed
  | tool {point point' : ToolPoint} {data : EventData} {sourceEventSeqs surfaceOp : Option Json}
      {seq : Nat} : ToolLogs out turn step point data sourceEventSeqs surfaceOp seq point' →
      StepLogs turn step (.tools point) data sourceEventSeqs surfaceOp seq (.tools point')

inductive Logs : Control → EventData → Option Json → Option Json → Nat → Control → Prop where
  | turnStart {turn seq : Nat} :
      Logs (.starting turn) (.turnStart (.ofNat turn)) none none seq (.opening turn)
  | stepStart {vars : TurnVars} {step seq : Nat} :
      Logs (.entering vars step) (.stepStart (.ofNat vars.turn) (.ofNat step)) none none seq
        (.stepOpening vars step)
  | inStep {vars : TurnVars} {step seq : Nat} {stage stage' : Stage} {data : EventData}
      {sourceEventSeqs surfaceOp : Option Json} :
      StepLogs out vars.turn step stage data sourceEventSeqs surfaceOp seq stage' →
      Logs (.inStep vars step stage) data sourceEventSeqs surfaceOp seq (.inStep vars step stage')
  | stepEnd {vars : TurnVars} {step seq : Nat} {outcome : StepOutcome} :
      Logs (.inStep vars step (.through outcome)) (.stepEnd (.ofNat vars.turn) (.ofNat step)) none none
        seq (.checking (vars.afterStep outcome))
  | stepFailed {vars : TurnVars} {step seq : Nat} :
      Logs (.inStep vars step .failed) (.stepEnd (.ofNat vars.turn) (.ofNat step)) none none seq
        (.ending vars.turn none)
  | turnEnd {turn seq : Nat} {ending : TurnEnding} :
      Logs (.ending turn (some ending)) (.turnEnd (.ofNat turn) ending.reason) none none seq
        (.closing ending.reason (some ending))
  | turnFailed {turn seq : Nat} {reason : TurnEndReason} : isFailure reason →
      Logs (.ending turn none) (.turnEnd (.ofNat turn) reason) none none seq (.closing reason none)

def Group.Ready (group : Group) : Prop :=
  ∃ slot call seq, group.slots[group.committed]? = some (some slot) ∧
    group.calls[group.committed]? = some call ∧ group.callSeqs[group.committed]? = some (some seq)

def Outside.Admits (group : Group) (index : Nat) (call : ToolCallBlock) : Prop :=
  0 < index → group.mode = .parallel → ∃ time, out.executionMode time call = .ok .parallel

inductive ToolMoves (w : AgentWorld) : ToolPoint → ToolPoint → Prop where
  | done : w.tools.planned.drop w.tools.next = [] →
      ToolMoves w .between (.leaving (.returned w.tools.concluded))
  | unclassified : ToolMoves w .between (.leaving .failed)
  | start {call : ToolCallBlock} : w.tools.group.calls[w.tools.group.nextToStart]? = some call →
      w.tools.group.aborted = false →
      w.tools.group.inFlight.length < w.tools.group.maxParallelToolCalls →
      out.Admits w.tools.group w.tools.group.nextToStart call →
      ToolMoves w .pool (.starting w.tools.group.nextToStart call)
  | recheck : ToolMoves w .pool .changed
  | commits : w.tools.group.schedulerFailure = none →
      ToolMoves w .changed (.commits w.tools.group.calls.length)
  | uncommittable {left : Nat} : left = 0 ∨ ¬w.tools.group.Ready → ToolMoves w (.commits left) .pool
  | commit {left : Nat} {slot : Slot} {call : ToolCallBlock} {seq : Nat} :
      w.tools.group.slots[w.tools.group.committed]? = some (some slot) →
      w.tools.group.calls[w.tools.group.committed]? = some call →
      w.tools.group.callSeqs[w.tools.group.committed]? = some (some seq) →
      ToolMoves w (.commits (left + 1)) (.committing left call slot seq)
  | finish : w.tools.group.inFlight = [] → w.tools.group.aborted = false →
      w.tools.group.committed = w.tools.group.started →
      ToolMoves w .pool (.finishing w.tools.group.started w.tools.group.concluded)
  | uncommitted : w.tools.group.inFlight = [] →
      w.tools.group.committed ≠ w.tools.group.started → ToolMoves w .pool (.leaving .failed)
  | skip : w.tools.group.inFlight = [] → w.tools.group.aborted = true →
      ToolMoves w .pool (.skipping (w.tools.group.calls.drop w.tools.group.started)
        (.group (w.tools.next + w.tools.group.calls.length)
          (w.tools.concluded || w.tools.group.concluded)
          (w.tools.planned.drop (w.tools.next + w.tools.group.calls.length))))
  | skipped {concluded : Bool} :
      ToolMoves w (.skipping [] (.planned concluded)) (.leaving (.returned concluded))
  | unskipped {calls : List ToolCallBlock} {rest : SkipRest} :
      ToolMoves w (.skipping calls rest) (.leaving .failed)
  | unanswered {call : ToolCallBlock} {seq : Nat} {calls : List ToolCallBlock} {rest : SkipRest} :
      ToolMoves w (.skipCalled call seq calls rest) (.leaving .failed)
  | drained {failure : Failure} :
      w.tools.group.inFlight.all w.tools.group.settled.contains = true →
      ToolMoves w (.failing failure) (.leaving .failed)

/-- The points of `runGroup` whose failures its `catch` block takes. -/
def ToolPoint.isGuarded : ToolPoint → Bool
  | .pool => true
  | .starting _ _ => true
  | .registered _ => true
  | .placed => true
  | .changed => true
  | .committing _ _ _ _ => true
  | .accepting _ _ _ => true
  | _ => false

inductive ToolWrites : ToolPoint → AgentWorld → ToolPoint → AgentWorld → Prop where
  | openGroup {w : AgentWorld} {first : ToolCallBlock} {rest : List ToolCallBlock}
      {mode : ExecutionMode} {time : Nat} :
      w.tools.planned.drop w.tools.next = first :: rest → out.executionMode time first = .ok mode →
      ToolWrites .between w .pool
        { w with
          tools :=
            { w.tools with
              group :=
                Agent.openGroup (if mode = .parallel then first :: rest else [first]) mode
                  (out.maxParallelToolCalls time) w.phase.reason.isSome } }
  | register {w : AgentWorld} {index seq : Nat} :
      ToolWrites (.called index seq) w (.registered index)
        { w with tools := { w.tools with group := w.tools.group.register index seq } }
  | launch {w : AgentWorld} {index : Nat} :
      ToolWrites (.registered index) w .placed
        { w with
          tools := w.tools.launch index
          history := w.history ++ [.dispatched (w.tools.next + index) w.tools.group.mode] }
  | answer {w : AgentWorld} {index : Nat} {slot : Slot} :
      ToolWrites (.registered index) w .placed { w with tools := w.tools.answer index slot }
  | advance {w : AgentWorld} :
      ToolWrites .placed w .changed
        { w with
          tools :=
            { w.tools with
              group := { w.tools.group with nextToStart := w.tools.group.nextToStart + 1 } } }
  | noteAbort {w : AgentWorld} : w.phase.reason.isSome = true →
      ToolWrites .pool w .pool
        { w with tools := { w.tools with group := { w.tools.group with aborted := true } } }
  | race {w : AgentWorld} {index : Nat} : index ∈ w.tools.group.inFlight →
      index ∈ w.tools.group.settled →
      ToolWrites .pool w .changed
        { w with
          tools :=
            { w.tools with
              group := { w.tools.group with inFlight := w.tools.group.inFlight.erase index } } }
  | commit {w : AgentWorld} {left : Nat} {slot : Slot} {result : ToolExecutionResult} :
      ToolWrites (.resulted left slot result) w (.accepting left result result.additionalContexts)
        { w with tools := { w.tools with commits := w.tools.commits ++ [⟨some slot, result⟩] } }
  | accept {w : AgentWorld} {left : Nat} {result : ToolExecutionResult} {context : UserMessage}
      {contexts : List UserMessage} :
      ToolWrites (.accepting left result (context :: contexts)) w (.accepting left result contexts)
        { w with tools := { w.tools with contexts := w.tools.contexts ++ [context] } }
  | committed {w : AgentWorld} {left : Nat} {result : ToolExecutionResult} :
      ToolWrites (.accepting left result []) w (.commits left)
        { w with tools := { w.tools with group := w.tools.group.commit result.concludesTurn } }
  | fail {w : AgentWorld} {point : ToolPoint} {failure : Failure} : point.isGuarded = true →
      ToolWrites point w (.failing failure)
        { w with
          tools :=
            { w.tools with
              group :=
                { w.tools.group with
                  schedulerFailure := w.tools.group.schedulerFailure.or (some failure) } } }
  | finish {w : AgentWorld} {started : Nat} {concluded : Bool} :
      ToolWrites (.finishing started concluded) w .between
        { w with
          tools :=
            { w.tools with
              next := w.tools.next + started, concluded := w.tools.concluded || concluded } }
  | skip {w : AgentWorld} {calls : List ToolCallBlock} {rest : SkipRest} :
      ToolWrites (.skipResulted calls rest) w (.skipping calls rest)
        { w with
          tools := { w.tools with commits := w.tools.commits ++ [⟨none, abortedBeforeDispatch⟩] } }
  | skipGroup {w : AgentWorld} {next : Nat} {concluded : Bool} {planned : List ToolCallBlock} :
      ToolWrites (.skipping [] (.group next concluded planned)) w
        (.skipping planned (.planned concluded)) { w with tools := { w.tools with next, concluded } }

inductive StepMoves (w : AgentWorld) : Stage → Stage → Prop where
  | derive {messages : List Message} : deriveMessages w.log = .ok messages →
      StepMoves w .requesting (.derived messages)
  | failRequest : StepMoves w .requesting .failed
  | failDerived {messages : List Message} : StepMoves w (.derived messages) .failed
  | tool {point point' : ToolPoint} : ToolMoves out w point point' →
      StepMoves w (.tools point) (.tools point')

inductive StepWrites : Stage → AgentWorld → Stage → AgentWorld → Prop where
  | requested {w : AgentWorld} {messages : List Message} :
      StepWrites (.derived messages) w .requesting
        { w with history := w.history ++ [.requested messages] }
  | maxTokens {w : AgentWorld} :
      StepWrites (.answered []) w (.through .maxTokens)
        { w with history := w.history ++ [.stepDone .maxTokens] }
  | noCalls {w : AgentWorld} :
      StepWrites (.answered []) w (.through .noCalls)
        { w with history := w.history ++ [.stepDone .noCalls] }
  | openTools {w : AgentWorld} {calls : List ToolCallBlock} :
      StepWrites (.answered calls) w (.tools .between)
        { w with tools := { start := w.log.length, planned := calls } }
  | tool {w w' : AgentWorld} {point point' : ToolPoint} : ToolWrites out point w point' w' →
      StepWrites (.tools point) w (.tools point') w'
  | toolsReturn {w : AgentWorld} {concluded : Bool} :
      StepWrites (.tools (.leaving (.returned concluded))) w (.concluded concluded)
        { w with tools := { w.tools with exit := some (.returned concluded) } }
  | toolsFail {w : AgentWorld} :
      StepWrites (.tools (.leaving .failed)) w .failed
        { w with tools := { w.tools with exit := some .failed } }
  | toolsDone {w : AgentWorld} {concluded : Bool} :
      StepWrites (.concluded concluded) w (.through (if concluded then .concluded else .unread))
        { w with
          history := w.history ++ [.stepDone (if concluded then .concluded else .unread)] }

def Control.openTurn : Control → Option Nat
  | .between vars => some vars.turn
  | .proposing vars _ => some vars.turn
  | .proposed vars _ _ => some vars.turn
  | .entering vars _ => some vars.turn
  | .checking vars => some vars.turn
  | _ => none

def Stage.isOver : Stage → Bool
  | .through _ => true
  | .failed => true
  | _ => false

inductive Moves (w : AgentWorld) : Control → Control → Prop where
  | start : Moves w .reserved (.starting (w.phase.turn + 1))
  | propose {vars : TurnVars} : Moves w (.between vars) (.proposing vars (w.phase.step + 1))
  | stop {vars : TurnVars} {step : Nat} {reason : StepEndReason} : vars.turnEnds = some reason →
      Moves w (.proposed vars step 0) (.ending vars.turn (some ⟨reason.toTurnEnd, true⟩))
  | empty {vars : TurnVars} {step : Nat} : w.phase.step = 0 →
      Moves w (.proposed vars step 0) (.ending vars.turn (some ⟨.completed, false⟩))
  | enter {vars : TurnVars} {step messages : Nat} : (messages = 0 → vars.turnEnds = none) →
      Moves w (.proposed vars step messages) (.entering vars step)
  | inStep {vars : TurnVars} {step : Nat} {stage stage' : Stage} : StepMoves out w stage stage' →
      Moves w (.inStep vars step stage) (.inStep vars step stage')
  | stepEndRefused {vars : TurnVars} {step : Nat} {stage : Stage} : stage.isOver = true →
      out.Refuses (.stepEnd (.ofNat vars.turn) (.ofNat step)) →
      Moves w (.inStep vars step stage) (.ending vars.turn none)
  | continues {vars : TurnVars} {waiting : Bool} : (vars.turnEnds.isSome = true → waiting = true) →
      Moves w (.checked vars waiting) (.between vars)
  | stops {vars : TurnVars} {reason : StepEndReason} : vars.turnEnds = some reason →
      Moves w (.checked vars false) (.ending vars.turn (some ⟨reason.toTurnEnd, true⟩))
  | fail {c : Control} {turn : Nat} : c.openTurn = some turn → Moves w c (.ending turn none)

inductive Writes : Control → AgentWorld → Control → AgentWorld → Prop where
  | turnOpened {w : AgentWorld} {turn : Nat} :
      Writes (.opening turn) w (.between { turn })
        { w with phase := w.phase.setTurn turn, history := w.history ++ [.turnOpened turn] }
  | notOpened {w : AgentWorld} :
      Writes .reserved w .exiting { w with history := w.history ++ [.turnExit .threw] }
  | notStarted {w : AgentWorld} {turn : Nat} :
      Writes (.starting turn) w .exiting { w with history := w.history ++ [.turnExit .threw] }
  | rejected {w : AgentWorld} {vars : TurnVars} {step : Nat} :
      Writes (.proposing vars step) w (.ending vars.turn (some ⟨.blocked, false⟩))
        { w with history := w.history ++ [.proposed none] }
  | proposed {w : AgentWorld} {vars : TurnVars} {step messages : Nat} :
      Writes (.proposing vars step) w (.proposed vars step messages)
        { w with history := w.history ++ [.proposed (some messages)] }
  | stepOpened {w : AgentWorld} {vars : TurnVars} {step : Nat} :
      Writes (.stepOpening vars step) w (.inStep vars step .requesting)
        { w with phase := w.phase.setStep step }
  | inStep {w w' : AgentWorld} {vars : TurnVars} {step : Nat} {stage stage' : Stage} :
      StepWrites out stage w stage' w' →
      Writes (.inStep vars step stage) w (.inStep vars step stage') w'
  | stopCheck {w : AgentWorld} {vars : TurnVars} :
      Writes (.checking vars) w (.checked vars !w.inbox.nextStep.isEmpty)
        { w with history := w.history ++ [.stopCheck !w.inbox.nextStep.isEmpty] }
  | turnClosed {w : AgentWorld} {reason : TurnEndReason} {ending : Option TurnEnding} :
      Writes (.closing reason ending) w (.closed ending)
        { w with history := w.history ++ [.turnClosed reason] }
  | turnEndRefused {w : AgentWorld} {turn : Nat} {ending : Option TurnEnding} {reason : TurnEndReason} :
      out.Refuses (.turnEnd (.ofNat turn) reason) →
      Writes (.ending turn ending) w .exiting { w with history := w.history ++ [.turnExit .threw] }
  | threw {w : AgentWorld} :
      Writes (.closed none) w .exiting { w with history := w.history ++ [.turnExit .threw] }
  | parked {w : AgentWorld} {ending : TurnEnding} : ending.stopped = false →
      Writes (.closed (some ending)) w .exiting
        { w with history := w.history ++ [.turnExit .parked] }
  | again {w : AgentWorld} {ending : TurnEnding} : w.inbox.hasPending = true →
      Writes (.closed (some ending)) w .reserved
        { w with phase := w.phase.renew, history := w.history ++ [.turnExit .again] }
  | stopped {w : AgentWorld} {ending : TurnEnding} : w.inbox.hasPending = false →
      Writes (.closed (some ending)) w .exiting
        { w with history := w.history ++ [.turnExit .stopped] }
  | settled {w : AgentWorld} {due : Bool} : (w.phase.wakeRequested = true → due = true) →
      Writes .exiting w (.undriven due)
        { w with phase := .idle w.phase.turn, history := w.history ++ [.settled] }

def AgentWorld.latches (w : AgentWorld) (wakeAfterAbort : Bool) : Prop :=
  w.phase.reason ≠ some .disposed ∧ (w.phase.isMaintenance = true ∨ wakeAfterAbort = true)

inductive Noted (w : AgentWorld) (latched : Bool) : List Happening → Prop where
  | nothing : Noted w latched []
  | sent {id : String} : id ∈ w.inbox.ids → Noted w latched [.sent id latched]

inductive OthersStep (w : AgentWorld) : AgentWorld → Prop where
  | quiet {clock : Nat} {appending requestHeaderLogged : Bool}
      {requestSurfaceGeneration : Option Nat} :
      OthersStep w { w with clock, appending, requestHeaderLogged, requestSurfaceGeneration }
  | foreign {event : SessionEvent} : event.seq = w.log.length →
      foreign w.log event.data event.sourceEventSeqs event.surfaceOp →
      OthersStep w { w with log := w.log ++ [event] }
  | inboxSpliced {event : SessionEvent} {target : InboxTarget} {start removedCount : Nat}
      {inserted : List UserMessage} {canceled : Bool} : event.seq = w.log.length →
      event.data = Agent.inboxSpliced target start removedCount inserted canceled →
      event.sourceEventSeqs = none → event.surfaceOp = none →
      OthersStep w { w with log := w.log ++ [event] }
  | spliced {target : InboxTarget} {start removedCount : Nat} {inserted : List UserMessage} :
      OthersStep w
        { w with
          inbox := w.inbox.set (spliced (w.inbox.get target) start removedCount inserted) target
          history :=
            w.history ++ [.withdrawn
              ((((w.inbox.get target).drop start).take removedCount).map UserMessage.id)] }
  | latch {wakeAfterAbort : Bool} {noted : List Happening} : w.phase.isIdle = false →
      Noted w true noted → w.latches wakeAfterAbort →
      OthersStep w { w with phase := w.phase.setWake true, history := w.history ++ noted }
  | note {wakeAfterAbort : Bool} {noted : List Happening} : w.phase.isIdle = false →
      Noted w false noted → ¬w.latches wakeAfterAbort →
      OthersStep w { w with history := w.history ++ noted }
  | abort {cause : CancelCause} : w.phase.isIdle = false → w.phase.reason = none →
      OthersStep w
        { w with phase := w.phase.setReason cause, history := w.history ++ [.aborted cause] }
  | cleared :
      OthersStep w { w with phase := w.phase.setWake false, history := w.history ++ [.cleared] }
  | settle {index : Nat} {outcome : Except Failure Slot} : index ∈ w.tools.group.inFlight →
      index ∉ w.tools.group.settled →
      OthersStep w
        { w with
          tools := w.tools.settle index outcome
          history := w.history ++ [.bodySettled (w.tools.next + index)] }

inductive PhaseStep : Control → AgentWorld → Control → AgentWorld → Prop where
  | wake {w : AgentWorld} {due : Bool} {lastTurn : Nat} {noted : List Happening} :
      w.phase = .idle lastTurn → Noted w false noted →
      PhaseStep (.undriven due) w .reserved
        { w with phase := .running none lastTurn 0 false, history := w.history ++ .woken :: noted }
  | maintain {w : AgentWorld} {due : Bool} {lastTurn : Nat} : w.phase = .idle lastTurn →
      PhaseStep (.undriven due) w (.maintaining due) { w with phase := .maintenance none lastTurn false }
  | maintained {w : AgentWorld} {due due' : Bool} : (due = true → due' = true) →
      (w.phase.wakeRequested = true → due' = true) →
      PhaseStep (.maintaining due) w (.undriven due')
        { w with phase := .idle w.phase.turn, history := w.history ++ [.settled] }
  | undue {w : AgentWorld} {due : Bool} : w.inbox.hasPending = false →
      PhaseStep (.undriven due) w (.undriven false) w
  | delivered {w : AgentWorld} {due : Bool} :
      w.inbox.hasPending = false ∨ w.phase.wakeRequested = true ∨ w.phase.reason = some .disposed →
      PhaseStep (.maintaining due) w (.maintaining false) w

inductive AgentStep : Control → AgentWorld → Control → AgentWorld → Prop where
  | others {c : Control} {w w' : AgentWorld} : OthersStep foreign w w' → AgentStep c w c w'
  | phase {c c' : Control} {w w' : AgentWorld} : PhaseStep c w c' w' → AgentStep c w c' w'
  | moves {c c' : Control} {w : AgentWorld} : Moves out w c c' → AgentStep c w c' w
  | writes {c c' : Control} {w w' : AgentWorld} : Writes out c w c' w' → AgentStep c w c' w'
  | logs {c c' : Control} {w : AgentWorld} {event : SessionEvent} : event.seq = w.log.length →
      Logs out c event.data event.sourceEventSeqs event.surfaceOp event.seq c' →
      AgentStep c w c' { w with log := w.log ++ [event] }

inductive AgentRuns (init : AgentWorld) : Control → AgentWorld → Prop where
  | refl : init.phase.isIdle = true → AgentRuns init (.undriven false) init
  | step {c c' : Control} {w w' : AgentWorld} : AgentRuns init c w →
      AgentStep out foreign c w c' w' → AgentRuns init c' w'

variable {out foreign} {init w : AgentWorld} {c : Control}

theorem AgentRuns.invariant (inv : Control → AgentWorld → Prop) (h : AgentRuns out foreign init c w)
    (hinit : init.phase.isIdle = true → inv (.undriven false) init)
    (hstep : ∀ {c w c' w'}, AgentRuns out foreign init c w → inv c w →
      AgentStep out foreign c w c' w' → inv c' w') : inv c w := by
  induction h with
  | refl hidle => exact hinit hidle
  | step hruns hlast ih => exact hstep hruns ih hlast

end Parameters

section Growth

variable {out : Outside} {foreign : Foreign} {w w' : AgentWorld} {c c' : Control}

theorem ToolWrites.grows {point point' : ToolPoint} (h : ToolWrites out point w point' w') :
    w.history <+: w'.history ∧ w.log <+: w'.log := by
  cases h <;> simp

theorem StepWrites.grows {stage stage' : Stage} (h : StepWrites out stage w stage' w') :
    w.history <+: w'.history ∧ w.log <+: w'.log := by
  cases h with
  | tool h => exact h.grows
  | _ => simp

theorem AgentStep.grows (h : AgentStep out foreign c w c' w') :
    w.history <+: w'.history ∧ w.log <+: w'.log := by
  cases h with
  | others h => cases h <;> simp
  | phase h => cases h <;> simp
  | moves h => simp
  | logs hseq h => simp
  | writes h =>
    cases h with
    | inStep h => exact h.grows
    | _ => simp

end Growth

end DshKernel.Agent
