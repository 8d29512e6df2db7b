import DshKernel.Agent.Driver

/-!
# Tool calls

`executeToolCalls`: exclusive calls form barriers, parallel calls share a bounded pool, and
results are committed in the order of the model. A dispatch settles while the driver awaits.
-/

namespace DshKernel.Agent

open Js Lib Session Llm Program

def setGroup (change : Group → Group) : AgentProgram Unit :=
  modify fun w => { w with tools := { w.tools with group := change w.tools.group } }

def ToolRun.answer (tools : ToolRun) (index : Nat) (slot : Slot) : ToolRun :=
  { tools with
    group := { tools.group with slots := tools.group.slots.set index (some slot) }
    answers := tools.answers ++ [(tools.next + index, slot)] }

def ToolRun.settle (tools : ToolRun) (index : Nat) (outcome : Except Failure Slot) : ToolRun :=
  let settled := { tools with group := { tools.group with settled := index :: tools.group.settled } }
  match outcome with
  | .ok slot => settled.answer index slot
  | .error failure =>
    { settled with
      group :=
        { settled.group with
          schedulerFailure := settled.group.schedulerFailure.or (some failure) } }

def settle (index : Nat) (outcome : Except Failure Slot) : AgentProgram Unit :=
  modify fun w =>
    { w with
      tools := w.tools.settle index outcome
      history := w.history ++ [.bodySettled (w.tools.next + index)] }

def appendToolCall (out : Outside) (vars : StepVars) (call : ToolCallBlock) : AgentProgram Nat :=
  append out .driver
    (.toolCall ⟨.ofNat vars.turn, .ofNat vars.step, call.id, call.name, call.arguments⟩) none none

/-- `createToolResultMessage` -/
def createToolResultMessage (id : String) (call : ToolCallBlock) (result : ToolExecutionResult) :
    ToolResultMessage where
  id := id
  block := ⟨call.id, result.content, some result.isError⟩
  source := ⟨call.id⟩

def appendToolResult (out : Outside) (vars : StepVars) (call : ToolCallBlock) (slot : Option Slot)
    (result : ToolExecutionResult) (callSeq : Nat) : AgentProgram Unit := do
  let question ← ask
  let message := createToolResultMessage (out.messageId question) call result
  let _ ← append out .driver
    (.toolResult ⟨.ofNat vars.turn, .ofNat vars.step, message, result.errorInfo, result.meta⟩)
    (some (.arr [.ofNat callSeq])) (some appendOp)
  modify fun w => { w with tools := { w.tools with commits := w.tools.commits ++ [⟨slot, result⟩] } }

def abortedBeforeDispatch : ToolExecutionResult where
  content := [.text "Error: tool call aborted before dispatch"]
  isError := true
  errorInfo := some ⟨"AbortError", "ABORTED_BEFORE_DISPATCH"⟩

def appendSkippedToolCall (out : Outside) (vars : StepVars) (call : ToolCallBlock) :
    AgentProgram Unit := do
  let callSeq ← appendToolCall out vars call
  appendToolResult out vars call none abortedBeforeDispatch callSeq

def appendSkippedToolCalls (out : Outside) (vars : StepVars) : List ToolCallBlock → AgentProgram Unit
  | [] => pure ()
  | call :: rest => do
    appendSkippedToolCall out vars call
    appendSkippedToolCalls out vars rest

def throwSchedulerFailure : AgentProgram Unit := do
  let w ← get
  match w.tools.group.schedulerFailure with
  | some failure => throw failure
  | none => pure ()

def acceptContexts (out : Outside) : List UserMessage → AgentProgram Unit
  | [] => pure ()
  | context :: rest => do
    let w ← get
    let _ ← mutate out .driver .nextStep w.inbox.nextStep.length 0 [context] true
    modify fun w => { w with tools := { w.tools with contexts := w.tools.contexts ++ [context] } }
    acceptContexts out rest

def finalResult (out : Outside) (slot : Slot) : AgentProgram ToolExecutionResult := do
  let question ← ask
  if slot.needsPost then awaiting (fromExcept (out.finalize question slot))
  else
    call (.notification .driver)
    fromExcept (out.finish question slot)

def Group.commit (group : Group) (concludesTurn : Bool) : Group :=
  { group with concluded := group.concluded || concludesTurn, committed := group.committed + 1 }

/-- `commitReady`, for at most as many results as there are calls. -/
def commitReady (out : Outside) (vars : StepVars) : Nat → AgentProgram Unit
  | 0 => pure ()
  | count + 1 => do
    let w ← get
    let group := w.tools.group
    match group.slots[group.committed]?, group.calls[group.committed]?,
        group.callSeqs[group.committed]? with
    | some (some slot), some call, some (some callSeq) =>
      let result ← finalResult out slot
      appendToolResult out vars call (some slot) result callSeq
      acceptContexts out result.additionalContexts
      setGroup fun group => group.commit result.concludesTurn
      commitReady out vars count
    | _, _, _ => pure ()

def Group.register (group : Group) (index callSeq : Nat) : Group :=
  { group with
    callSeqs := group.callSeqs.set index (some callSeq), started := group.started + 1 }

def ToolRun.launch (tools : ToolRun) (index : Nat) : ToolRun :=
  { tools with
    group := { tools.group with inFlight := tools.group.inFlight ++ [index] }
    dispatched := tools.dispatched ++ [tools.next + index] }

/-- `startCall` -/
def startCall (out : Outside) (vars : StepVars) (index : Nat) (block : ToolCallBlock) :
    AgentProgram Unit := do
  let callSeq ← appendToolCall out vars block
  setGroup fun group => group.register index callSeq
  let question ← ask
  let prepared ← awaiting (fromExcept (out.prepare question block))
  throwSchedulerFailure
  match prepared with
  | .dispatch =>
    call (.notification .driver)
    modify fun w =>
      { w with
        tools := w.tools.launch index
        history := w.history ++ [.dispatched (w.tools.next + index) w.tools.group.mode] }
  | .postResult result => modify fun w => { w with tools := w.tools.answer index ⟨result, true⟩ }
  | .finalResult result => modify fun w => { w with tools := w.tools.answer index ⟨result, false⟩ }

/-- `if (signal.aborted) aborted = true` -/
def noteAbort : AgentProgram Unit := do
  let w ← get
  if w.phase.reason.isSome then setGroup fun group => { group with aborted := true } else pure ()

def commitPhase (out : Outside) (vars : StepVars) : AgentProgram Unit := do
  throwSchedulerFailure
  let w ← get
  awaiting (commitReady out vars w.tools.group.calls.length)
  throwSchedulerFailure
  noteAbort

/-- `await executeToolCalls(...)` -/
def toolsReturn (out : Outside) (vars : StepVars) (outcome : Except Failure Bool) : AgentBlock := do
  call (.awaiting .promise)
  match outcome with
  | .error failure =>
    modify fun w => { w with tools := { w.tools with exit := some .failed } }
    stepThrows out vars.toTurnVars vars.step failure
  | .ok concluded =>
    modify fun w => { w with tools := { w.tools with exit := some (.returned concluded) } }
    stepReturns out vars (if concluded then .concluded else .unread)

/-- The `catch` block of `runGroup`, and its throw. -/
def failGroup (out : Outside) (vars : StepVars) (failure : Failure) : AgentBlock := do
  setGroup fun group => { group with schedulerFailure := group.schedulerFailure.or (some failure) }
  call (.awaiting .allDispatches)
  let w ← get
  call (.awaiting .promise)
  toolsReturn out vars (.error (w.tools.group.schedulerFailure.getD failure))

/-- One round of the loop of `fillPool`: whether it goes on. -/
def fillRound (out : Outside) (vars : StepVars) (index : Nat) (block : ToolCallBlock)
    (mode : ExecutionMode) : AgentProgram Bool := do
  let found ←
    if 0 < index ∧ mode = .parallel then do
      let question ← ask
      fromExcept (out.executionMode question block)
    else pure mode
  if found ≠ mode then pure false
  else
    awaiting (startCall out vars index block)
    setGroup fun group => { group with nextToStart := group.nextToStart + 1 }
    commitPhase out vars
    pure true

def fillPool (out : Outside) (vars : StepVars) : AgentBlock := do
  let w ← get
  let group := w.tools.group
  match group.calls[group.nextToStart]? with
  | none =>
    call (.awaiting .promise)
    pure (some (.drainPool vars))
  | some block =>
    if group.aborted ∨ group.maxParallelToolCalls ≤ group.inFlight.length then
      call (.awaiting .promise)
      pure (some (.drainPool vars))
    else
      match ← (fillRound out vars group.nextToStart block group.mode).attempt with
      | .error failure =>
        call (.awaiting .promise)
        failGroup out vars failure
      | .ok true => pure (some (.fillPool vars))
      | .ok false =>
        call (.awaiting .promise)
        pure (some (.drainPool vars))

/-- One round of the loop that drains the pool, up to the next `fillPool`. -/
def raceDispatches (out : Outside) (vars : StepVars) : AgentProgram Unit := do
  call (.awaiting .anyDispatch)
  let question ← ask
  let w ← get
  let settled := w.tools.group.inFlight.filter fun index => w.tools.group.settled.contains index
  match settled[out.race question % settled.length]? with
  | none => pure ()
  | some index => setGroup fun group => { group with inFlight := group.inFlight.erase index }
  commitPhase out vars

/-- `runGroup` behind its loops. -/
def finishGroup (out : Outside) (vars : StepVars) : AgentBlock := do
  let w ← get
  let group := w.tools.group
  if group.aborted then
    match ← (appendSkippedToolCalls out vars (group.calls.drop group.started)).attempt with
    | .error failure =>
      call (.awaiting .promise)
      toolsReturn out vars (.error failure)
    | .ok () =>
      call (.awaiting .promise)
      let next := w.tools.next + group.calls.length
      let concluded := w.tools.concluded || group.concluded
      modify fun w => { w with tools := { w.tools with next, concluded } }
      match ← (appendSkippedToolCalls out vars (w.tools.planned.drop next)).attempt with
      | .error failure => toolsReturn out vars (.error failure)
      | .ok () => toolsReturn out vars (.ok concluded)
  else if group.committed ≠ group.started then
    call (.awaiting .promise)
    toolsReturn out vars (.error (.other "tool-call scheduler: uncommitted settled calls"))
  else
    call (.awaiting .promise)
    modify fun w =>
      { w with
        tools :=
          { w.tools with
            next := w.tools.next + group.started
            concluded := w.tools.concluded || group.concluded } }
    pure (some (.tools vars))

def drainPool (out : Outside) (vars : StepVars) : AgentBlock := do
  let w ← get
  if w.tools.group.inFlight.isEmpty then finishGroup out vars
  else
    match ← (raceDispatches out vars).attempt with
    | .error failure => failGroup out vars failure
    | .ok () => pure (some (.fillPool vars))

def openGroup (calls : List ToolCallBlock) (mode : ExecutionMode) (maxParallelToolCalls : Nat)
    (aborted : Bool) : Group where
  calls := calls
  mode := mode
  maxParallelToolCalls := maxParallelToolCalls
  slots := calls.map fun _ => none
  callSeqs := calls.map fun _ => none
  aborted := aborted

/-- The loop of `executeToolCalls`, up to the start of a group. -/
def tools (out : Outside) (vars : StepVars) : AgentBlock := do
  let w ← get
  match w.tools.planned.drop w.tools.next with
  | [] => toolsReturn out vars (.ok w.tools.concluded)
  | first :: rest =>
    let question ← ask
    match out.executionMode question first with
    | .error failure => toolsReturn out vars (.error failure)
    | .ok mode =>
      let calls := if mode = .parallel then first :: rest else [first]
      let aborted := w.phase.reason.isSome
      setGroup fun _ => openGroup calls mode (out.maxParallelToolCalls question) aborted
      pure (some (.fillPool vars))

/-- The start of `executeToolCalls`. -/
def openTools (planned : List ToolCallBlock) : AgentProgram Unit :=
  modify fun w => { w with tools := { start := w.log.length, planned } }

end DshKernel.Agent
