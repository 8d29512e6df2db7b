import DshKernel.Agent.Requests
import DshKernel.Session.Trace

/-!
# The event loop of an agent

The programs of an agent by their names, and what may start them: other code sends, cancels, edits
the inbox, runs maintenance and appends its own events at any time; dispatches settle while nothing
runs.
-/

namespace DshKernel.Agent

open Js Lib Session Llm Program

def through {α : Type} (program : AgentProgram α) : AgentBlock := do
  let _ ← program
  pure none

def AgentCall.program (out : Outside) : AgentCall → AgentBlock
  | .send message target wakeup => through (Agent.send out message target wakeup)
  | .cancel cause keepInbox => through (Agent.cancel out cause keepInbox)
  | .splice target start deleteCount inserted =>
    through (mutate out .others target start deleteCount inserted true)
  | .runMaintenance => through Agent.runMaintenance
  | .publish data sourceEventSeqs surfaceOp =>
    through (append out .others data sourceEventSeqs surfaceOp)
  | .settle index outcome => through (Agent.settle index outcome)
  | .kick => Agent.kick out
  | .steps vars => Agent.steps out vars
  | .request vars startsRequestSeries => Agent.request out vars startsRequestSeries
  | .stream vars built assembler chunkSeqs => Agent.stream out vars built assembler chunkSeqs
  | .tools vars => Agent.tools out vars
  | .fillPool vars => Agent.fillPool out vars
  | .drainPool vars => Agent.drainPool out vars

def AgentSite.kind : AgentSite → SiteKind AgentWorld AgentCall
  | .publication _ => .callout
  | .notification _ => .callout
  | .settling _ => .callout
  | .job => .callout
  | .kick => .start .kick
  | .maintenance => .await fun _ => true
  | .awaiting .promise => .await fun _ => true
  | .awaiting .turn => .await fun _ => true
  | .awaiting .anyDispatch => .await fun w =>
    w.tools.group.inFlight.any w.tools.group.settled.contains
  | .awaiting .allDispatches => .await fun w =>
    w.tools.group.inFlight.all w.tools.group.settled.contains

def openTurnOf (log : List SessionEvent) : Option Number :=
  log.foldl (fun found event =>
    match event.data with
    | .turnStart turn => some turn
    | .turnEnd _ _ => none
    | _ => found) none

abbrev Foreign := List SessionEvent → EventData → Option Json → Option Json → Prop

/-- What other code appends: events of its own, messages, and rewrites of tool results within a
turn. -/
def isForeign (log : List SessionEvent) (data : EventData) (_ surfaceOp : Option Json) : Prop :=
  match data with
  | .extension _ _ => True
  | .userMessage _ => True
  | .toolResult _ => surfaceOp.any isAppendOp = false ∧ (openTurnOf log).isSome = true
  | _ => False

def AgentCall.isEnabled (foreign : Foreign) (site : Option AgentSite) (w : AgentWorld) :
    AgentCall → Prop
  | .send _ _ _ => True
  | .cancel _ _ => True
  | .splice _ _ _ _ => True
  | .runMaintenance => True
  | .publish data sourceEventSeqs surfaceOp => foreign w.log data sourceEventSeqs surfaceOp
  | .settle index _ =>
    site.isNone = true ∧ index ∈ w.tools.group.inFlight ∧ index ∉ w.tools.group.settled
  | .kick => False
  | .steps _ => False
  | .request _ _ => False
  | .stream _ _ _ _ => False
  | .tools _ => False
  | .fillPool _ => False
  | .drainPool _ => False

def agentLoop (out : Outside) (foreign : Foreign) :
    EventLoop Failure AgentSite AgentWorld AgentCall where
  body := AgentCall.program out
  kind := AgentSite.kind
  enabled site name w := name.isEnabled foreign site w

/-- `lastTurn` of the `turnBoundary` projection. -/
def lastTurnOf (log : List SessionEvent) : Number :=
  log.foldl (fun found event =>
    match event.data with
    | .turnStart turn => turn
    | _ => found) (.ofNat 0)

def initialWorld (log : List SessionEvent) (inbox : Inbox) (lastTurn : Nat) : AgentWorld where
  log := log
  inbox := inbox
  phase := .idle lastTurn
  tools := { start := log.length }

def plainOutside (chunk : Nat → Option StreamChunk) : Outside where
  options := { provider := some "provider", model := some "model" }
  stringify := fun _ => ""
  chunkJson := fun _ => .null
  now := fun _ => .ofNat 0
  check := fun _ _ _ => .ok ()
  veto := fun _ _ => none
  messageId := fun time => s!"message {time}"
  assemble := fun _ => .ok {}
  project := fun _ => none
  preStep := fun _ messages => .ok (.enter messages false)
  turnStopping := fun _ => .ok ()
  renderPrompt := fun _ _ => .ok ""
  request := fun _ config => .ok config
  prepareCall := fun _ _ => .ok none
  openStream := fun _ => .ok ()
  chunk := fun time => .ok (chunk time)
  requestError := fun _ _ => .ok false
  executionMode := fun _ _ => .ok .exclusive
  maxParallelToolCalls := fun _ => 1
  prepare := fun _ _ => .ok .dispatch
  race := fun _ => 0
  finalize := fun _ slot => .ok slot.result
  finish := fun _ slot => .ok slot.result

abbrev AgentState := LoopState Failure AgentSite AgentWorld AgentCall

section Runs

def fresh : AgentState := ⟨initialWorld [] {} 0, [], []⟩

def enterFor (out : Outside) (name : AgentCall) (count : Nat) (s : AgentState) : AgentState :=
  runEntered (agentLoop out isForeign) name count s

theorem reaches_enterFor {out : Outside} {s : AgentState}
    (h : LoopReaches (agentLoop out isForeign) fresh s) (hidle : s.stack = []) (name : AgentCall)
    (henabled : name.isEnabled isForeign none s.world) (count : Nat) :
    LoopReaches (agentLoop out isForeign) fresh (enterFor out name count s) :=
  h.runEntered hidle henabled count

def sendText (id : String) (target : InboxTarget) : AgentCall :=
  .send ⟨id, [.text id], .user⟩ target true

theorem isEnabled_sendText (id : String) (target : InboxTarget) (w : AgentWorld) :
    (sendText id target).isEnabled isForeign none w := trivial

theorem isEnabled_cancel (cause : CancelCause) (keepInbox : Bool) (w : AgentWorld) :
    (AgentCall.cancel cause keepInbox).isEnabled isForeign none w := trivial

def bodyReturns (index : Nat) : AgentCall :=
  .settle index (.ok ⟨{ content := [.text "result"], isError := false }, false⟩)

theorem isEnabled_bodyReturns {index : Nat} {w : AgentWorld} (hflight : index ∈ w.tools.group.inFlight)
    (hsettled : index ∉ w.tools.group.settled) : (bodyReturns index).isEnabled isForeign none w :=
  ⟨rfl, hflight, hsettled⟩

end Runs

end DshKernel.Agent
