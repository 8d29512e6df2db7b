import DshKernel.Lib.Offers
import DshKernel.Lib.OrderedMap

/-!
# Remote waterfall events

The gateway offers each waterfall event of its source to the clients whose event streams are open,
and settles it with the first result or rejection, or with `next` when the last answer is a pass.
-/

namespace DshKernel.Gateway.RemoteEvents

open Lib

structure RemoteEventInvocationFrame (ε R : Type) where
  event : String
  eventId : ε
  agentId : String
  request : R

inductive RemoteEventWireFrame (ε R : Type) where
  | waterfall (frame : RemoteEventInvocationFrame ε R)
  | cancel (eventId : ε)

structure RemoteEventClient (ε R : Type) where
  generation : Nat
  deliveries : List ε := []
  queue : List (RemoteEventWireFrame ε R) := []
  closed : Bool := false

/-- A waterfall that is not settled. Its identity is the number of dispatches before it. -/
structure PendingRemoteEvent (ε R : Type) where
  source : Nat
  frame : RemoteEventInvocationFrame ε R
  deliveries : List Nat := []

inductive RemoteEventAnswer (V E : Type) where
  | result (value : V)
  | rejected (error : E)
  | next

structure RemoteEventDispatch (R E : Type) where
  event : String
  /-- The kind and the identity of the Host Context, if it is identified. -/
  context : Option (String × String)
  /-- Whether the Context still takes effects. -/
  active : Bool
  /-- The projected request, and the reason of its signal if that has aborted. -/
  projected : Except E (R × Option E)

structure Gateway (δ ε R : Type) where
  /-- `remoteEvents !== undefined` -/
  registered : Bool := false
  clients : OrderedMap δ (RemoteEventClient ε R) := .empty
  pending : OrderedMap ε (PendingRemoteEvent ε R) := .empty
  /-- How many streams were opened, and how many waterfalls were dispatched. -/
  generations : Nat := 0
  sources : Nat := 0

variable {δ ε R V E : Type} [DecidableEq δ] [DecidableEq ε]

/-- What the gateway did to waterfalls and clients, a waterfall being settled by a result, by a
rejection, or by the `next` of the Host. -/
abbrev Log (V E : Type) := List (Happening Nat Nat (Except E V))

def RemoteEventClient.push (client : RemoteEventClient ε R) (frame : RemoteEventWireFrame ε R) :
    RemoteEventClient ε R :=
  if client.closed then client else { client with queue := client.queue ++ [frame] }

/-- The client's half of `deliverRemoteEvent`. -/
def RemoteEventClient.deliver (client : RemoteEventClient ε R) (id : ε)
    (frame : RemoteEventInvocationFrame ε R) : RemoteEventClient ε R :=
  { client with deliveries := client.deliveries ++ [id] }.push (.waterfall frame)

/-- The client's half of `removeRemoteEventDelivery`. -/
def RemoteEventClient.removeDelivery (client : RemoteEventClient ε R) (id : ε) :
    RemoteEventClient ε R :=
  { client with deliveries := client.deliveries.filter fun other => decide (other ≠ id) }

/-- The event's half of `deliverRemoteEvent`. -/
def PendingRemoteEvent.deliver (pending : PendingRemoteEvent ε R) (generation : Nat) :
    PendingRemoteEvent ε R :=
  { pending with deliveries := pending.deliveries ++ [generation] }

/-- The event's half of `removeRemoteEventDelivery`. -/
def PendingRemoteEvent.removeDelivery (pending : PendingRemoteEvent ε R) (generation : Nat) :
    PendingRemoteEvent ε R :=
  { pending with deliveries := pending.deliveries.filter fun other => decide (other ≠ generation) }

namespace Gateway

/-- `finishRemoteEvent`: the clients that have not answered are told. The effect on the Context that
is released with it cancels the event, which is no longer pending. -/
def finishRemoteEvent (gateway : Gateway δ ε R) (id : ε) (pending : PendingRemoteEvent ε R) :
    Gateway δ ε R :=
  { gateway with
    pending := gateway.pending.delete id
    clients := gateway.clients.mapValues fun _ client =>
      if client.generation ∈ pending.deliveries then (client.removeDelivery id).push (.cancel id)
      else client }

def pendingOf (gateway : Gateway δ ε R) (source : Nat) : Option (ε × PendingRemoteEvent ε R) :=
  gateway.pending.entries.find? fun entry => decide (entry.2.source = source)

/-- `cancelRemoteEvent`: an event that is no longer pending is left alone. -/
def cancelRemoteEvent (gateway : Gateway δ ε R) (source : Nat) (reason : E) :
    Gateway δ ε R × Log V E :=
  match gateway.pendingOf source with
  | none => (gateway, [])
  | some (id, pending) =>
    (gateway.finishRemoteEvent id pending, [.settled source (some (.error reason))])

def openRemoteEvents (gateway : Gateway δ ε R) (clientId : δ) : Gateway δ ε R × Log V E :=
  if gateway.registered then
    let generation := gateway.generations
    let client : RemoteEventClient ε R :=
      gateway.pending.entries.foldl (fun client entry => client.deliver entry.1 entry.2.frame)
        { generation }
    ({ gateway with
        generations := generation + 1
        clients := gateway.clients.set clientId client
        pending := gateway.pending.mapValues fun _ pending => pending.deliver generation },
      gateway.pending.entries.map fun entry => .offered entry.2.source generation)
  else (gateway, [])

/-- `removeRemoteEventClient`, when the stream of the client ends. -/
def removeRemoteEventClient (gateway : Gateway δ ε R) (clientId : δ) : Gateway δ ε R × Log V E :=
  match gateway.clients.get? clientId with
  | none => (gateway, [])
  | some client =>
    ({ gateway with
        clients := gateway.clients.delete clientId
        pending := gateway.pending.mapValues fun id pending =>
          if id ∈ client.deliveries then pending.removeDelivery client.generation else pending },
      [.left client.generation])

/-- The waterfall is offered to the clients there are, in the order of their streams. -/
def deliverToAll (gateway : Gateway δ ε R) (id : ε) (pending : PendingRemoteEvent ε R) :
    Gateway δ ε R × Log V E :=
  let generations := gateway.clients.entries.map (·.2.generation)
  ({ gateway with
      pending := gateway.pending.set id (generations.foldl PendingRemoteEvent.deliver pending)
      clients := gateway.clients.mapValues fun _ client => client.deliver id pending.frame },
    generations.map (.offered pending.source))

/-- `startRemoteEvent`, under an id that no pending event has. -/
def startRemoteEvent (typeError : String → E) (gateway : Gateway δ ε R) (id : ε)
    (source : RemoteEventDispatch R E) : Gateway δ ε R × Log V E :=
  let number := gateway.sources
  let gateway := { gateway with sources := number + 1 }
  let resolve : Gateway δ ε R × Log V E := (gateway, [.settled number none])
  let reject (error : E) : Gateway δ ε R × Log V E :=
    (gateway, [.settled number (some (.error error))])
  if source.event = "" then
    reject (typeError "typert gateway: Remote event name must be a nonempty string")
  else
    match source.context with
    | none => resolve
    | some (kind, identity) =>
      if kind ≠ "agent" ∨ identity = "" then
        reject (typeError
          "typert gateway: scoped Remote events require a non-empty Agent identity")
      else
        match source.projected with
        | .error error => reject error
        | .ok (request, aborted) =>
          if source.active = false then resolve
          else
            let pending : PendingRemoteEvent ε R :=
              { source := number, frame := ⟨source.event, id, identity, request⟩ }
            match aborted with
            | some reason =>
              ({ gateway with pending := gateway.pending.set id pending }.finishRemoteEvent id pending,
                [.settled number (some (.error reason))])
            | none => gateway.deliverToAll id pending

def rejectLate (gateway : Gateway δ ε R) (reason : E) : Gateway δ ε R × Log V E :=
  ({ gateway with sources := gateway.sources + 1 },
    [.settled gateway.sources (some (.error reason))])

/-- `receiveRemoteEventResult`, for a client that is named by its id. -/
def receiveRemoteEventResult (gateway : Gateway δ ε R) (clientId : δ) (eventId : ε)
    (answer : RemoteEventAnswer V E) : Gateway δ ε R × Log V E :=
  match gateway.clients.get? clientId, gateway.pending.get? eventId with
  | some client, some pending =>
    if client.generation ∈ pending.deliveries then
      let left := pending.removeDelivery client.generation
      let removed : Gateway δ ε R :=
        { gateway with
          clients := gateway.clients.set clientId (client.removeDelivery eventId)
          pending := gateway.pending.set eventId left }
      match answer with
      | .result value =>
        (removed.finishRemoteEvent eventId left,
          [.decided pending.source client.generation, .settled pending.source (some (.ok value))])
      | .rejected error =>
        (removed.finishRemoteEvent eventId left,
          [.decided pending.source client.generation, .settled pending.source (some (.error error))])
      | .next =>
        if left.deliveries.isEmpty then
          (removed.finishRemoteEvent eventId left,
            [.passed pending.source client.generation, .settled pending.source none])
        else (removed, [.passed pending.source client.generation])
    else (gateway, [])
  | _, _ => (gateway, [])

/-- `closeRemoteEvents`, when the source is removed or fails. -/
def closeRemoteEvents (gateway : Gateway δ ε R) (reason : E) : Gateway δ ε R × Log V E :=
  let (cancelled, log) := (gateway.pending.entries.map (·.2.source)).foldl
    (fun (gateway, log) source =>
      let (gateway, news) := gateway.cancelRemoteEvent source reason
      (gateway, log ++ news)) (gateway, ([] : Log V E))
  ({ cancelled with
      registered := false
      clients := cancelled.clients.mapValues fun _ client => { client with closed := true } }, log)

end Gateway

/-- The gateways that connections, dispatches, answers, ends of streams, aborts and the source lead
to, in any order, with what happened. -/
inductive Run (typeError : String → E) : Gateway δ ε R → Log V E → Prop where
  | initial : Run typeError {} []
  | register {gateway : Gateway δ ε R} {log : Log V E} (before : Run typeError gateway log)
      (hfree : gateway.registered = false) :
      Run typeError { gateway with registered := true } log
  | connect {gateway : Gateway δ ε R} {log : Log V E} (before : Run typeError gateway log)
      (clientId : δ) (hfresh : gateway.clients.get? clientId = none) :
      Run typeError (gateway.openRemoteEvents (V := V) (E := E) clientId).1
        (log ++ (gateway.openRemoteEvents clientId).2)
  | disconnect {gateway : Gateway δ ε R} {log : Log V E} (before : Run typeError gateway log)
      (clientId : δ) :
      Run typeError (gateway.removeRemoteEventClient (V := V) (E := E) clientId).1
        (log ++ (gateway.removeRemoteEventClient clientId).2)
  | dispatch {gateway : Gateway δ ε R} {log : Log V E} (before : Run typeError gateway log)
      (id : ε) (hfresh : gateway.pending.get? id = none) (source : RemoteEventDispatch R E) :
      Run typeError (gateway.startRemoteEvent (V := V) typeError id source).1
        (log ++ (gateway.startRemoteEvent typeError id source).2)
  | late {gateway : Gateway δ ε R} {log : Log V E} (before : Run typeError gateway log)
      (reason : E) :
      Run typeError (gateway.rejectLate (V := V) reason).1 (log ++ (gateway.rejectLate reason).2)
  | answer {gateway : Gateway δ ε R} {log : Log V E} (before : Run typeError gateway log)
      (clientId : δ) (eventId : ε) (answer : RemoteEventAnswer V E) :
      Run typeError (gateway.receiveRemoteEventResult clientId eventId answer).1
        (log ++ (gateway.receiveRemoteEventResult clientId eventId answer).2)
  | cancel {gateway : Gateway δ ε R} {log : Log V E} (before : Run typeError gateway log)
      (source : Nat) (reason : E) :
      Run typeError (gateway.cancelRemoteEvent (V := V) source reason).1
        (log ++ (gateway.cancelRemoteEvent source reason).2)
  | close {gateway : Gateway δ ε R} {log : Log V E} (before : Run typeError gateway log)
      (reason : E) :
      Run typeError (gateway.closeRemoteEvents (V := V) reason).1
        (log ++ (gateway.closeRemoteEvents reason).2)

end DshKernel.Gateway.RemoteEvents
