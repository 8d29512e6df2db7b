import DshKernel.Js.Json

/-!
# The multiplexed stream client

One physical socket shared by logical streams. The client's methods, the handlers of its sockets and
the continuations of its asynchronous functions are steps in any order. The number of an `open` call
stands for its random id.
-/

namespace DshKernel.Gateway

open Js

inductive ReadyState where
  | connecting
  | «open»
  | closing
  | closed
  deriving DecidableEq, Repr

inductive Failure where
  | carrier (message : String)
  | disposed
  | notStarted
  | aborted
  | encoding
  | remote (code message : String) (details : Json)
  deriving Repr

/-- A `RemoteStreamServerMessage` behind its stream id. -/
inductive Frame where
  | item (value : Option Json)
  | «end»
  | error (code message : String) (details : Json)
  deriving Repr

structure ServerMessage where
  streamId : Nat
  frame : Frame
  deriving Repr

inductive ClientMessage where
  | «open» (streamId : Nat) (endpoint : String) (payload : Json)
  | cancel (streamId : Nat)
  deriving Repr

inductive Outcome where
  | returned
  | threw (failure : Failure)
  deriving Repr

/-- Where an `open` call is: at the promise of `waitForSocket`, pending or settled; in
`inbox.next()`, asleep or woken, or with its result; at a `yield`; or behind its `finally`. -/
inductive Phase where
  | waiting (revision : Nat)
  | connected (socket : Nat)
  | refused (failure : Failure)
  | asleep
  | woken
  | delivering (frame : Frame)
  | failing (failure : Failure)
  | yielded
  | ended (outcome : Outcome)
  deriving Repr

namespace Phase

/-- `this.wake?.()` -/
def wake : Phase → Phase
  | .asleep => .woken
  | phase => phase

def isEnded : Phase → Bool
  | .ended _ => true
  | _ => false

end Phase

/-- The variables of an `open` call with its `StreamInbox`. `items` are what the consumer was given,
and `openedAt` is how much had arrived when the stream was opened. -/
structure Call where
  endpoint : String
  payload : Option Json
  signalAborted : Bool := false
  frames : List Frame := []
  failure : Option Failure := none
  phase : Phase
  carrier : Option Nat := none
  registered : Bool := false
  opened : Bool := false
  terminal : Bool := false
  items : List (Option Json) := []
  openedAt : Nat := 0
  deriving Repr

namespace Call

def push (c : Call) (frame : Frame) : Call :=
  if c.failure.isSome then c else { c with frames := c.frames ++ [frame], phase := c.phase.wake }

def fail (c : Call) (failure : Failure) : Call :=
  if c.failure.isSome then c
  else { c with failure := some failure, frames := [], phase := c.phase.wake }

/-- The loop of `inbox.next()`, to its result or its next wait. -/
def next (c : Call) : Call :=
  match c.frames, c.failure with
  | frame :: rest, _ => { c with frames := rest, phase := .delivering frame }
  | [], some failure => { c with phase := .failing failure }
  | [], none => { c with phase := .asleep }

end Call

/-- The promises of one `connect`: its candidate is connecting, open or refused; `settled` is
when the reactions of `maintain` have run. `followers` wait for that to `maintain`. -/
inductive AttemptStage where
  | connecting
  | opened
  | failed (failure : Failure)
  | settled
  deriving Repr

structure Attempt where
  socket : Nat
  revision : Nat
  stage : AttemptStage
  followers : Nat
  deriving Repr

/-- The fields of the client, and of its surroundings: the sockets that were made and how they
are, what was sent on them, and what has arrived, where `none` is data that does not parse. -/
structure Mux where
  socket : Option Nat := none
  keepAlive : Option Attempt := none
  revision : Nat := 0
  running : Bool := false
  disposed : Bool := false
  calls : Nat → Option Call := fun _ => none
  callCount : Nat := 0
  due : Nat := 0
  readyState : Nat → ReadyState := fun _ => .closed
  socketCount : Nat := 0
  sent : List (Nat × ClientMessage) := []
  arrived : List (Nat × Option ServerMessage) := []

namespace Mux

def mapCalls (m : Mux) (f : Call → Call) : Mux :=
  { m with calls := fun id => (m.calls id).map f }

def setCall (m : Mux) (id : Nat) (c : Call) : Mux :=
  { m with calls := fun other => if other = id then some c else m.calls other }

def setReadyState (m : Mux) (socket : Nat) (readyState : ReadyState) : Mux :=
  { m with readyState := fun other => if other = socket then readyState else m.readyState other }

/-- `this.socket?.readyState === WebSocket.OPEN` -/
def socketOpen (m : Mux) : Bool := m.socket.any fun socket => m.readyState socket == .open

/-- `socket.close()` -/
def closeSocket (m : Mux) (socket : Nat) : Mux :=
  match m.readyState socket with
  | .connecting | .open => m.setReadyState socket .closing
  | _ => m

/-- `socket.send`, which discards the message when the socket is no longer open. -/
def send (m : Mux) (socket : Nat) (message : ClientMessage) : Mux :=
  if m.readyState socket = .open then { m with sent := m.sent ++ [(socket, message)] } else m

def failAll (m : Mux) (failure : Failure) : Mux :=
  m.mapCalls fun c => if c.registered then c.fail failure else c

def resolveWaiters (m : Mux) (socket : Nat) : Mux :=
  m.mapCalls fun c =>
    match c.phase with
    | .waiting _ => { c with phase := .connected socket }
    | _ => c

def rejectWaiters (m : Mux) (which : Nat → Bool) (failure : Failure) : Mux :=
  m.mapCalls fun c =>
    match c.phase with
    | .waiting revision => if which revision then { c with phase := .refused failure } else c
    | _ => c

def lost (m : Mux) (socket : Nat) (failure : Failure) : Mux :=
  if m.socket = some socket then failAll { m with socket := none } failure else m

def rejectCandidate (m : Mux) (failure : Failure) : Mux :=
  match m.keepAlive with
  | some attempt =>
    match attempt.stage with
    | .connecting =>
      closeSocket { m with keepAlive := some { attempt with stage := .failed failure } }
        attempt.socket
    | _ => m
  | none => m

/-- `maintain` with the `connect` that it calls. -/
def maintain (m : Mux) : Mux :=
  if !m.running || m.disposed then m
  else if m.socketOpen || m.keepAlive.isSome then m
  else
    setReadyState
      { m with
        keepAlive := some ⟨m.socketCount, m.revision, .connecting, 0⟩
        socketCount := m.socketCount + 1 }
      m.socketCount .connecting

/-- `maintain` now, or when the current attempt is over. -/
def follow (m : Mux) : Mux :=
  match m.keepAlive with
  | none => m.maintain
  | some attempt => { m with keepAlive := some { attempt with followers := attempt.followers + 1 } }

def start (m : Mux) : Mux :=
  if m.disposed then m
  else if m.socketOpen then { m with running := true }
  else follow { m with running := true }

def reconnectRequested : Failure := .carrier "api gateway: Remote stream reconnect requested"

def dropSocket (m : Mux) (failure : Failure) : Mux :=
  match m.socket with
  | none => m
  | some socket => closeSocket (failAll { m with socket := none } failure) socket

def reconnect (m : Mux) : Mux :=
  if !m.running || m.disposed then m
  else
    follow (dropSocket
      (rejectCandidate { m with revision := m.revision + 1 } reconnectRequested)
      reconnectRequested)

/-- `close`, which disposes the client. -/
def close (m : Mux) : Mux :=
  if m.disposed then m
  else
    let failed := failAll { m with disposed := true, running := false } .disposed
    let rejected := rejectCandidate (rejectWaiters failed (fun _ => true) .disposed) .disposed
    match rejected.socket with
    | none => rejected
    | some socket => closeSocket { rejected with socket := none } socket

/-- `waitForSocket` -/
def waitForSocket (m : Mux) : Phase :=
  match m.socket with
  | some socket =>
    if m.readyState socket = .open then .connected socket
    else if m.disposed then .refused .disposed
    else if !m.running then .refused .notStarted
    else .waiting m.revision
  | none =>
    if m.disposed then .refused .disposed
    else if !m.running then .refused .notStarted
    else .waiting m.revision

/-- `open` up to its first `await`. -/
def openCall (m : Mux) (endpoint : String) (payload : Option Json) (aborted : Bool) : Mux :=
  let phase := if aborted then .ended (.threw .aborted) else m.waitForSocket
  setCall { m with callCount := m.callCount + 1 } m.callCount
    { endpoint, payload, signalAborted := aborted, phase }

/-- The `finally` of `open`. -/
def finish (m : Mux) (id : Nat) (c : Call) (outcome : Outcome) : Mux :=
  let left := m.setCall id { c with registered := false, phase := .ended outcome }
  match c.carrier with
  | some socket =>
    if c.opened && !c.terminal && m.readyState socket == .open then left.send socket (.cancel id)
    else left
  | none => left

/-- `open` behind `waitForSocket`: the stream is registered and asks the server for itself. -/
def register (m : Mux) (id : Nat) (c : Call) (socket : Nat) : Mux :=
  let registered := { c with carrier := some socket, registered := true }
  match c.payload with
  | none => m.finish id registered (.threw .encoding)
  | some payload =>
    (m.send socket (.open id c.endpoint payload)).setCall id
      { registered with opened := true, openedAt := m.arrived.length }.next

/-- The continuation of an `open` call whose promise has settled. -/
def resume (m : Mux) (id : Nat) : Mux :=
  match m.calls id with
  | none => m
  | some c =>
    match c.phase with
    | .connected socket =>
      if c.signalAborted then m.finish id c (.threw .aborted) else m.register id c socket
    | .refused failure => m.finish id c (.threw failure)
    | .woken => m.setCall id c.next
    | .delivering frame =>
      if c.signalAborted then m.finish id c (.threw .aborted)
      else
        match frame with
        | .item value => m.setCall id { c with phase := .yielded, items := c.items ++ [value] }
        | .end => m.finish id { c with terminal := true } .returned
        | .error code message details =>
          m.finish id { c with terminal := true } (.threw (.remote code message details))
    | .failing failure => m.finish id c (.threw failure)
    | _ => m

/-- The consumer asks for more, at a `yield`. -/
def pull (m : Mux) (id : Nat) : Mux :=
  match m.calls id with
  | none => m
  | some c =>
    match c.phase with
    | .yielded => m.setCall id c.next
    | _ => m

/-- The consumer stops, at a `yield`. -/
def stop (m : Mux) (id : Nat) : Mux :=
  match m.calls id with
  | none => m
  | some c =>
    match c.phase with
    | .yielded => m.finish id c .returned
    | _ => m

/-- The signal of a call is aborted; behind the `finally` nothing listens. -/
def abort (m : Mux) (id : Nat) : Mux :=
  match m.calls id with
  | none => m
  | some c =>
    match c.phase with
    | .ended _ => m.setCall id { c with signalAborted := true }
    | .waiting _ =>
      m.setCall id ({ c with signalAborted := true, phase := .refused .aborted }.fail .aborted)
    | _ => m.setCall id ({ c with signalAborted := true }.fail .aborted)

def opened (m : Mux) : Mux :=
  match m.keepAlive with
  | some attempt =>
    match attempt.stage with
    | .connecting =>
      resolveWaiters
        (setReadyState
          { m with
            keepAlive := some { attempt with stage := .opened }
            socket := some attempt.socket }
          attempt.socket .open)
        attempt.socket
    | _ => m
  | none => m

/-- The reactions of `maintain` to the end of its `connect`. -/
def settle (m : Mux) : Mux :=
  match m.keepAlive with
  | some attempt =>
    let settled := { m with keepAlive := some { attempt with stage := .settled } }
    match attempt.stage with
    | .opened => settled
    | .failed failure =>
      if m.running then settled.rejectWaiters (fun revision => revision ≤ attempt.revision) failure
      else settled
    | _ => m
  | none => m

/-- `this.keepAlive = undefined`, after which the followers of the attempt are due. -/
def clear (m : Mux) : Mux :=
  match m.keepAlive with
  | some attempt =>
    match attempt.stage with
    | .settled => { m with keepAlive := none, due := m.due + attempt.followers }
    | _ => m
  | none => m

def runDue (m : Mux) : Mux :=
  if m.due = 0 then m else maintain { m with due := m.due - 1 }

def beginClose (m : Mux) (socket : Nat) : Mux :=
  if m.readyState socket = .open then m.setReadyState socket .closing else m

/-- The `close` event of a socket that has opened. -/
def socketClosed (m : Mux) (socket : Nat) : Mux :=
  if m.readyState socket = .connecting then m
  else (m.setReadyState socket .closed).lost socket
    (.carrier "api gateway: Remote stream WebSocket closed")

/-- The `error` event of a socket that has opened. -/
def socketFailed (m : Mux) (socket : Nat) : Mux :=
  if m.readyState socket = .connecting then m
  else (m.lost socket (.carrier "api gateway: Remote stream WebSocket failed")).closeSocket socket

def receive (m : Mux) (socket : Nat) (data : Option ServerMessage) : Mux :=
  if m.socket ≠ some socket then m
  else
    match data with
    | some message =>
      match m.calls message.streamId with
      | some c => if c.registered then m.setCall message.streamId (c.push message.frame) else m
      | none => m
    | none =>
      let failure := Failure.carrier "api gateway: invalid Remote stream frame"
      ((m.failAll failure).lost socket failure).closeSocket socket

end Mux

/-- What may happen next: calls of the client's methods, continuations, and events of its
sockets. -/
inductive MuxEvent where
  | start
  | reconnect
  | close
  | open (endpoint : String) (payload : Option Json) (aborted : Bool)
  | resume (id : Nat)
  | pull (id : Nat)
  | stop (id : Nat)
  | abort (id : Nat)
  | opened
  | candidateFailed (failure : Failure)
  | settle
  | clear
  | runDue
  | beginClose (socket : Nat)
  | socketClosed (socket : Nat)
  | socketFailed (socket : Nat)
  | message (socket : Nat) (data : Option ServerMessage)

def muxStep (m : Mux) : MuxEvent → Mux
  | .start => m.start
  | .reconnect => m.reconnect
  | .close => m.close
  | .open endpoint payload aborted => m.openCall endpoint payload aborted
  | .resume id => m.resume id
  | .pull id => m.pull id
  | .stop id => m.stop id
  | .abort id => m.abort id
  | .opened => m.opened
  | .candidateFailed failure => m.rejectCandidate failure
  | .settle => m.settle
  | .clear => m.clear
  | .runDue => m.runDue
  | .beginClose socket => m.beginClose socket
  | .socketClosed socket => m.socketClosed socket
  | .socketFailed socket => m.socketFailed socket
  | .message socket data =>
    Mux.receive { m with arrived := m.arrived ++ [(socket, data)] } socket data

def runMux (m : Mux) (events : List MuxEvent) : Mux := events.foldl muxStep m

end DshKernel.Gateway
