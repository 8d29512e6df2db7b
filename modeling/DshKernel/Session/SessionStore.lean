import DshKernel.Lib.Program
import DshKernel.Session.Event
import Mathlib.Logic.Function.Basic

/-!
# The session store

A session object is entered into the table, announced once, and detached; listeners run in the
middle of an announcement, of an append and of a disposal, and may call any of these again.
-/

namespace DshKernel.Session

open Js Lib

structure SessionObject where
  id : String
  log : List SessionEvent

/-- `SessionEntry`, with the flag of the detach handle that `enter` returns. Entries and session
objects are named by their addresses. -/
structure SessionEntry where
  id : String
  session : Nat
  announced : Bool := false
  announcing : Bool := false
  appending : Bool := false
  detachRequested : Bool := false
  entered : Bool := true

inductive Happening where
  | created (entry : Nat)
  | event (entry seq : Nat)
  | disposed (entry : Nat)
  | detached (entry : Nat)
  deriving DecidableEq

structure SessionStore where
  sessions : List SessionObject := []
  entries : List SessionEntry := []
  store : String → Option Nat := fun _ => none
  attachments : Nat → Option Nat := fun _ => none
  history : List Happening := []

/-- Where listeners run: in an append, in an announcement, or in a disposal. -/
inductive StoreSite where
  | publishing (entry : Nat)
  | announcing (entry : Nat)
  | disposing

inductive StoreError where
  | alreadyExists (id : String)
  | alreadyAttached (id : String)
  | alreadyAnnounced (id : String)
  | notLive
  | reentered
  | rejected (message : String)
  | listener

def StoreError.text : StoreError → String
  | .alreadyExists id => s!"session \"{id}\" already exists"
  | .alreadyAttached id => s!"session \"{id}\" is already attached to a store"
  | .alreadyAnnounced id => s!"session \"{id}\" was already announced"
  | .notLive => "session is not live in this store"
  | .reentered => "session append cannot reenter while another append is being published"
  | .rejected message => message
  | .listener => "listener threw"

abbrev StoreProgram := Program StoreError StoreSite SessionStore

/-- The listeners of a dispatch, each with whether it throws; none when the dispatch throws. -/
abbrev Dispatch := Option (List Bool)

namespace SessionStore

def setEntry (w : SessionStore) (entry : Nat) (change : SessionEntry → SessionEntry) : SessionStore :=
  { w with entries := w.entries.modify entry change }

def record (w : SessionStore) (happening : Happening) : SessionStore :=
  { w with history := w.history ++ [happening] }

/-- `log.push` -/
def push (w : SessionStore) (session : Nat) (event : SessionEvent) : SessionStore :=
  { w with sessions := w.sessions.modify session fun object => { object with log := object.log ++ [event] } }

def flag (w : SessionStore) (entry : Nat) (read : SessionEntry → Bool) : Bool :=
  w.entries[entry]?.any read

/-- The removal of an entry from the table and of its session's attachment. A disposal that is due
begins with it. -/
def remove (w : SessionStore) (entry : Nat) (found : SessionEntry) : SessionStore :=
  { w with
    store := Function.update w.store found.id none
    attachments := Function.update w.attachments found.session none
    history := w.history ++ .detached entry :: if found.announced then [.disposed entry] else [] }

def addEntry (w : SessionStore) (session : Nat) (id : String) : SessionStore :=
  { w with
    entries := w.entries ++ [{ id, session }]
    store := Function.update w.store id (some w.entries.length)
    attachments := Function.update w.attachments session (some w.entries.length) }

end SessionStore

open SessionStore Program

def emitDisposed : Nat → StoreProgram Unit
  | 0 => call .disposing
  | count + 1 => do
    call .disposing
    emitDisposed count

def detachEntered (entry listeners : Nat) : StoreProgram Unit := do
  modify fun w => w.setEntry entry fun found => { found with detachRequested := false }
  let w ← get
  match w.entries[entry]? with
  | none => pure ()
  | some found =>
    if w.store found.id = some entry then
      modify fun w => w.remove entry found
      if found.announced then emitDisposed listeners else pure ()
    else pure ()

/-- The disposer that `enter` returns. -/
def detach (entry listeners : Nat) : StoreProgram Unit := do
  let w ← get
  if w.flag entry SessionEntry.entered then
    modify fun w => w.setEntry entry fun found => { found with entered := false }
    if w.flag entry SessionEntry.announcing || w.flag entry SessionEntry.appending then
      modify fun w => w.setEntry entry fun found => { found with detachRequested := true }
    else detachEntered entry listeners
  else pure ()

def prepare (id : String) (seed : List SessionEvent) : StoreProgram Unit := do
  let w ← get
  if (w.store id).isSome then throw (.alreadyExists id)
  else modify fun w => { w with sessions := w.sessions ++ [⟨id, seed⟩] }

def enter (session : Nat) : StoreProgram Unit := do
  let w ← get
  match w.sessions[session]? with
  | none => throw .notLive
  | some object =>
    if (w.store object.id).isSome then throw (.alreadyExists object.id)
    else if (w.attachments session).isSome then throw (.alreadyAttached object.id)
    else modify fun w => w.addEntry session object.id

def announceLoop (entry : Nat) : List Bool → StoreProgram Bool
  | [] => pure false
  | throws :: rest => do
    modify fun w => w.record (.created entry)
    call (.announcing entry)
    if throws then pure true else announceLoop entry rest

def announceTo (entry : Nat) : Dispatch → StoreProgram Bool
  | none => pure true
  | some callbacks => announceLoop entry callbacks

def finishAnnounce (entry listeners : Nat) : StoreProgram Unit := do
  modify fun w => w.setEntry entry fun found => { found with announcing := false }
  let w ← get
  if w.flag entry SessionEntry.detachRequested && !w.flag entry SessionEntry.appending then
    detachEntered entry listeners
  else pure ()

def announce (session : Nat) (dispatch : Dispatch) (listeners : Nat) : StoreProgram Unit := do
  let w ← get
  match w.attachments session with
  | none => throw .notLive
  | some entry =>
    match w.entries[entry]? with
    | none => throw .notLive
    | some found =>
      if w.store found.id ≠ some entry then throw .notLive
      else if found.announced || found.announcing then throw (.alreadyAnnounced found.id)
      else
        modify fun w => w.setEntry entry fun found => { found with announced := true, announcing := true }
        call (.announcing entry)
        let threw ← announceTo entry dispatch
        finishAnnounce entry listeners
        if threw then throw .listener else pure ()

def publishLoop (entry seq : Nat) : List Bool → StoreProgram Unit
  | [] => pure ()
  | _ :: rest => do
    modify fun w => w.record (.event entry seq)
    call (.publishing entry)
    publishLoop entry seq rest

def finishAppend (entry listeners : Nat) : StoreProgram Unit := do
  modify fun w => w.setEntry entry fun found => { found with appending := false }
  let w ← get
  if w.flag entry SessionEntry.detachRequested && !w.flag entry SessionEntry.announcing then
    detachEntered entry listeners
  else pure ()

/-- `Session.append` with its publication. What it asks of the event is `check`. -/
def publishAppend (check : List SessionEvent → SessionEvent → Except String Unit) (session : Nat)
    (payload : SessionEvent) (dispatch : Dispatch) (listeners : Nat) : StoreProgram Unit := do
  let w ← get
  match w.sessions[session]? with
  | none => throw .notLive
  | some object =>
    let entry := w.attachments session
    if entry.any fun entry => w.flag entry SessionEntry.appending then throw .reentered
    else
      let event := { payload with seq := object.log.length }
      match check object.log event with
      | .error message => throw (.rejected message)
      | .ok () =>
        match entry with
        | none => modify fun w => w.push session event
        | some entry =>
          modify fun w => w.setEntry entry fun found => { found with appending := true }
          call (.publishing entry)
          match dispatch with
          | none =>
            finishAppend entry listeners
            throw .listener
          | some callbacks =>
            modify fun w => w.push session event
            publishLoop entry event.seq callbacks
            finishAppend entry listeners

inductive StoreCall where
  | prepare (id : String) (seed : List SessionEvent)
  | enter (session : Nat)
  | announce (session : Nat) (dispatch : Dispatch) (listeners : Nat)
  | append (session : Nat) (payload : SessionEvent) (dispatch : Dispatch) (listeners : Nat)
  | detach (entry listeners : Nat)

def StoreCall.program (check : List SessionEvent → SessionEvent → Except String Unit) :
    StoreCall → StoreProgram Unit
  | .prepare id seed => Session.prepare id seed
  | .enter session => Session.enter session
  | .announce session dispatch listeners => Session.announce session dispatch listeners
  | .append session payload dispatch listeners => publishAppend check session payload dispatch listeners
  | .detach entry listeners => Session.detach entry listeners

end DshKernel.Session
