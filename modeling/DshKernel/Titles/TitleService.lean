import DshKernel.Titles.TitleLog

/-!
# The title service

The service titles the sessions of a store: it appends fallbacks, runs the one registered provider,
and takes the titles that a user gives. What is suspended is kept as tasks, which go on in any
order; a synchronous call that aborts work goes on as a task of its own.

Sessions, works, calls, fallbacks and registrations are told apart by their position in a list.
Other listeners of the store append no titles, and a session that has left it does not come back.
-/

namespace DshKernel.Titles

open Js

inductive SessionTitleAutomaticMode where
  | firstPrompt
  | allPrompts
  deriving DecidableEq, Repr

structure ProviderRegistration where
  id : String
  automatic : SessionTitleAutomaticMode
  closing : Bool := false

structure PendingAutomaticWork where
  registration : Nat
  revision : Nat
  throughSeq : Nat
  deriving DecidableEq, Repr

structure ActiveProviderWork extends PendingAutomaticWork where
  aborted : Bool := false
  /-- Whether the signal of the caller is aborted, where there is one. -/
  upstream : Option Bool := none

structure SessionTitleWorkState where
  session : Nat
  revision : Nat := 0
  fallback : Option Nat := none
  pending : Option PendingAutomaticWork := none
  active : Option Nat := none

/-- How far the publication of an append has come: to the listener of the service, into the call of
`onUserMessage`, or past it. -/
inductive Publishing where
  | committed
  | scheduling (state registration throughSeq : Nat)
  | delivered
  deriving DecidableEq, Repr

structure TitledSession where
  isChild : Bool
  log : List SessionEvent
  live : Bool := true
  publishing : Option Publishing := none
  /-- The state in the map of the service. -/
  state : Option Nat := none

abbrev FallbackPromise := Option Bool

inductive Continuation where
  | ignore
  | generate (work : Nat) (route : Option Route)
  deriving DecidableEq, Repr

inductive Task where
  | deferredFallback (session : Nat)
  | deferredStart (session state : Nat) (pending : PendingAutomaticWork) (route : Route)
  | run (session work : Nat) (route : Option Route)
  | fallback (promise session : Nat) (title : String) (firstSeq : Nat)
  | waiting (promise : Nat) (creator : Option Nat) (session : Nat) (next : Continuation)
  | generate (session work : Nat) (route : Option Route)
  | generating (session work : Nat) (messages : List SessionTitleUserMessage) (route : Option Route)
  | finishing (session work : Nat)
  | rename (session state : Nat) (title : String)
  | refresh (session state registration throughSeq : Nat) (upstream : Bool)
  deriving DecidableEq, Repr

structure TitleService where
  fiberActive : Bool := true
  lifetimeAborted : Bool := false
  registration : Option Nat := none
  registrations : List ProviderRegistration := []
  sessions : List TitledSession := []
  states : List SessionTitleWorkState := []
  works : List ActiveProviderWork := []
  fallbacks : List FallbackPromise := []
  tasks : List Task := []

namespace TitleService

section Access

variable (w : TitleService) (session state work : Nat)

def serviceActive : Bool := !w.lifetimeAborted && w.fiberActive

def isLive : Bool := w.sessions[session]?.any (·.live)

def log : List SessionEvent := (w.sessions[session]?.map (·.log)).getD []

/-- `this.work.get(session)` -/
def work? : Option Nat := w.sessions[session]?.bind (·.state)

def pending? : Option PendingAutomaticWork := w.states[state]?.bind (·.pending)

def active? : Option Nat := w.states[state]?.bind (·.active)

def revision : Nat := (w.states[state]?.map (·.revision)).getD 0

def isStored : Bool := w.sessions.any (·.state == some state)

def isClosing (registration : Nat) : Bool := w.registrations[registration]?.any (·.closing)

/-- `work.signal.aborted` -/
def isAborted : Bool :=
  w.lifetimeAborted || w.works[work]?.any fun work => work.aborted || work.upstream.getD false

end Access

section Updates

variable (w : TitleService)

def modifySession (session : Nat) (change : TitledSession → TitledSession) : TitleService :=
  { w with sessions := w.sessions.modify session change }

def modifyState (state : Nat) (change : SessionTitleWorkState → SessionTitleWorkState) : TitleService :=
  { w with states := w.states.modify state change }

def spawn (task : Task) : TitleService := { w with tasks := w.tasks ++ [task] }

def leave (task : Task) : TitleService := { w with tasks := w.tasks.erase task }

/-- `controller.abort()` of the active work of a state -/
def abortActive (state : Nat) : TitleService :=
  match w.active? state with
  | none => w
  | some work => { w with works := w.works.modify work fun work => { work with aborted := true } }

/-- `stateFor`, which makes the state where there is none. -/
def stateFor (session : Nat) : TitleService × Nat :=
  match w.work? session with
  | some state => (w, state)
  | none =>
    ({ w with states := w.states ++ [{ session := session : SessionTitleWorkState }] }.modifySession session fun found =>
        { found with state := some w.states.length },
      w.states.length)

/-- The rest of `supersede`, after the abort. -/
def supersede (state : Nat) : TitleService :=
  w.modifyState state fun found => { found with pending := none, revision := found.revision + 1 }

/-- `activate` and `startProvider` -/
def activate (session state : Nat) (pending : PendingAutomaticWork) (upstream : Option Bool)
    (route : Option Route) : TitleService :=
  let work : ActiveProviderWork := { toPendingAutomaticWork := pending, upstream }
  ({ w with works := w.works ++ [work] }.modifyState state fun found =>
    { found with active := some w.works.length }).spawn (.run session w.works.length route)

/-- `session.append`, which the store refuses while another append is published, or when a listener
of its dispatch does. -/
def append (session : Nat) (event : SessionEvent) (admitted : Bool) : Option TitleService :=
  match w.sessions[session]? with
  | none => none
  | some found =>
    if found.live = false then some (w.modifySession session fun found =>
      { found with log := found.log ++ [event] })
    else if found.publishing.isSome || !admitted then none
    else some (w.modifySession session fun found =>
      { found with log := found.log ++ [event], publishing := some .committed })

def setPublishing (session : Nat) (publishing : Option Publishing) : TitleService :=
  w.modifySession session fun found => { found with publishing }

end Updates

section Calls

variable (config : Config) (w : TitleService)

/-- `assertCurrent` -/
def isCurrent (session work : Nat) : Bool :=
  w.serviceActive && !w.isAborted work &&
    match w.works[work]?, w.work? session with
    | some found, some state =>
      w.registration == some found.registration && w.active? state == some work &&
        w.revision state == found.revision && w.isLive session
    | _, _ => false

/-- How `ensureFallback` goes on: its promise, with the state it belongs to where it is new. -/
inductive Ensured where
  | threw
  | returned
  | awaits (promise : Nat) (creator : Option Nat)

def ensureFallback (session : Nat) : TitleService × Ensured :=
  if !w.serviceActive then (w, .threw)
  else if (foldSessionTitle (w.log session)).isSome then (w, .returned)
  else
    match (titleInputOf (w.log session)).first with
    | none => (w, .returned)
    | some first =>
      let title := fallbackTitle config first
      if title = "" then (w, .returned)
      else
        let (w, state) := w.stateFor session
        match w.states[state]?.bind (·.fallback) with
        | some promise => (w, .awaits promise none)
        | none =>
          let promise := w.fallbacks.length
          (({ w with fallbacks := w.fallbacks ++ [none] }.modifyState state fun found =>
            { found with fallback := some promise }).spawn (.fallback promise session title first.seq),
            .awaits promise (some state))

def proceed (session : Nat) (fulfilled : Bool) : Continuation → TitleService
  | .ignore => w
  | .generate work route =>
    if fulfilled then w.spawn (.generate session work route) else w.spawn (.finishing session work)

/-- `await this.ensureFallback(session)` -/
def awaitFallback (session : Nat) (next : Continuation) : TitleService :=
  match w.ensureFallback config session with
  | (w, .threw) => w.proceed session false next
  | (w, .returned) => w.proceed session true next
  | (w, .awaits promise creator) => w.spawn (.waiting promise creator session next)

/-- `startPending` -/
def startPending (session state : Nat) (pending : PendingAutomaticWork) (route : Route) : TitleService :=
  (w.modifyState state fun found => { found with pending := none }).spawn
    (.deferredStart session state pending route)

def schedules (session : Nat) : Option Nat := do
  let registration ← w.registration
  let found ← w.registrations[registration]?
  let isChild := w.sessions[session]?.any (·.isChild)
  let isFirst := !isChild && (titleInputOf (w.log session)).count == 1 &&
    (foldSessionTitle (w.log session)).isNone
  if !found.closing && (found.automatic == .allPrompts || isFirst) then some registration else none

/-- `onUserMessage`, up to the abort of older work -/
def onUserMessage (session seq : Nat) (event : SessionEvent) : TitleService :=
  if !w.serviceActive || (sessionTitleUserMessageOf seq event).isNone || isUserTitled (w.log session) then
    w.setPublishing session (some .delivered)
  else
    match w.schedules session with
    | some registration =>
      let (w, state) := w.stateFor session
      (w.abortActive state).setPublishing session (some (.scheduling state registration seq))
    | none => (w.setPublishing session (some .delivered)).spawn (.deferredFallback session)

def onRequestHeader (session seq : Nat) (route : Route) : TitleService :=
  let w := w.setPublishing session (some .delivered)
  match w.work? session with
  | none => w
  | some state =>
    match w.pending? state with
    | none => w
    | some pending =>
      if !w.serviceActive || decide (seq ≤ pending.throughSeq) then w
      else w.startPending session state pending route

/-- The listener of `session/event` -/
def deliver (session : Nat) : TitleService :=
  let seq := (w.log session).length - 1
  match (w.log session).getLast? with
  | some (.userMessage sourceKind content) => w.onUserMessage session seq (.userMessage sourceKind content)
  | some (.requestHeader route) => w.onRequestHeader session seq route
  | _ => w.setPublishing session (some .delivered)

/-- The rest of `onUserMessage`, after the abort -/
def schedule (session state registration throughSeq : Nat) : TitleService :=
  let w := w.supersede state
  let w := w.modifyState state fun found =>
    { found with pending := some ⟨registration, found.revision, throughSeq⟩ }
  (w.setPublishing session (some .delivered)).spawn (.deferredFallback session)

def onMainRequest (session : Nat) (route : Route) : TitleService :=
  match w.work? session with
  | none => w
  | some state =>
    match w.pending? state with
    | none => w
    | some pending =>
      if w.serviceActive && w.isLive session &&
          (openStep (w.log session)).any (pending.throughSeq < ·) &&
          requestRoute (w.log session) == some route then
        w.startPending session state pending route
      else w

def rename (session : Nat) (title : String) : TitleService :=
  let normalized := normalizeSessionTitle title config.maxTitleBytes
  if !w.serviceActive || !w.isLive session || normalized == "" then w
  else
    let (w, state) := w.stateFor session
    (w.abortActive state).spawn (.rename session state normalized)

/-- `refresh`, for whether there is a signal of the caller and whether it is aborted -/
def refresh (session : Nat) (upstream : Option Bool) (admitted : Bool) : TitleService :=
  if upstream.getD false || !w.serviceActive || !w.isLive session then w
  else
    let input := titleInputOf (w.log session)
    match w.registration.filter (fun registration => !w.isClosing registration), input.lastSeq with
    | some registration, some lastSeq =>
      let (w, state) := w.stateFor session
      (w.abortActive state).spawn (.refresh session state registration lastSeq upstream.isSome)
    | _, _ =>
      match input.first with
      | some first =>
        if isUserTitled (w.log session) then
          let title := fallbackTitle config first
          if title = "" then w
          else (w.append session (.title ⟨title, [first.seq], .fallback⟩) admitted).getD w
        else w.awaitFallback config session .ignore
      | none => w.awaitFallback config session .ignore

def disposeProvider (registration : Nat) : TitleService :=
  { w with
    registrations := w.registrations.modify registration fun found => { found with closing := true }
    states := w.states.mapIdx fun state found =>
      if w.isStored state && found.pending.any (·.registration == registration) then
        { found with pending := none }
      else found
    works := w.works.mapIdx fun work found =>
      if found.registration == registration &&
          w.sessions.any (fun found => found.state.bind w.active? == some work) then
        { found with aborted := true }
      else found }

def dispose : TitleService :=
  { w with
    lifetimeAborted := true
    registration := none
    registrations := w.registrations.mapIdx fun registration found =>
      if w.registration = some registration then { found with closing := true } else found
    states := w.states.mapIdx fun state found =>
      if w.isStored state then { found with pending := none } else found }

/-- The listener of `session/disposed` -/
def onDisposed (session : Nat) : TitleService :=
  match w.work? session with
  | none => w
  | some state => (w.abortActive state).modifySession session fun found => { found with state := none }

end Calls

section Tasks

variable (config : Config) (w : TitleService)

def settle (promise : Nat) (fulfilled : Bool) : TitleService :=
  { w with fallbacks := w.fallbacks.set promise (some fulfilled) }

def commitFallback (promise session : Nat) (title : String) (firstSeq : Nat) (admitted : Bool) :
    TitleService :=
  if !w.serviceActive || !w.isLive session then w.settle promise false
  else if (foldSessionTitle (w.log session)).isSome then w.settle promise true
  else
    match w.append session (.title ⟨title, [firstSeq], .fallback⟩) admitted with
    | none => w.settle promise false
    | some after => after.settle promise true

def commitResult (session work : Nat) (messages : List SessionTitleUserMessage)
    (outcome : Option (Option Json)) (admitted : Bool) : TitleService :=
  let w := w.spawn (.finishing session work)
  match outcome, w.works[work]? with
  | some result, some found =>
    if w.isCurrent session work then
      let id := (w.registrations[found.registration]?.map (·.id)).getD ""
      match validateResult config id messages result with
      | .error _ => w
      | .ok data => (w.append session (.title data) admitted).getD w
    else w
  | _, _ => w

def resume (admitted : Bool) (outcome : Option (Option Json)) : Task → TitleService
  | .deferredFallback session =>
    if w.serviceActive then w.awaitFallback config session .ignore else w
  | .deferredStart session state pending route =>
    if w.serviceActive && w.registration == some pending.registration &&
        !w.isClosing pending.registration && w.work? session == some state &&
        w.revision state == pending.revision then
      w.activate session state pending none (some route)
    else w
  | .run session work route =>
    if w.isCurrent session work then w.awaitFallback config session (.generate work route)
    else w.spawn (.finishing session work)
  | .fallback promise session title firstSeq => w.commitFallback promise session title firstSeq admitted
  | .waiting promise creator session next =>
    let w := match creator with
      | some state => w.modifyState state fun found => { found with fallback := none }
      | none => w
    w.proceed session ((w.fallbacks[promise]?.bind id).getD false) next
  | .generate session work route =>
    if w.isCurrent session work then
      let throughSeq := (w.works[work]?.map (·.throughSeq)).getD 0
      w.spawn (.generating session work (collectSessionTitleMessages (w.log session) throughSeq) route)
    else w.spawn (.finishing session work)
  | .generating session work messages _ => w.commitResult config session work messages outcome admitted
  | .finishing session work =>
    match w.work? session with
    | none => w
    | some state =>
      w.modifyState state fun found =>
        if found.active = some work then { found with active := none } else found
  | .rename session state title =>
    let w := w.supersede state
    (w.append session (.title ⟨title, [], .user⟩) admitted).getD w
  | .refresh session state registration throughSeq upstream =>
    let w := w.supersede state
    w.activate session state ⟨registration, w.revision state, throughSeq⟩
      (if upstream then some false else none) (requestRoute (w.log session))

def isReady : Task → Bool
  | .waiting promise _ _ _ => (w.fallbacks[promise]?.bind id).isSome
  | _ => true

def registrationOf (task : Task) : Option Nat :=
  let work? := match task with
    | .run _ work _ => some work
    | .waiting _ _ _ (.generate work _) => some work
    | .generate _ work _ => some work
    | .generating _ work _ _ => some work
    | .finishing _ work => some work
    | _ => none
  work?.bind fun work => w.works[work]?.map (·.registration)

end Tasks

end TitleService

inductive Action where
  | enter (log : List SessionEvent) (isChild : Bool)
  | detach (session : Nat)
  | disposed (session : Nat)
  | append (session : Nat) (event : SessionEvent) (admitted : Bool)
  | deliver (session : Nat)
  | schedule (session : Nat)
  | published (session : Nat)
  | mainRequest (session : Nat) (route : Route)
  | register (id : String) (automatic : SessionTitleAutomaticMode)
  | disposeProvider (registration : Nat)
  | drained (registration : Nat)
  | fiber (active : Bool)
  | dispose
  | clear
  | cancel (work : Nat)
  | rename (session : Nat) (title : String)
  | refresh (session : Nat) (upstream : Option Bool) (admitted : Bool)
  | resume (task : Task) (admitted : Bool) (outcome : Option (Option Json))

namespace TitleService

def step (config : Config) (w : TitleService) : Action → TitleService
  | .enter log isChild => { w with sessions := w.sessions ++ [{ isChild, log }] }
  | .detach session =>
    w.modifySession session fun found =>
      if found.publishing = none then { found with live := false } else found
  | .disposed session => if w.isLive session then w else w.onDisposed session
  | .append session event admitted =>
    if event.title?.isSome then w else (w.append session event admitted).getD w
  | .deliver session =>
    if w.sessions[session]?.any (·.publishing == some .committed) then w.deliver session else w
  | .schedule session =>
    match w.sessions[session]?.bind (·.publishing) with
    | some (.scheduling state registration throughSeq) => w.schedule session state registration throughSeq
    | _ => w
  | .published session =>
    w.modifySession session fun found =>
      if found.publishing = some .delivered then { found with publishing := none } else found
  | .mainRequest session route => w.onMainRequest session route
  | .register id automatic =>
    if w.registration = none then
      { w with
        registration := some w.registrations.length
        registrations := w.registrations ++ [{ id, automatic }] }
    else w
  | .disposeProvider registration => w.disposeProvider registration
  | .drained registration =>
    if w.isClosing registration && w.registration == some registration &&
        w.tasks.all (w.registrationOf · != some registration) then
      { w with registration := none }
    else w
  | .fiber active => { w with fiberActive := active }
  | .dispose => w.dispose
  | .clear =>
    if w.lifetimeAborted then { w with sessions := w.sessions.map fun found => { found with state := none } }
    else w
  | .cancel work =>
    { w with works := w.works.modify work fun found => { found with upstream := found.upstream.map fun _ => true } }
  | .rename session title => w.rename config session title
  | .refresh session upstream admitted => w.refresh config session upstream admitted
  | .resume task admitted outcome =>
    if task ∈ w.tasks && w.isReady task then (w.leave task).resume config admitted outcome task else w

def run (config : Config) (w : TitleService) (actions : List Action) : TitleService :=
  actions.foldl (step config) w

end TitleService

end DshKernel.Titles
