import DshKernel.Js.Number
import DshKernel.Lib.Machine
import DshKernel.Lib.History
import DshKernel.Lib.OrderedMap

/-!
# The job registry

The registry calls foreign code in the middle of its operations (the functions and hooks of a job,
and listeners), which may call the registry again: the state has a stack of the calls that are under
way.
-/

namespace DshKernel.Jobs

open Js Lib

structure Agent where
  id : String
  lifecycle : Nat
  deriving DecidableEq

inductive JobStatus where
  | running
  | stopping
  | completed
  | killed
  | failed
  deriving DecidableEq

/-- `isTerminal` -/
def JobStatus.isTerminal : JobStatus → Bool
  | .running | .stopping => false
  | .completed | .killed | .failed => true

structure JobOutcome where
  status : JobStatus
  detail : Option String := none
  output : Option String := none
  terminal : status.isTerminal = true

/-- What `start` is given, but for the run function. -/
structure JobStart where
  kind : String
  label : String
  outputLimitBytes : Option Number := none
  owner : Option Agent := none

structure TrackedTask where
  id : String
  kind : String
  label : String
  outputLimitBytes : Option Number
  owner : Option Agent
  readOutput : Bool
  status : JobStatus := .running
  detail : Option String := none
  output : Option String := none
  reported : Bool := false
  /-- `markSettled` was called. -/
  settled : Bool := false

/-- A call of `wait` on a job that was not over. -/
structure Wait where
  id : Nat
  caller : Option Agent
  ref : Nat
  deriving DecidableEq

structure JobSnapshot where
  id : String
  kind : String
  label : String
  outputLimitBytes : Option Number
  ownerSession : Option String
  status : JobStatus
  detail : Option String
  reported : Bool
  deriving DecidableEq

inductive Frame where
  /-- In `spec.run()`. -/
  | run (spec : JobStart)
  /-- In the listeners of `notifyChanged`. -/
  | changed (owner : Option Agent)
  /-- In the listeners of `settle`. -/
  | announced (ref : Nat)
  /-- In `job.cancel()`, called by `kill` or by a teardown. -/
  | cancel (ref : Nat) (teardown : Bool)
  /-- In `job.readOutput()`. -/
  | readOutput (ref : Nat) (caller : Option Agent)
  /-- The rest of `settle`, after `notifyChanged`. -/
  | finishSettle (ref : Nat) (snapshot : JobSnapshot)
  /-- The rest of the loop of `cancelForTeardown`. -/
  | teardown (refs : List Nat)

def Frame.isForeign : Frame → Bool
  | .finishSettle _ _ | .teardown _ => false
  | _ => true

structure Teardown where
  refs : List Nat
  owner : Option Agent
  whole : Bool

structure LocalJobRegistry where
  /-- All records that were made; the store refers to them by place. -/
  tasks : List TrackedTask := []
  store : List Nat := []
  counters : OrderedMap String Nat := .empty
  ownerCleanups : List Agent := []
  listenersClosed : Bool := false
  stack : List Frame := []
  /-- The `waiters` of all jobs. -/
  waiters : List Wait := []
  /-- The `waitResolvers` of all jobs. -/
  blocked : List Wait := []
  /-- Waits that go on when the stack is empty. -/
  released : List Wait := []
  teardowns : List Teardown := []
  waits : Nat := 0

inductive JobEvent where
  | saw (caller : Option Agent) (snapshot : JobSnapshot)
  /-- A kill was requested, or a teardown claimed the report. -/
  | claimed (ref : Nat)
  | settled (ref : Nat) (waiting : List Wait) (snapshot : JobSnapshot)
  | done (ref : Nat) (snapshot : JobSnapshot)
  /-- The listeners were closed before a settlement reached them. -/
  | silenced (ref : Nat)
  | waiting (wait : Wait)
  | waited (wait : Wait)
  | waitAborted (wait : Wait)

inductive JobAction where
  /-- `served`: a controller serves the owner, and its cleanup could be attached. -/
  | start (spec : JobStart) (served : Bool)
  | runReturns (readOutput : Bool)
  | runThrows
  /-- `list`, for one of the jobs -/
  | list (ref : Nat) (caller : Option Agent)
  | get (id : String) (caller : Option Agent)
  | read (id : String) (caller : Option Agent)
  | readReturns
  | readThrows
  | kill (id : String) (caller : Option Agent)
  | cancelReturns
  | cancelThrows
  | wait (id : String) (timeoutMs : Number) (caller : Option Agent) (aborted : Bool)
  | waitTimesOut (wait : Wait)
  | waitAborts (wait : Wait)
  | waitContinues (wait : Wait)
  /-- The promise of the producer settles. -/
  | settle (ref : Nat) (outcome : JobOutcome)
  | listenersReturn
  /-- The registry goes on with a call that is under way. -/
  | proceed
  | disposeOwned (owner : Agent)
  | disposeAll
  | teardownContinues (index : Nat)

/-- `snapshot` -/
def TrackedTask.snapshot (job : TrackedTask) : JobSnapshot where
  id := job.id
  kind := job.kind
  label := job.label
  outputLimitBytes := job.outputLimitBytes
  ownerSession := job.owner.map Agent.id
  status := job.status
  detail := job.detail
  reported := job.reported

def TrackedTask.settle (job : TrackedTask) (outcome : JobOutcome) (awaited : Bool) : TrackedTask :=
  { job with
    status := outcome.status
    detail := outcome.detail
    output := outcome.output
    reported := job.reported || awaited
    settled := true }

/-- What `assertAccess` lets through. -/
def TrackedTask.allows (job : TrackedTask) (caller : Option Agent) : Bool :=
  match job.owner with
  | none => true
  | some owner => caller.any fun agent => agent.id == owner.id

def TrackedTask.isActive (job : TrackedTask) : Bool := !job.status.isTerminal

/-- `start` refuses other limits. -/
def isOutputLimit : Option Number → Bool
  | none => true
  | some (.integral limit) => limit.isSafe && decide (0 < limit.toInt)
  | some _ => false

def isTimeout : Number → Bool
  | .integral ms => decide (0 < ms.toInt)
  | .fractional bits => decide (bits < 2 ^ 63)
  | _ => false

/-- `` `${kind}-${count}` `` -/
def jobId (kind : String) (count : Nat) : String := kind ++ "-" ++ toString count

namespace LocalJobRegistry

def task? (r : LocalJobRegistry) (ref : Nat) : Option TrackedTask := r.tasks[ref]?

def modify (r : LocalJobRegistry) (ref : Nat) (change : TrackedTask → TrackedTask) :
    LocalJobRegistry :=
  { r with tasks := r.tasks.modify ref change }

def inForeign (r : LocalJobRegistry) : Bool :=
  match r.stack with
  | [] => true
  | frame :: _ => frame.isForeign

/-- `activeTaskCount` -/
def activeTaskCount (r : LocalJobRegistry) (owner : Option Agent) : Nat :=
  r.store.countP fun ref => (r.task? ref).any fun job => job.owner == owner && job.isActive

/-- `expect`, and `assertAccess` -/
def access (r : LocalJobRegistry) (id : String) (caller : Option Agent) : Option (Nat × TrackedTask) :=
  match r.store.find? fun ref => (r.task? ref).any fun job => job.id == id with
  | none => none
  | some ref =>
    match r.task? ref with
    | none => none
    | some job => if job.allows caller then some (ref, job) else none

/-- `ensureOwnerCleanup`, which has one cleanup for each owner. -/
def ensureOwnerCleanup (r : LocalJobRegistry) : Option Agent → LocalJobRegistry
  | none => r
  | some owner =>
    if r.ownerCleanups.contains owner then r
    else { r with ownerCleanups := r.ownerCleanups ++ [owner] }

/-- `job.reported = true` -/
def report (r : LocalJobRegistry) (ref : Nat) : LocalJobRegistry :=
  r.modify ref fun job => { job with reported := true }

/-- `start`, after the run function. -/
def register (r : LocalJobRegistry) (spec : JobStart) (readOutput : Bool) : LocalJobRegistry :=
  let count := (r.counters.get? spec.kind).getD 0 + 1
  { r with
    counters := r.counters.set spec.kind count
    tasks := r.tasks ++ [{
      id := jobId spec.kind count
      kind := spec.kind
      label := spec.label
      outputLimitBytes := spec.outputLimitBytes
      owner := spec.owner
      readOutput }]
    store := r.store ++ [r.tasks.length] }

/-- `settle` up to `notifyChanged`, for a job that is not over. -/
def settle (r : LocalJobRegistry) (ref : Nat) (job : TrackedTask) (outcome : JobOutcome) :
    LocalJobRegistry × List JobEvent :=
  let waiting := r.waiters.filter fun wait => wait.ref == ref
  let record := job.settle outcome !waiting.isEmpty
  ({ r with
      tasks := r.tasks.set ref record
      blocked := r.blocked.filter fun wait => wait.ref != ref
      released := r.released ++ r.blocked.filter fun wait => wait.ref == ref
      stack := .changed job.owner :: .finishSettle ref record.snapshot :: r.stack },
    [.settled ref waiting record.snapshot])

def observe (r : LocalJobRegistry) (ref : Nat) (job : TrackedTask) (caller : Option Agent) :
    LocalJobRegistry × List JobEvent :=
  if job.status.isTerminal then (r.report ref, [.saw caller { job with reported := true }.snapshot])
  else (r, [.saw caller job.snapshot])

def step (cap : Nat) (r : LocalJobRegistry) : JobAction → Option (LocalJobRegistry × List JobEvent)
  | .start spec served =>
    if !r.inForeign then none
    else if !served || spec.kind.isEmpty || spec.label.isEmpty || !isOutputLimit spec.outputLimitBytes then
      some (r, [])
    else
      let attached := r.ensureOwnerCleanup spec.owner
      if cap ≤ r.activeTaskCount spec.owner then some (attached, [])
      else some ({ attached with stack := .run spec :: r.stack }, [])
  | .runReturns readOutput =>
    match r.stack with
    | .run spec :: rest =>
      some ({ r.register spec readOutput with stack := .changed spec.owner :: rest }, [])
    | _ => none
  | .runThrows =>
    match r.stack with
    | .run _ :: rest => some ({ r with stack := rest }, [])
    | _ => none
  | .list ref caller =>
    if !r.inForeign || !r.store.contains ref then none
    else
      match r.task? ref with
      | none => none
      | some job => if job.allows caller then some (r, [.saw caller job.snapshot]) else none
  | .get id caller =>
    if !r.inForeign then none
    else
      match r.access id caller with
      | none => some (r, [])
      | some (_, job) => some (r, [.saw caller job.snapshot])
  | .read id caller =>
    if !r.inForeign then none
    else
      match r.access id caller with
      | none => some (r, [])
      | some (ref, job) =>
        if job.readOutput then some ({ r with stack := .readOutput ref caller :: r.stack }, [])
        else some (r.observe ref job caller)
  | .readReturns =>
    match r.stack with
    | .readOutput ref caller :: rest =>
      match r.task? ref with
      | none => none
      | some job => some ({ r with stack := rest }.observe ref job caller)
    | _ => none
  | .readThrows =>
    match r.stack with
    | .readOutput _ _ :: rest => some ({ r with stack := rest }, [])
    | _ => none
  | .kill id caller =>
    if !r.inForeign then none
    else
      match r.access id caller with
      | none => some (r, [])
      | some (ref, job) =>
        if job.status.isTerminal then some (r.observe ref job caller)
        else some ({ r with stack := .cancel ref false :: r.stack }, [.saw caller job.snapshot])
  | .cancelReturns =>
    match r.stack with
    | .cancel ref teardown :: rest =>
      match r.task? ref with
      | none => none
      | some job =>
        let stopped := { r with stack := .changed job.owner :: rest }.modify ref fun job =>
          { job with status := .stopping }
        -- A teardown claimed the report before it called the hook.
        if teardown then some (stopped, []) else some (stopped.report ref, [.claimed ref])
    | _ => none
  | .cancelThrows =>
    match r.stack with
    | .cancel ref teardown :: rest =>
      match r.task? ref with
      | none => none
      | some job =>
        if !teardown || job.status.isTerminal then some ({ r with stack := rest }, [])
        else
          some ({ r with stack := rest }.settle ref job
            { status := .failed, detail := some "cancel threw during teardown; work may be orphaned",
              terminal := rfl })
    | _ => none
  | .wait id timeoutMs caller aborted =>
    if !r.inForeign then none
    else
      match r.access id caller with
      | none => some (r, [])
      | some (ref, job) =>
        if !isTimeout timeoutMs then some (r, [])
        else if job.status.isTerminal then some (r.observe ref job caller)
        else if aborted then some (r, [])
        else
          let wait : Wait := ⟨r.waits, caller, ref⟩
          some ({ r with
              waiters := r.waiters ++ [wait]
              blocked := r.blocked ++ [wait]
              waits := r.waits + 1 }, [.waiting wait])
  | .waitTimesOut wait =>
    if !r.inForeign || !r.blocked.contains wait then none
    else
      some ({ r with
          blocked := r.blocked.erase wait
          released := r.released ++ [wait] }, [])
  | .waitAborts wait =>
    if !r.inForeign || !r.blocked.contains wait then none
    else
      some ({ r with
          waiters := r.waiters.erase wait
          blocked := r.blocked.erase wait }, [.waitAborted wait])
  | .waitContinues wait =>
    if !r.stack.isEmpty || !r.released.contains wait then none
    else
      match r.task? wait.ref with
      | none => none
      | some job =>
        let ended := { r with waiters := r.waiters.erase wait, released := r.released.erase wait }
        let (observed, seen) := ended.observe wait.ref job wait.caller
        some (observed, .waited wait :: seen)
  | .settle ref outcome =>
    if !r.stack.isEmpty then none
    else
      match r.task? ref with
      | none => none
      | some job => if job.status.isTerminal then some (r, []) else some (r.settle ref job outcome)
  | .listenersReturn =>
    match r.stack with
    | .changed _ :: rest | .announced _ :: rest => some ({ r with stack := rest }, [])
    | _ => none
  | .proceed =>
    match r.stack with
    | .finishSettle ref snapshot :: rest =>
      if r.listenersClosed then some ({ r with stack := rest }, [.silenced ref])
      else some ({ r with stack := .announced ref :: rest }, [.done ref snapshot])
    | .teardown [] :: rest => some ({ r with stack := rest }, [])
    | .teardown (ref :: refs) :: rest =>
      match r.task? ref with
      | none => none
      | some job =>
        if job.status.isTerminal then some ({ r with stack := .teardown refs :: rest }, [])
        else
          some ({ r.report ref with stack := .cancel ref true :: .teardown refs :: rest },
            [.claimed ref])
    | _ => none
  | .disposeOwned owner =>
    if !r.inForeign || !r.ownerCleanups.contains owner then none
    else
      let refs := r.store.filter fun ref => (r.task? ref).any fun job => job.owner == some owner
      some ({ r with
          ownerCleanups := r.ownerCleanups.filter (· ≠ owner)
          teardowns := r.teardowns ++ [⟨refs, some owner, false⟩]
          stack := .teardown refs :: r.stack }, [])
  | .disposeAll =>
    if !r.inForeign then none
    else
      some ({ r with
          listenersClosed := true
          teardowns := r.teardowns ++ [⟨r.store, none, true⟩]
          stack := .teardown r.store :: r.stack }, [])
  | .teardownContinues index =>
    if !r.stack.isEmpty then none
    else
      match r.teardowns[index]? with
      | none => none
      | some teardown =>
        if teardown.refs.all fun ref => (r.task? ref).any (·.settled) then
          some ({ r with
              store := if teardown.whole then [] else r.store.filter (· ∉ teardown.refs)
              teardowns := r.teardowns.eraseIdx index
              stack := if teardown.refs.isEmpty then [] else [.changed teardown.owner] }, [])
        else none

end LocalJobRegistry

end DshKernel.Jobs
