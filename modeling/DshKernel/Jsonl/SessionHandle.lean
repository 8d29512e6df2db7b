import DshKernel.Lib.Machine
import DshKernel.Session.Event

/-!
# The handle of a session

The explicit appends and the routed live events of a session are written on one chain of operations.
An operation of the storage takes effect or leaves alone what is stored; its moment is open.
-/

namespace DshKernel.Jsonl

open Lib Session List

inductive HandleOperation where
  | append (batch : List SessionEvent)
  | flush
  | drain

def HandleOperation.isDrain : HandleOperation → Bool
  | .drain => true
  | _ => false

/-- The operation that waits for the storage. The batch of a live one was taken from the buffer. -/
inductive HandleWrite where
  | batch (live : Bool) (events : List SessionEvent)
  | header

@[simp] def HandleWrite.taken : HandleWrite → List SessionEvent
  | .batch true events => events
  | _ => []

@[simp] def HandleWrite.isLive : HandleWrite → Bool
  | .batch live _ => live
  | .header => false

/-- `draining`: its turn is queued or writes, its turn is over, or only `finally` is left of it. -/
inductive Draining where
  | turn
  | looks
  | settled (succeeds : Bool)
  deriving DecidableEq

/-- A caller of the drain: what was routed before the call, and whether the drain had settled. -/
structure DrainCaller where
  routed : List SessionEvent
  late : Bool

/-- A write handle, and what is stored. Beside it stand what was written, all of it and the live events,
what was routed to it, and who waits for the drain. -/
structure JsonlSessionHandle where
  stored : List SessionEvent
  cursor : Nat
  materialized : Bool
  tornTail : Bool
  recoveredTail : Option (List SessionEvent)
  buffered : List SessionEvent := []
  batchTimer : Bool := false
  drainPaused : Bool := false
  draining : Option Draining := none
  chain : List HandleOperation := []
  writing : Option HandleWrite := none
  closing : Bool := false
  written : List SessionEvent := []
  writtenLive : List SessionEvent := []
  routed : List SessionEvent := []
  waiting : List DrainCaller := []

structure Drained where
  succeeds : Bool
  waiting : List DrainCaller
  writtenLive : List SessionEvent

inductive HandleAction where
  | append (batch : List SessionEvent)
  | flush
  | close
  | enqueueLive (event : SessionEvent)
  | timer
  | drainLive
  | start (refused : Bool)
  | storage (succeeds : Bool)
  | look
  | clear

def assertContiguous : Nat → List SessionEvent → Bool
  | _, [] => true
  | cursor, event :: rest => event.seq == cursor && assertContiguous (cursor + 1) rest

namespace JsonlSessionHandle

/-- A handle that was opened on a stored log, some of which may be left to be rewritten. -/
def opened (stored : List SessionEvent) (materialized tornTail : Bool)
    (recoveredTail : Option (List SessionEvent)) : JsonlSessionHandle :=
  { stored, materialized, tornTail, recoveredTail
    cursor := (stored ++ recoveredTail.getD []).length }

def finish (h : JsonlSessionHandle) (live : Bool) : JsonlSessionHandle :=
  { h with writing := none, draining := if live then some .looks else h.draining }

def giveUp (h : JsonlSessionHandle) (live : Bool) (batch : List SessionEvent) : JsonlSessionHandle :=
  if live then
    { h with
      writing := none, buffered := batch ++ h.buffered, drainPaused := true
      draining := some (.settled false) }
  else { h with writing := none }

/-- `persistContiguous`, up to its first operation of the storage. -/
def begin (h : JsonlSessionHandle) (live : Bool) (batch : List SessionEvent) (refused : Bool) :
    JsonlSessionHandle :=
  if refused then h.giveUp live batch
  else if batch.isEmpty then h.finish live
  else if assertContiguous h.cursor batch then { h with writing := some (.batch live batch) }
  else h.giveUp live batch

def startOperation (h : JsonlSessionHandle) (refused : Bool) : HandleOperation → JsonlSessionHandle
  | .append batch => h.begin false batch (refused || h.closing)
  | .flush =>
    if refused || h.closing || h.materialized then h else { h with writing := some .header }
  | .drain => { h with buffered := [] }.begin true h.buffered refused

def extend (h : JsonlSessionHandle) (live : Bool) (batch : List SessionEvent) : JsonlSessionHandle :=
  { h with
    recoveredTail := none, stored := h.stored ++ batch, materialized := true
    cursor := h.cursor + batch.length, written := h.written ++ batch
    writtenLive := h.writtenLive ++ if live then batch else [] }

/-- An operation of the storage settles: a torn tail is truncated first, then the events recovered
from it are written, then the batch. -/
def storageSettles (h : JsonlSessionHandle) (succeeds : Bool) : HandleWrite → JsonlSessionHandle
  | .header => { h with writing := none, materialized := h.materialized || succeeds }
  | .batch live batch =>
    match h.tornTail, h.recoveredTail.getD [] with
    | true, _ => if succeeds then { h with tornTail := false } else h.giveUp live batch
    | false, event :: rest =>
      if succeeds then { h with stored := h.stored ++ event :: rest, recoveredTail := none }
      else h.giveUp live batch
    | false, [] =>
      if succeeds then (h.extend live batch).finish live
      else { h with recoveredTail := none }.giveUp live batch

def lookAtBuffer (h : JsonlSessionHandle) : JsonlSessionHandle :=
  if h.buffered.isEmpty then { h with draining := some (.settled true) }
  else { h with draining := some .turn, chain := h.chain ++ [.drain] }

def isSettled (h : JsonlSessionHandle) : Bool :=
  match h.draining with
  | some (.settled _) => true
  | _ => false

def drainLive (h : JsonlSessionHandle) : JsonlSessionHandle :=
  let called := { h with waiting := h.waiting ++ [⟨h.routed, h.isSettled⟩] }
  if h.draining.isSome then called
  else { called with batchTimer := false, drainPaused := false }.lookAtBuffer

def queue (h : JsonlSessionHandle) (operation : HandleOperation) : JsonlSessionHandle :=
  if h.closing then h else { h with chain := h.chain ++ [operation] }

def enqueueLive (h : JsonlSessionHandle) (event : SessionEvent) : JsonlSessionHandle :=
  { h with
    buffered := h.buffered ++ [event], routed := h.routed ++ [event]
    batchTimer := h.batchTimer || !h.drainPaused }

def step (h : JsonlSessionHandle) : HandleAction → Option (JsonlSessionHandle × List Drained)
  | .append batch => some (h.queue (.append batch), [])
  | .flush => some (h.queue .flush, [])
  | .close => some (if h.closing then h else { h with closing := true }.drainLive, [])
  | .enqueueLive event => some (h.enqueueLive event, [])
  | .timer => if h.batchTimer then some ({ h with batchTimer := false }.drainLive, []) else none
  | .drainLive => some (h.drainLive, [])
  | .start refused =>
    match h.writing, h.chain with
    | none, operation :: rest => some ({ h with chain := rest }.startOperation refused operation, [])
    | _, _ => none
  | .storage succeeds => h.writing.map fun write => (h.storageSettles succeeds write, [])
  | .look => if h.draining = some .looks then some (h.lookAtBuffer, []) else none
  | .clear =>
    match h.draining with
    | some (.settled succeeds) =>
      some ({ h with draining := none, waiting := [] }, [⟨succeeds, h.waiting, h.writtenLive⟩])
    | _ => none

/-- What the handle has checked of an operation that waits for the storage. -/
def Expects (h : JsonlSessionHandle) : HandleWrite → Prop
  | .batch _ batch => assertContiguous h.cursor batch = true
  | .header => h.materialized = false

/-- The live events that a write has taken from the buffer. -/
def inFlight (h : JsonlSessionHandle) : List SessionEvent := (h.writing.map HandleWrite.taken).getD []

/-- The turns of the drain that are queued or write. -/
def turns (h : JsonlSessionHandle) : Nat :=
  h.chain.countP HandleOperation.isDrain + if h.writing.any HandleWrite.isLive then 1 else 0

end JsonlSessionHandle

/-- The drain failed, or what was routed before a call is written, unless the call came late. -/
def Drained.Durable (drained : Drained) : Prop :=
  drained.succeeds = true → ∀ caller ∈ drained.waiting, caller.late = false →
    caller.routed <+: drained.writtenLive

structure HandleOk (origin : List SessionEvent) (h : JsonlSessionHandle) : Prop where
  stored : h.stored ++ h.recoveredTail.getD [] = origin ++ h.written
  cursor : h.cursor = (origin ++ h.written).length
  contiguous : assertContiguous 0 (origin ++ h.written) = true
  writing : ∀ write, h.writing = some write → h.Expects write
  routed : h.routed = h.writtenLive ++ (h.inFlight ++ h.buffered)
  turns : h.turns = if h.draining = some .turn then 1 else 0
  called : ∀ caller ∈ h.waiting, caller.routed <+: h.routed
  settled : h.draining = some (.settled true) →
    ∀ caller ∈ h.waiting, caller.late = false → caller.routed <+: h.writtenLive
  idle : h.draining = none → h.waiting = []

section Steps

variable {origin batch : List SessionEvent} {h : JsonlSessionHandle} {live refused : Bool}

theorem assertContiguous_append {cursor : Nat} {more : List SessionEvent} :
    assertContiguous cursor (batch ++ more) =
      (assertContiguous cursor batch && assertContiguous (cursor + batch.length) more) := by
  induction batch generalizing cursor with
  | nil => simp [assertContiguous]
  | cons event rest ih =>
    simp only [cons_append, assertContiguous, ih, length_cons, Bool.and_assoc]
    rw [Nat.add_right_comm, Nat.add_assoc]

namespace HandleOk

theorem isTurn (hok : HandleOk origin h) (hwriting : h.writing = some (.batch true batch)) :
    h.draining = some .turn := by
  have hturns := hok.turns
  by_contra hne
  simp [JsonlSessionHandle.turns, hwriting, hne] at hturns

theorem routed_writing {write : HandleWrite} (hok : HandleOk origin h) (hwriting : h.writing = some write) :
    h.routed = h.writtenLive ++ (write.taken ++ h.buffered) := by
  rw [hok.routed, JsonlSessionHandle.inFlight, hwriting]
  rfl

theorem turns_writing {write : HandleWrite} (hok : HandleOk origin h) (hwriting : h.writing = some write) :
    h.chain.countP HandleOperation.isDrain + (if write.isLive then 1 else 0) =
      if h.draining = some .turn then 1 else 0 := by
  rw [← hok.turns, JsonlSessionHandle.turns, hwriting]
  rfl

theorem giveUp (hok : HandleOk origin h) (hwriting : h.writing = some (.batch live batch)) :
    HandleOk origin (h.giveUp live batch) := by
  have hrouted := hok.routed_writing hwriting
  have hturns := hok.turns_writing hwriting
  cases live with
  | false => exact { hok with writing := nofun, routed := hrouted, turns := hturns }
  | true =>
    rw [hok.isTurn hwriting] at hturns
    exact { hok with
      writing := nofun, routed := hrouted, turns := Nat.succ.inj hturns, settled := nofun, idle := nofun }

theorem finish (hok : HandleOk origin h) (hwriting : h.writing = some (.batch live [])) :
    HandleOk origin (h.finish live) := by
  have hleft := hok.giveUp hwriting
  cases live with
  | false => exact hleft
  | true => exact { hleft with settled := nofun, idle := nofun }

theorem writing_nil {write : HandleWrite} (hwriting : some (HandleWrite.batch live []) = some write) :
    h.Expects write := by
  cases hwriting
  rfl

/-- The batch that was taken may go back into the buffer. -/
theorem begin (hok : HandleOk origin { h with
      writing := some (.batch live []), buffered := (if live then batch else []) ++ h.buffered }) :
    HandleOk origin (h.begin live batch refused) := by
  have hgiven : HandleOk origin (h.giveUp live batch) := by
    cases live <;> exact @giveUp origin [] _ _ hok rfl
  have hrouted := hok.routed
  have hturns := hok.turns
  unfold JsonlSessionHandle.begin
  split
  · exact hgiven
  · split
    · rename_i hempty
      obtain rfl := isEmpty_iff.mp hempty
      cases live <;> exact hok.finish rfl
    · split
      · rename_i hcontiguous
        refine { hok with writing := ?_, routed := ?_, turns := hturns }
        · rintro _ ⟨⟩
          exact hcontiguous
        · cases live <;> exact hrouted
      · exact hgiven

theorem start {operation : HandleOperation} {rest : List HandleOperation} (hok : HandleOk origin h)
    (hwriting : h.writing = none) (hchain : h.chain = operation :: rest) :
    HandleOk origin ({ h with chain := rest }.startOperation refused operation) := by
  have hrouted := hok.routed
  have hturns := hok.turns
  rw [JsonlSessionHandle.inFlight, hwriting] at hrouted
  rw [JsonlSessionHandle.turns, hchain, countP_cons, hwriting] at hturns
  cases operation with
  | append batch => exact begin { hok with
      writing := fun _ => writing_nil, routed := hrouted, turns := hturns }
  | flush =>
    rw [JsonlSessionHandle.startOperation]
    split
    · refine { hok with turns := ?_ }
      rw [JsonlSessionHandle.turns, hwriting]
      exact hturns
    · rename_i hwrites
      refine { hok with writing := ?_, routed := hrouted, turns := hturns }
      rintro _ ⟨⟩
      exact (Bool.or_eq_false_iff.mp (Bool.eq_false_iff.mpr hwrites)).2
  | drain =>
    refine begin { hok with
      writing := fun _ => writing_nil, routed := ?_, turns := hturns }
    rw [if_pos rfl, append_nil]
    exact hrouted

theorem wrote (hok : HandleOk origin h) (hwriting : h.writing = some (.batch live batch))
    (hstored : h.stored ++ [] = origin ++ h.written) :
    HandleOk origin ((h.extend live batch).finish live) := by
  have hrouted := hok.routed_writing hwriting
  refine @finish origin { h.extend live batch with writing := some (.batch live []) } live { hok with
      stored := ?_, cursor := ?_, contiguous := ?_, writing := fun _ => writing_nil, routed := ?_
      turns := hok.turns_writing hwriting, settled := ?_ } rfl
  · simp [JsonlSessionHandle.extend, ← append_assoc, ← hstored]
  · simp [JsonlSessionHandle.extend, hok.cursor, Nat.add_assoc]
  · rw [JsonlSessionHandle.extend, ← append_assoc, assertContiguous_append, hok.contiguous, Nat.zero_add, ← hok.cursor]
    exact hok.writing _ hwriting
  · refine hrouted.trans ?_
    cases live <;> simp [JsonlSessionHandle.extend, JsonlSessionHandle.inFlight]
  · exact fun hsettled caller hcaller hearly =>
      (hok.settled hsettled caller hcaller hearly).trans (prefix_append _ _)

theorem storageSettles {write : HandleWrite} (hok : HandleOk origin h)
    (hwriting : h.writing = some write) (succeeds : Bool) :
    HandleOk origin (h.storageSettles succeeds write) := by
  have hstored := hok.stored
  cases write with
  | header => exact { hok with
      writing := nofun, routed := hok.routed_writing hwriting, turns := hok.turns_writing hwriting }
  | batch live batch =>
    rw [JsonlSessionHandle.storageSettles]
    split
    · split
      · exact { hok with }
      · exact hok.giveUp hwriting
    · rename_i htail
      split
      · refine { hok with stored := ?_ }
        rw [htail] at hstored
        exact (append_nil _).trans hstored
      · exact hok.giveUp hwriting
    · rename_i htail
      rw [htail] at hstored
      split
      · exact hok.wrote hwriting hstored
      · exact @giveUp origin batch { h with recoveredTail := none } live
          { hok with stored := hstored } hwriting

theorem inFlight_eq_nil (hturns : h.turns = 0) : h.inFlight = [] := by
  unfold JsonlSessionHandle.turns at hturns
  unfold JsonlSessionHandle.inFlight
  generalize h.writing = writing at hturns ⊢
  rcases writing with _ | ⟨_ | _, events⟩ | _
  · rfl
  · rfl
  · simp at hturns
  · rfl

/-- Without a turn nothing is in flight, so that an empty buffer has been written. -/
theorem lookAtBuffer {callers : List DrainCaller} (hok : HandleOk origin h)
    (hdraining : h.draining ≠ some .turn) (hcalled : ∀ caller ∈ callers, caller.routed <+: h.routed) :
    HandleOk origin { h with waiting := callers }.lookAtBuffer := by
  have hturns := hok.turns
  rw [if_neg hdraining] at hturns
  unfold JsonlSessionHandle.lookAtBuffer
  split
  · rename_i hempty
    have hrouted := hok.routed
    refine { hok with turns := hturns, called := hcalled, settled := ?_, idle := nofun }
    intro _ caller hcaller _
    rw [inFlight_eq_nil hturns, isEmpty_iff.mp hempty, append_nil, append_nil] at hrouted
    exact (hcalled caller hcaller).trans ⟨[], (append_nil _).trans hrouted⟩
  · refine { hok with turns := ?_, called := hcalled, settled := nofun, idle := nofun }
    rw [JsonlSessionHandle.turns, countP_append, Nat.add_right_comm]
    exact congrArg (· + 1) hturns

theorem drainLive (hok : HandleOk origin h) : HandleOk origin h.drainLive := by
  have hcalled : ∀ caller ∈ h.waiting ++ [⟨h.routed, h.isSettled⟩], caller.routed <+: h.routed := by
    intro caller hcaller
    rcases mem_append.mp hcaller with hbefore | hnew
    · exact hok.called caller hbefore
    · obtain rfl := mem_singleton.mp hnew
      exact prefix_refl _
  unfold JsonlSessionHandle.drainLive
  dsimp only
  split
  · rename_i hsome
    refine { hok with called := hcalled, settled := ?_, idle := ?_ }
    · intro hsettled caller hcaller hearly
      rcases mem_append.mp hcaller with hbefore | hnew
      · exact hok.settled hsettled caller hbefore hearly
      · have hdraining : h.draining = some (.settled true) := hsettled
        rw [mem_singleton.mp hnew, JsonlSessionHandle.isSettled, hdraining] at hearly
        cases hearly
    · intro hnone
      rw [show h.draining = none from hnone] at hsome
      cases hsome
  · rename_i hnone
    have hdraining : h.draining ≠ some .turn := fun heq => hnone (by rw [heq]; rfl)
    exact @lookAtBuffer origin { h with batchTimer := false, drainPaused := false } _ { hok with }
      hdraining hcalled

theorem queue {operation : HandleOperation} (hok : HandleOk origin h)
    (hdrain : operation.isDrain = false) : HandleOk origin (h.queue operation) := by
  unfold JsonlSessionHandle.queue
  split
  · exact hok
  · refine { hok with turns := ?_ }
    rw [JsonlSessionHandle.turns, countP_append, countP_singleton, hdrain]
    exact hok.turns

theorem step {after : JsonlSessionHandle} {action : HandleAction} {news : List Drained}
    (hok : HandleOk origin h) (hstep : h.step action = some (after, news)) :
    HandleOk origin after ∧ ∀ drained ∈ news, drained.Durable := by
  cases action with
  | append batch =>
    cases hstep
    exact ⟨hok.queue rfl, nofun⟩
  | flush =>
    cases hstep
    exact ⟨hok.queue rfl, nofun⟩
  | close =>
    cases hstep
    refine ⟨?_, nofun⟩
    split
    · exact hok
    · exact @drainLive origin { h with closing := true } { hok with }
  | enqueueLive event =>
    cases hstep
    refine ⟨{ hok with routed := ?_, called := ?_ }, nofun⟩
    · exact (congrArg (· ++ [event]) hok.routed).trans (by simp only [append_assoc]; rfl)
    · exact fun caller hcaller => (hok.called caller hcaller).trans (prefix_append _ _)
  | timer =>
    obtain ⟨-, hstep⟩ := Option.ite_none_right_eq_some.mp hstep
    cases hstep
    exact ⟨@drainLive origin { h with batchTimer := false } { hok with }, nofun⟩
  | drainLive =>
    cases hstep
    exact ⟨hok.drainLive, nofun⟩
  | start refused =>
    rw [JsonlSessionHandle.step] at hstep
    split at hstep
    · rename_i operation rest hwriting hchain
      cases hstep
      exact ⟨hok.start hwriting hchain, nofun⟩
    · cases hstep
  | storage succeeds =>
    obtain ⟨write, hwriting, hsettles⟩ := Option.map_eq_some_iff.mp hstep
    cases hsettles
    exact ⟨hok.storageSettles hwriting succeeds, nofun⟩
  | look =>
    obtain ⟨hlooks, hstep⟩ := Option.ite_none_right_eq_some.mp hstep
    cases hstep
    exact ⟨hok.lookAtBuffer (by rw [hlooks]; decide) hok.called, nofun⟩
  | clear =>
    rw [JsonlSessionHandle.step] at hstep
    split at hstep
    · rename_i succeeds hsettled
      cases hstep
      have hturns := hok.turns
      rw [hsettled] at hturns
      refine ⟨{ hok with turns := hturns, called := nofun, settled := nofun, idle := fun _ => rfl }, ?_⟩
      intro drained hdrained hsucceeds
      obtain rfl := mem_singleton.mp hdrained
      exact hok.settled (hsettled.trans (congrArg (some ∘ Draining.settled) hsucceeds))
    · cases hstep

end HandleOk

theorem handleOk_of_run {stored : List SessionEvent} {materialized tornTail : Bool}
    {recoveredTail : Option (List SessionEvent)} {log : List Drained}
    (hstored : assertContiguous 0 (stored ++ recoveredTail.getD []) = true)
    (run : Reaches JsonlSessionHandle.step (fun _ _ => True)
      (.opened stored materialized tornTail recoveredTail) h log) :
    HandleOk (stored ++ recoveredTail.getD []) h ∧ ∀ drained ∈ log, drained.Durable := by
  refine @Reaches.invariant _ _ _ _ _ _ _ _ (fun h log =>
    HandleOk (stored ++ recoveredTail.getD []) h ∧ ∀ drained ∈ log, drained.Durable) run ?_ ?_
  · exact ⟨⟨(append_nil _).symm, (congrArg length (append_nil _)).symm,
      (congrArg (assertContiguous 0) (append_nil _)).trans hstored, nofun, rfl, rfl, nofun,
      nofun, fun _ => rfl⟩, nofun⟩
  · intro s t log news action ⟨hok, hdurable⟩ _ hstep
    obtain ⟨hnext, hnews⟩ := hok.step hstep
    exact ⟨hnext, forall_mem_append.mpr ⟨hdurable, hnews⟩⟩

/-- Whatever the order in which a handle goes on, and whichever operations of the storage fail: each
batch is stored once, in the order of the writes and without a gap; the routed events are the live
ones among them, then those in flight and in the buffer; and a drain that succeeds has written what
was routed before a call, unless the call came after it had settled. -/
theorem handle_keeps_events {stored : List SessionEvent} {materialized tornTail : Bool}
    {recoveredTail : Option (List SessionEvent)} {log : List Drained}
    (hstored : assertContiguous 0 (stored ++ recoveredTail.getD []) = true)
    (run : Reaches JsonlSessionHandle.step (fun _ _ => True)
      (.opened stored materialized tornTail recoveredTail) h log) :
    h.stored ++ h.recoveredTail.getD [] = stored ++ recoveredTail.getD [] ++ h.written ∧
      assertContiguous 0 (h.stored ++ h.recoveredTail.getD []) = true ∧
      h.cursor = (h.stored ++ h.recoveredTail.getD []).length ∧
      h.routed = h.writtenLive ++ (h.inFlight ++ h.buffered) ∧ ∀ drained ∈ log, drained.Durable := by
  obtain ⟨hok, hdurable⟩ := handleOk_of_run hstored run
  rw [hok.stored]
  exact ⟨rfl, hok.contiguous, hok.cursor, hok.routed, hdurable⟩

end Steps

def turnStarted : SessionEvent := { seq := 0, time := .ofNat 1, data := .turnStart (.ofNat 1) }

/-- The storage fails the first drain, and the second one writes the event. -/
theorem handle_keeps_events_retried : ∃ (h : JsonlSessionHandle) (log : List Drained),
    h.written = [turnStarted] ∧ log.map Drained.succeeds = [false, true] ∧
      h.stored ++ h.recoveredTail.getD [] = h.written ∧ ∀ drained ∈ log, drained.Durable := by
  have run : Reaches JsonlSessionHandle.step (fun _ _ => True) (.opened [] false false none) _ _ :=
    .next (.next (.next (.next (.next (.next (.next (.next (.next (.next .refl
      (.enqueueLive turnStarted) trivial rfl) .drainLive trivial rfl) (.start false) trivial rfl)
      (.storage false) trivial rfl) .clear trivial rfl) .drainLive trivial rfl)
      (.start false) trivial rfl) (.storage true) trivial rfl) .look trivial rfl) .clear trivial rfl
  obtain ⟨hstored, -, -, -, hdurable⟩ := handle_keeps_events rfl run
  exact ⟨_, _, rfl, rfl, hstored, hdurable⟩

end DshKernel.Jsonl
