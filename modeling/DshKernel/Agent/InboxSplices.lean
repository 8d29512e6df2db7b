import DshKernel.Agent.World
import DshKernel.Js.Splice

/-!
# The inbox of an agent

The operations of the inbox come down to splices of its two lists. A splice is normalised, validated
and logged before the list changes; listeners may call the inbox again in between.
-/

namespace DshKernel.Agent.InboxSplices

open Js Lib Session List
set_option maxRecDepth 4096

/-- The data of `agent/inbox/spliced`. -/
structure InboxSplice where
  target : InboxTarget
  start : Number
  removedCount : Option Number
  inserted : List UserMessage
  canceled : Bool

def InboxSplice.toJson (splice : InboxSplice) : Json :=
  .obj <| [("target", .str splice.target.toString), ("start", .num splice.start)]
    ++ Session.optional "removedCount" (splice.removedCount.map .num)
    ++ [("inserted", .arr (splice.inserted.map UserMessage.toJson))]
    ++ if splice.canceled then [("outcome", .str "canceled")] else []

inductive InboxEvent where
  | spliced (splice : InboxSplice)
  | other

/-- `Number.isSafeInteger(value) && value >= 0` -/
def asCount : Number → Option Nat
  | .integral value => if value.isSafe && decide (0 ≤ value.toInt) then some value.toInt.toNat else none
  | _ => none

/-- `splice.removedCount ?? 0` -/
def InboxSplice.count (splice : InboxSplice) : Number := splice.removedCount.getD (.ofNat 0)

def spliceInbox (inbox : Inbox) (splice : InboxSplice) : Inbox :=
  inbox.set (arraySplice (inbox.get splice.target) splice.start splice.count splice.inserted) splice.target

/-- `validate` -/
def validateSplice (inbox : Inbox) (splice : InboxSplice) : Except String Unit :=
  match asCount splice.start, asCount splice.count with
  | some start, some count =>
    if (inbox.get splice.target).length < start ∨ (inbox.get splice.target).length < start + count then
      .error "invalid inbox splice"
    else
      match firstRepeated [] (spliceInbox inbox splice).ids with
      | some id => .error s!"message \"{id}\" is already pending"
      | none => .ok ()
  | _, _ => .error "invalid inbox splice"

/-- `apply` -/
def applySplice (inbox : Inbox) (splice : InboxSplice) : Except String Inbox :=
  match validateSplice inbox splice with
  | .error message => .error message
  | .ok () => .ok (spliceInbox inbox splice)

def applyEvent (inbox : Inbox) : InboxEvent → Except String Inbox
  | .spliced splice => applySplice inbox splice
  | .other => .ok inbox

def replay (log : List InboxEvent) : Except String Inbox := log.foldlM applyEvent {}

/-- `locate` -/
def locate (inbox : Inbox) (messageId : String) : Option (InboxTarget × Nat) :=
  match inbox.nextTurn.findIdx? fun message => message.id == messageId with
  | some index => some (.nextTurn, index)
  | none =>
    match inbox.nextStep.findIdx? fun message => message.id == messageId with
    | some index => some (.nextStep, index)
    | none => none

/-- The calls on the inbox, each with what the session throws at its appends, if it does, for
reasons of its own; and an append of another event. -/
inductive InboxCall where
  | splice (target : InboxTarget) (start deleteCount : Number) (inserted : List UserMessage)
      (refused : Option String)
  | append (target : InboxTarget) (message : UserMessage) (refused : Option String)
  | prepend (target : InboxTarget) (message : UserMessage) (refused : Option String)
  | replace (messageId : String) (newMessage : UserMessage) (refused : Option String)
  | remove (messageId : String) (refused : Option String)
  | clear (refusedStep refusedTurn : Option String)
  | claim (target : InboxTarget) (refusedStep refusedTurn : Option String)
  | appendOther (refused : Option String)

/-- A splice that took effect, with the lists around it and what it returned, or a call or a splice
that was rejected, with the lists and the log around it. -/
inductive InboxMoment where
  | committed (target : InboxTarget) (start deleteCount : Number) (inserted : List UserMessage)
      (before after : Inbox) (removed : List UserMessage)
  | rejected (call : Option InboxCall) (before after : Inbox × List InboxEvent)

structure InboxWorld where
  log : List InboxEvent := []
  inbox : Inbox := {}
  appending : Bool := false
  history : List InboxMoment := []

inductive InboxSite where
  | publishing
  | notifying
  deriving DecidableEq

abbrev InboxProgram := Program String InboxSite InboxWorld

open Program

def InboxWorld.reject (w : InboxWorld) (name : Option InboxCall) (before : InboxWorld) : InboxWorld :=
  { w with history := w.history ++ [.rejected name (before.inbox, before.log) (w.inbox, w.log)] }

def watched {α : Type} (name : Option InboxCall) (program : InboxProgram α) : InboxProgram α := do
  let before ← get
  match ← program.attempt with
  | .ok value => pure value
  | .error message =>
    modify fun w => w.reject name before
    throw message

/-- `Session.append` -/
def appendEvent (lossless : Bool) (event : InboxEvent) (refused : Option String) : InboxProgram Unit := do
  let w ← get
  if !lossless then throw "session event \"agent/inbox/spliced\" carries non-JSON-serializable data"
  else if w.appending then throw reenteredText
  else
    modify fun w => { w with appending := true }
    call .publishing
    match refused with
    | some message =>
      modify fun w => { w with appending := false }
      throw message
    | none =>
      modify fun w => { w with log := w.log ++ [event] }
      call .publishing
      modify fun w => { w with appending := false }

def notify : Nat → InboxProgram Unit
  | 0 => pure ()
  | count + 1 => do
    call .notifying
    notify count

def notifyIf (condition : Bool) (count : Nat) : InboxProgram Unit :=
  if condition then notify count else pure ()

/-- `actualStart` -/
def actualStart (length : Nat) (start : Number) : Whole :=
  let offset := start.trunc.getD (.ofNat 0)
  if offset.lt (.ofNat 0) then Whole.max (Whole.add length offset) (.ofNat 0)
  else Whole.min offset (.ofNat length)

/-- `actualDeleteCount` -/
def actualDeleteCount (length : Nat) (start : Whole) (deleteCount : Number) : Whole :=
  Whole.min (Whole.max (deleteCount.trunc.getD (.ofNat 0)) (.ofNat 0)) (Whole.sub length start)

def normalise (length : Nat) (target : InboxTarget) (start deleteCount : Number)
    (inserted : List UserMessage) (discardRemoved : Bool) : InboxSplice :=
  let actualStart := actualStart length start
  let actualDeleteCount := actualDeleteCount length actualStart deleteCount
  { target
    start := actualStart.toNumber
    removedCount := if actualDeleteCount.isZero then none else some actualDeleteCount.toNumber
    inserted
    canceled := discardRemoved && Whole.lt (.ofNat 0) actualDeleteCount }

def InboxWorld.commit (w : InboxWorld) (start deleteCount : Number) (splice : InboxSplice) : InboxWorld :=
  { w with
    inbox := spliceInbox w.inbox splice
    history := w.history ++ [.committed splice.target start deleteCount splice.inserted w.inbox
      (spliceInbox w.inbox splice)
      (arraySpliced (w.inbox.get splice.target) splice.start splice.count)] }

def mutate (target : InboxTarget) (start deleteCount : Number) (inserted : List UserMessage)
    (discardRemoved : Bool) (refused : Option String) : InboxProgram (List UserMessage) :=
  watched none do
    let w ← get
    let splice := normalise (w.inbox.get target).length target start deleteCount inserted discardRemoved
    if splice.removedCount.isNone && inserted.isEmpty then pure []
    else
      match validateSplice w.inbox splice with
      | .error message => throw message
      | .ok () =>
        appendEvent splice.toJson.isLossless (.spliced splice) refused
        let w ← get
        modify fun w => w.commit start deleteCount splice
        let removed := arraySpliced (w.inbox.get target) splice.start splice.count
        notifyIf discardRemoved removed.length
        notify splice.inserted.length
        pure removed

def splice (target : InboxTarget) (start deleteCount : Number) (inserted : List UserMessage)
    (refused : Option String) : InboxProgram (List UserMessage) :=
  mutate target start deleteCount inserted true refused

def append (target : InboxTarget) (message : UserMessage) (refused : Option String) :
    InboxProgram (List UserMessage) := do
  let w ← get
  splice target (.ofNat (w.inbox.get target).length) (.ofNat 0) [message] refused

def prepend (target : InboxTarget) (message : UserMessage) (refused : Option String) :
    InboxProgram (List UserMessage) :=
  splice target (.ofNat 0) (.ofNat 0) [message] refused

def replace (messageId : String) (newMessage : UserMessage) (refused : Option String) :
    InboxProgram Bool := do
  let w ← get
  match locate w.inbox messageId with
  | none => pure false
  | some (target, index) =>
    let _ ← splice target (.ofNat index) (.ofNat 1) [newMessage] refused
    pure true

def remove (messageId : String) (refused : Option String) : InboxProgram Bool := do
  let w ← get
  match locate w.inbox messageId with
  | none => pure false
  | some (target, index) =>
    let _ ← splice target (.ofNat index) (.ofNat 1) [] refused
    pure true

def clear (refusedStep refusedTurn : Option String) : InboxProgram Unit := do
  let w ← get
  let _ ← splice .nextStep (.ofNat 0) (.ofNat w.inbox.nextStep.length) [] refusedStep
  let w ← get
  let _ ← splice .nextTurn (.ofNat 0) (.ofNat w.inbox.nextTurn.length) [] refusedTurn
  pure ()

def claimTurn (target : InboxTarget) (refused : Option String) : InboxProgram (List UserMessage) :=
  match target with
  | .nextTurn => mutate .nextTurn (.ofNat 0) (.ofNat 1) [] false refused
  | .nextStep => pure []

def claim (target : InboxTarget) (refusedStep refusedTurn : Option String) :
    InboxProgram (List UserMessage) := do
  let w ← get
  let steps ← mutate .nextStep (.ofNat 0) (.ofNat w.inbox.nextStep.length) [] false refusedStep
  let turns ← claimTurn target refusedTurn
  notify (steps ++ turns).length
  pure (steps ++ turns)

/-- `clear` and `claim` make two splices, the others at most one. -/
def InboxCall.isComposite : InboxCall → Bool
  | .clear _ _ => true
  | .claim _ _ _ => true
  | _ => false

def InboxCall.program (name : InboxCall) : InboxProgram Unit :=
  watched (some name) <|
    match name with
    | .splice target start deleteCount inserted refused =>
      (InboxSplices.splice target start deleteCount inserted refused).bind fun _ => pure ()
    | .append target message refused => (InboxSplices.append target message refused).bind fun _ => pure ()
    | .prepend target message refused => (InboxSplices.prepend target message refused).bind fun _ => pure ()
    | .replace messageId newMessage refused =>
      (InboxSplices.replace messageId newMessage refused).bind fun _ => pure ()
    | .remove messageId refused => (InboxSplices.remove messageId refused).bind fun _ => pure ()
    | .clear refusedStep refusedTurn => InboxSplices.clear refusedStep refusedTurn
    | .claim target refusedStep refusedTurn =>
      (InboxSplices.claim target refusedStep refusedTurn).bind fun _ => pure ()
    | .appendOther refused => appendEvent true .other refused

section Normalise

variable {length : Nat} {start deleteCount : Number}

end Normalise

section Replay

variable {log : List InboxEvent} {inbox : Inbox} {splice : InboxSplice}

end Replay

/-- A splice did what `Array.prototype.splice` does with its raw arguments, or left the lists and
the log alone. -/
def InboxMoment.Ok : InboxMoment → Prop
  | .committed target start deleteCount inserted before after removed =>
    after = before.set (arraySplice (before.get target) start deleteCount inserted) target ∧
      removed = arraySpliced (before.get target) start deleteCount
  | .rejected name before after => (∀ call ∈ name, call.isComposite = false) → after = before

def Behind (log : List InboxEvent) (inbox : Inbox) : Prop :=
  ∃ committed, replay committed = .ok inbox ∧
    (log = committed ∨ ∃ splice, log = committed ++ [.spliced splice])

structure InboxOk (w : InboxWorld) : Prop where
  behind : Behind w.log w.inbox
  moments : ∀ moment ∈ w.history, moment.Ok

structure InboxSettled (sites : List InboxSite) (w : InboxWorld) : Prop where
  publishing : w.appending = true → .publishing ∈ sites
  caughtUp : w.appending = false → replay w.log = .ok w.inbox

def inboxContract : Contract InboxSite InboxWorld where
  inv := InboxOk
  rely := fun site w later => site = .publishing →
    later.log = w.log ∧ later.inbox = w.inbox ∧ later.appending = w.appending
  here := fun _ site w => site = .publishing → w.appending = true
  settled := InboxSettled
  rely_refl := fun _ _ _ => ⟨rfl, rfl, rfl⟩
  rely_trans := fun hab hbc hsite =>
    ⟨(hbc hsite).1.trans (hab hsite).1, (hbc hsite).2.1.trans (hab hsite).2.1,
      (hbc hsite).2.2.trans (hab hsite).2.2⟩
  here_rely := fun hhere hrely hsite => (hrely hsite).2.2.trans (hhere hsite)

section Programs

variable {sites : List InboxSite} {w later : InboxWorld} {α : Type}

structure Ready (sites : List InboxSite) (w : InboxWorld) : Prop where
  settled : InboxSettled sites w
  appending : .publishing ∈ sites → w.appending = true

/-- How a program leaves the inbox, and what it returns; an `atomic` one that fails has changed
nothing. -/
structure Leaves (sites : List InboxSite) (w : InboxWorld) (atomic : Prop) (returns : α → Prop)
    (outcome : Except String α) (later : InboxWorld) : Prop where
  ok : InboxOk later
  ready : Ready sites later
  returns : ∀ value, outcome = .ok value → returns value
  unchanged : atomic → ∀ message, outcome = .error message → later.inbox = w.inbox ∧ later.log = w.log

theorem Ready.congr (h : Ready sites w) (hlog : later.log = w.log) (hinbox : later.inbox = w.inbox)
    (happending : later.appending = w.appending) : Ready sites later where
  settled := ⟨by rw [happending]; exact h.settled.publishing, by
    rw [happending, hlog, hinbox]
    exact h.settled.caughtUp⟩
  appending := by
    rw [happending]
    exact h.appending

variable {program : InboxProgram α} {atomic : Prop} {returns : α → Prop}

structure Logged (sites : List InboxSite) (w : InboxWorld) (event : InboxEvent)
    (outcome : Except String Unit) (later : InboxWorld) : Prop where
  ok : InboxOk later
  inbox : later.inbox = w.inbox
  rejected : ∀ message, outcome = .error message → later.log = w.log ∧ Ready sites later
  logged : ∀ value, outcome = .ok value → later.log = w.log ++ [event] ∧ later.appending = false ∧
    .publishing ∉ sites ∧ replay w.log = .ok w.inbox

variable {target : InboxTarget} {start deleteCount : Number} {inserted : List UserMessage}
  {discardRemoved : Bool} {refused : Option String}

theorem Leaves.weaken {weaker : Prop} {returns' : α → Prop} {outcome : Except String α}
    (h : Leaves sites w atomic returns outcome later) (hatomic : weaker → atomic)
    (hreturns : ∀ value, returns value → returns' value) : Leaves sites w weaker returns' outcome later :=
  ⟨h.ok, h.ready, fun value heq => hreturns value (h.returns value heq),
    fun hweaker => h.unchanged (hatomic hweaker)⟩

end Programs

section Runs

theorem SitesHere.appending {w : InboxWorld} {sites : List InboxSite} (h : SitesHere inboxContract w sites)
    (hmem : .publishing ∈ sites) : w.appending = true := by
  induction h with
  | nil => cases hmem
  | cons hhere _ ih =>
    rcases mem_cons.mp hmem with heq | hrest
    · exact hhere heq.symm
    · exact ih hrest

variable {log : List InboxEvent} {inbox : Inbox} {world : InboxWorld}
  {stack : List (Frame String InboxSite InboxWorld InboxCall)}

end Runs

end DshKernel.Agent.InboxSplices
