import DshKernel.Session.Admission
import DshKernel.Session.SurfaceManager

/-!
# Sessions

A session owns its append-only log. It is built from a seed, which has to pass the reload
checks, or grows by `append`, which has its own; the messages it derives are cached.
-/

namespace DshKernel.Session

open Js SurfaceManager

/-- What `Date.now()` returns: whole milliseconds in the range of dates. -/
structure Clock where
  millis : Int
  inRange : millis.natAbs ≤ 8640000000000000

/-- `SessionLogOffset`: a log gap or prefix length -/
def SessionLogOffset (value : Nat) : Except String Nat :=
  if value ≤ maxSafeInteger then .ok value
  else .error s!"SessionLogOffset must be a non-negative safe integer, got {value}"

structure SurfaceIntent where
  sourceEventSeqs : Option Json := none
  surfaceOp : Option Json := none
  deriving Repr

/-- `nextRef` names the next event object that is made. -/
structure Session where
  log : List EventObject
  manager : SurfaceManager
  nextRef : Nat
  header : Json
  inheritedEventCount : Nat
  firstLiveSeq : Nat
  derived : List Message
  derivedNodes : Nat
  derivedGeneration : Nat
  deriving Repr

structure SeededLog where
  log : List EventObject := []
  manager : SurfaceManager := SurfaceManager.create 0
  nextRef : Nat := 0
  deriving Repr

def adoptSeedEvent (restored : Bool) (index : Nat) (source : SessionEvent) (seeded : SeededLog) :
    Except String SeededLog :=
  if !restored && source.toJson.snapshotJsonValue.isNone then
    .error s!"seed event at index {index} is not losslessly JSON-serializable"
  else
    match assertSessionEventEnvelope source.toJson index with
    | .error message => .error message
    | .ok () =>
      match assertSupportedRequestHeader source.type source.data.toJson
          s!"seed event at index {index}" with
      | .error message => .error message
      | .ok () =>
        if source.seq ≠ index then
          .error <| s!"seed event at index {index} has seq {source.seq} (expected {index}); "
            ++ "seed must be contiguous from 0"
        else
          match validateNext seeded.log seeded.manager ⟨seeded.nextRef, source⟩ with
          | (.error message, _) => .error s!"invalid seed event at index {index}: {message}"
          | (.ok (), manager) =>
            .ok ⟨seeded.log ++ [⟨seeded.nextRef, source⟩], manager, seeded.nextRef + 1⟩

def adoptSeed (restored : Bool) : Nat → List SessionEvent → SeededLog → Except String SeededLog
  | _, [], seeded => .ok seeded
  | index, source :: rest, seeded =>
    match adoptSeedEvent restored index source seeded with
    | .error message => .error message
    | .ok next => adoptSeed restored (index + 1) rest next

namespace Session

def events (s : Session) : List SessionEvent := SurfaceManager.events s.log

/-- `append` of a detached session, or of an entered one whose dispatch throws `veto`. -/
def append (s : Session) (data : EventData) (opts : SurfaceIntent) (now : Clock)
    (veto : Option String) : Except String SessionEvent × Session :=
  if !data.toJson.isLossless then
    (.error s!"session event \"{data.type}\" carries non-JSON-serializable data", s)
  else
    match assertSupportedRequestHeader data.type data.toJson
        s!"session event \"{data.type}\"" with
    | .error message => (.error message, s)
    | .ok () =>
      if !(opts.sourceEventSeqs.all Json.isLossless && opts.surfaceOp.all Json.isLossless) then
        (.error s!"session event \"{data.type}\" carries non-JSON-serializable surface metadata",
          s)
      else
        match SessionSeq s.log.length with
        | .error message => (.error message, s)
        | .ok seq =>
          let event : SessionEvent :=
            { seq, time := .ofInt now.millis, data,
              sourceEventSeqs := opts.sourceEventSeqs, surfaceOp := opts.surfaceOp }
          match validateNext s.log s.manager ⟨s.nextRef, event⟩ with
          | (.error message, manager) =>
            (.error message, { s with manager, nextRef := s.nextRef + 1 })
          | (.ok (), manager) =>
            match veto with
            | some message => (.error message, { s with manager, nextRef := s.nextRef + 1 })
            | none =>
              (.ok event,
                { s with
                  log := s.log ++ [⟨s.nextRef, event⟩], manager, nextRef := s.nextRef + 1 })

def finish (header : Except String Json) (seed : Option (List SessionEvent))
    (supplied : Option Nat) (seeded : SeededLog) : Except String Session :=
  match SessionLogOffset seeded.log.length with
  | .error message => .error message
  | .ok firstLiveSeq =>
    match header with
    | .error message => .error message
    | .ok header =>
      if isSeeded header && seed.isNone then
        .error "seeded session requires an explicit constructor seed"
      else if isSeeded header && supplied.isNone then
        .error "seeded session requires an inherited event count"
      else
        match SessionLogOffset (supplied.getD 0) with
        | .error message => .error message
        | .ok inheritedEventCount =>
          if !isSeeded header && inheritedEventCount != 0 then
            .error "unseeded session inherited event count must be 0"
          else if seeded.log.length < inheritedEventCount then
            .error "session inherited event count exceeds its event log"
          else
            .ok ⟨seeded.log, seeded.manager, seeded.nextRef, header, inheritedEventCount,
              firstLiveSeq, [], 0, 0⟩

def markSeed (s : Session) (now : Clock) : Except String Session :=
  if s.events.getLast?.map SessionEvent.type = some "session/end-seed" then .ok s
  else
    match s.append .endSeed {} now none with
    | (.error message, _) => .error message
    | (.ok _, s) => .ok s

def build (restored : Bool) (seed : Option (List SessionEvent))
    (header : Except String Json) (supplied : Option Nat) (now : Clock) : Except String Session :=
  match adoptSeed restored 0 (seed.getD []) {} with
  | .error message => .error message
  | .ok seeded =>
    match finish header seed supplied seeded with
    | .error message => .error message
    | .ok s => if seed.isNone then .ok s else s.markSeed now

/-- `Session.create` -/
def create (platform : Platform) (id : String) (seed : Option (List SessionEvent))
    (header : Option Json) (inheritedEventCount : Option Nat) (now : Clock) :
    Except String Session :=
  build false seed (snapshotSessionHeader platform id header now.millis) inheritedEventCount now

/-- `Session.fromRestore` -/
def fromRestore (platform : Platform) (id : String) (seed : List SessionEvent) (header : Json)
    (inheritedEventCount : Nat) (now : Clock) : Except String Session :=
  match validateSessionHeader platform id header with
  | .error message => .error message
  | .ok header => build true (some seed) (.ok header) (some inheritedEventCount) now

def projectNode (events : List SessionEvent) (seq : Nat) : Option Message :=
  events[seq]?.bind deriveEventMessage

def deriveMessages (s : Session) : Except String (List Message) × Session :=
  match readNodes s.log s.manager with
  | (.error message, manager) => (.error message, { s with manager })
  | (.ok nodes, manager) =>
    match readReplaceGeneration s.log manager with
    | (.error message, manager) => (.error message, { s with manager })
    | (.ok generation, manager) =>
      let stale := generation ≠ s.derivedGeneration
      let derived := (if stale then [] else s.derived)
        ++ (nodes.drop (if stale then 0 else s.derivedNodes)).filterMap (projectNode s.events)
      (.ok derived,
        { s with
          manager, derived, derivedNodes := nodes.length, derivedGeneration := generation })

end Session

inductive Reachable (platform : Platform) : Session → Prop where
  | create {id : String} {seed : Option (List SessionEvent)} {header : Option Json}
      {inheritedEventCount : Option Nat} {now : Clock} {s : Session} :
      Session.create platform id seed header inheritedEventCount now = .ok s →
      Reachable platform s
  | append {s : Session} (data : EventData) (opts : SurfaceIntent) (now : Clock)
      (veto : Option String) :
      Reachable platform s → Reachable platform (s.append data opts now veto).2
  | deriveMessages {s : Session} :
      Reachable platform s → Reachable platform s.deriveMessages.2

end DshKernel.Session
