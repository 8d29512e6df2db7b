import DshKernel.Js.Json
import DshKernel.Titles.TitleText

/-!
# Titles in the log of a session

What the log says of the title, of the messages that a title is made of, and of the route of the
next request. The position of an event in the log is its `seq`.
-/

namespace DshKernel.Titles

open Js

/-- `SessionTitleModelProvenance` -/
structure Route where
  provider : String
  model : String
  deriving DecidableEq, Repr

inductive SessionTitleSource where
  | fallback
  | provider (id : String) (model : Option Route)
  | user
  deriving DecidableEq, Repr

structure SessionTitleEventData where
  title : String
  messageSeqs : List Nat
  source : SessionTitleSource
  deriving DecidableEq, Repr

structure SessionTitleUserMessage where
  seq : Nat
  text : String
  deriving DecidableEq, Repr

inductive ContentBlock where
  | text (text : String)
  | other
  deriving DecidableEq, Repr

inductive SessionEvent where
  | userMessage (sourceKind : String) (content : List ContentBlock)
  | requestHeader (route : Route)
  | stepStart
  | stepEnd
  | title (data : SessionTitleEventData)
  | other
  deriving DecidableEq, Repr

namespace SessionEvent

def title? : SessionEvent → Option SessionTitleEventData
  | title data => some data
  | _ => none

def route? : SessionEvent → Option Route
  | requestHeader route => some route
  | _ => none

end SessionEvent

def ContentBlock.text? : ContentBlock → Option String
  | .text content => some content
  | .other => none

structure Config where
  fallbackMaxWords : Nat
  fallbackMaxBytes : Nat
  maxTitleBytes : Nat
  words_pos : 0 < fallbackMaxWords
  bytes_pos : 0 < fallbackMaxBytes
  bytes_le : fallbackMaxBytes ≤ maxTitleBytes

section Log

variable (log : List SessionEvent)

def sessionTitleUserMessageOf (seq : Nat) : SessionEvent → Option SessionTitleUserMessage
  | .userMessage sourceKind content =>
    let text := "\n".intercalate (content.filterMap ContentBlock.text?)
    if sourceKind ≠ "user" ∨ normalizeSessionTitle text maxSafeInteger = "" then none
    else some ⟨seq, text⟩
  | _ => none

def sessionTitleMessages : List SessionTitleUserMessage :=
  log.zipIdx.filterMap fun (event, seq) => sessionTitleUserMessageOf seq event

def collectSessionTitleMessages (throughSeq : Nat) : List SessionTitleUserMessage :=
  sessionTitleMessages (log.take (throughSeq + 1))

/-- The aggregate that the projection `titleInput` keeps of the eligible messages. -/
structure TitleInputState where
  first : Option SessionTitleUserMessage := none
  count : Nat := 0
  lastSeq : Option Nat := none
  deriving DecidableEq, Repr

def TitleInputState.apply (state : TitleInputState) (seq : Nat) (event : SessionEvent) : TitleInputState :=
  match sessionTitleUserMessageOf seq event with
  | none => state
  | some message =>
    { first := state.first.orElse fun _ => some message
      count := state.count + 1
      lastSeq := some message.seq }

def titleInputOf : TitleInputState :=
  log.zipIdx.foldl (fun state (event, seq) => state.apply seq event) {}

def titlesOf : List SessionTitleEventData := log.filterMap SessionEvent.title?

/-- `foldSessionTitle` -/
def foldSessionTitle : Option SessionTitleEventData := (titlesOf log).getLast?

def isUserTitled : Bool := (foldSessionTitle log).any (·.source == .user)

/-- `session.requestHeader()`, of which the route is read. -/
def requestRoute : Option Route := (log.filterMap SessionEvent.route?).getLast?

def openStep : Option Nat :=
  log.zipIdx.foldl (fun boundary (event, seq) =>
    match event with
    | .stepStart => some seq
    | .stepEnd => none
    | _ => boundary) none

def fallbackTitle (config : Config) (first : SessionTitleUserMessage) : String :=
  fallbackSessionTitle first.text config.fallbackMaxWords config.fallbackMaxBytes

end Log

section Result

def messageSeqsError : String :=
  "session-title provider messageSeqs must be unique, ordered seqs from the request"

def modelError : String :=
  "session-title provider result model must contain non-empty provider and model strings"

def acceptMessageSeqs (messages : List SessionTitleUserMessage) :
    Option Nat → List Json → Except String (List Nat)
  | _, [] => .ok []
  | previous, item :: rest =>
    match item.asNumber with
    | some (.integral (.int value)) =>
      match messages.findIdx? fun message => decide ((message.seq : Int) = value) with
      | none => .error messageSeqsError
      | some index =>
        if maxSafeInteger < value.natAbs ∨ previous.any (index ≤ ·) then .error messageSeqsError
        else (acceptMessageSeqs messages (some index) rest).map (value.toNat :: ·)
    | some (.integral .negZero) => .error "SessionSeq must be a non-negative safe integer, got 0"
    | _ => .error messageSeqsError

def acceptModel : Option Json → Except String (Option Route)
  | none => .ok none
  | some model =>
    match (model.get? "provider").bind Json.asString, (model.get? "model").bind Json.asString with
    | some provider, some name =>
      if provider = "" ∨ name = "" then .error modelError else .ok (some ⟨provider, name⟩)
    | _, _ => .error modelError

def validateResult (config : Config) (id : String) (messages : List SessionTitleUserMessage)
    (result : Option Json) : Except String SessionTitleEventData := do
  let some candidate := result.filter Json.isObject
    | .error "session-title provider returned an invalid result"
  let some raw := (candidate.get? "title").bind Json.asString
    | .error "session-title provider title must be a string"
  let title := normalizeSessionTitle raw config.maxTitleBytes
  if title = "" then .error "session-title provider returned an empty title"
  let items := ((candidate.get? "messageSeqs").bind Json.asArray).getD []
  if items = [] then .error "session-title provider must identify at least one source message seq"
  let messageSeqs ← acceptMessageSeqs messages none items
  let model ← acceptModel (candidate.get? "model")
  .ok ⟨title, messageSeqs, .provider id model⟩

end Result

end DshKernel.Titles
