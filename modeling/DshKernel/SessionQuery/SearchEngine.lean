import DshKernel.Lib.Machine
import DshKernel.Lib.Paging
import DshKernel.SessionQuery.SearchQuery

/-!
# The search service

A search brings the index in line with what it observed and returns one page of the ranked rows.
The cursor of the next page names the engine, the request and the generation that it belongs to.
-/

namespace DshKernel.SessionQuery

open Js Lib

section Snippets

structure MarkedText where
  characters : List Char := []
  matchStart : Option Nat := none

def MarkedText.read (text : MarkedText) (character : Char) : MarkedText :=
  if character = ftsHighlightStart then
    { text with matchStart := text.matchStart.or (some text.characters.length) }
  else if character = ftsHighlightEnd then text
  else if isWhitespace character then
    if text.characters ≠ [] ∧ text.characters.getLast? ≠ some ' ' then
      { text with characters := text.characters ++ [' '] }
    else text
  else { text with characters := text.characters ++ [character] }

def normalizeMarkedText (markedText : List Char) : MarkedText :=
  let text := markedText.foldl MarkedText.read {}
  if text.characters.getLast? = some ' ' then { text with characters := text.characters.dropLast }
  else text

def makeSnippet (markedText : List Char) (maxChars : Nat) : List Char :=
  let text := normalizeMarkedText markedText
  let characters := text.characters
  if characters.length ≤ maxChars then characters
  else if maxChars = 1 then ['…']
  else
    let matchedIndex := min (text.matchStart.getD 0) (characters.length - 1)
    let start := matchedIndex - maxChars / 3
    let lead := if start > 0 then ['…'] else []
    let contentLength := maxChars - lead.length - 1
    let (start, trail, contentLength) :=
      if contentLength < 1 then (matchedIndex, [], maxChars - lead.length)
      else if matchedIndex ≥ start + contentLength then
        (matchedIndex - contentLength + 1, ['…'], contentLength)
      else (start, ['…'], contentLength)
    let stop := min characters.length (start + contentLength)
    let (start, trail, contentLength) :=
      if stop = characters.length then
        (stop - (maxChars - lead.length), [], maxChars - lead.length)
      else (start, trail, contentLength)
    let stop := min characters.length (start + contentLength)
    lead ++ (characters.drop start).take (stop - start) ++ trail

end Snippets

section Cursors

inductive Generation where
  | whole (generation : Nat)
  | live (generation : Nat)
  | persisted (epoch generation : Nat)
  deriving DecidableEq, Repr

inductive CursorScope where
  | sessions
  | events
  deriving DecidableEq, Repr

structure CursorPayload where
  version : Nat := 1
  instanceId : Nat
  scope : CursorScope
  fingerprint : RequestFingerprint
  generation : Generation
  offset : Nat

/-- `Partial<CursorPayload>`: `none` is an absent field, or a value that no payload has there. -/
structure CursorFields where
  version : Option Number := none
  instanceId : Option Nat := none
  scope : Option CursorScope := none
  fingerprint : Option RequestFingerprint := none
  generation : Option Generation := none
  offset : Option Number := none
  deriving DecidableEq

inductive SessionSearchCursor where
  | unreadable
  | null
  | value (fields : CursorFields)
  deriving DecidableEq

def encodeCursor (payload : CursorPayload) : SessionSearchCursor :=
  .value
    { version := some (.ofNat payload.version)
      instanceId := some payload.instanceId
      scope := some payload.scope
      fingerprint := some payload.fingerprint
      generation := some payload.generation
      offset := some (.ofNat payload.offset) }

def invalidCursor : SearchFailure :=
  .sessionQuery ⟨"session-search cursor is invalid", .invalidCursor⟩

def staleCursor : SearchFailure :=
  .sessionQuery ⟨"session-search cursor is stale because its relevant corpus changed", .staleCursor⟩

/-- The offset of a cursor that belongs to `expected`, whose own offset plays no part. -/
def decodeCursor (cursor : SessionSearchCursor) (expected : CursorPayload) :
    Except SearchFailure Nat :=
  match cursor with
  | .unreadable => .error invalidCursor
  | .null => .error .typeError
  | .value fields =>
    if !(fields.version.any (·.strictEq (.ofNat 1))) ∨
        fields.instanceId ≠ some expected.instanceId ∨ fields.scope ≠ some expected.scope ∨
        fields.fingerprint ≠ some expected.fingerprint then .error invalidCursor
    else
      match fields.offset with
      | none => .error invalidCursor
      | some offset =>
        if !offset.isSafeInteger ∨ offset.toInt < 0 then .error invalidCursor
        else if fields.generation ≠ some expected.generation then .error staleCursor
        else .ok offset.toInt.toNat

end Cursors

section Hits

structure SessionEventSearchHit where
  sessionId : String
  seq : Nat
  type : String
  time : Int
  surface : SessionEventSurface
  snippet : String
  deriving DecidableEq, Repr

structure SessionSearchHit where
  header : SessionHeader
  live : Bool
  persisted : Bool
  bestMatch : SessionEventSearchHit
  deriving DecidableEq, Repr

inductive SearchHit where
  | session (hit : SessionSearchHit)
  | event (hit : SessionEventSearchHit)
  deriving DecidableEq, Repr

/-- A page of either search; `session` is the header that an event search returns. -/
structure SessionSearchPage where
  session : Option SessionHeader := none
  items : List SearchHit
  nextCursor : Option SessionSearchCursor
  deriving DecidableEq

def rowHeader (sessionId : String) (row : SessionHeaderRow) : SessionHeader where
  version := row.version
  id := sessionId
  createdAt := row.createdAt
  cwd := row.cwd
  parentSession := row.parentSession
  isSeeded := row.seedLength.isSome
  delegationDepth := row.delegationDepth
  agentPreset := row.agentPreset

def eventHit (config : ResolvedConfig) (row : SearchRow) : SessionEventSearchHit where
  sessionId := row.sessionId
  seq := row.seq
  type := row.type
  time := row.time
  surface := row.surface
  snippet := String.ofList (makeSnippet row.markedText config.snippetChars)

def sessionHit (config : ResolvedConfig) (row : SearchRow) : SessionSearchHit where
  header := rowHeader row.sessionId row.header
  live := row.live
  persisted := row.persisted
  bestMatch := eventHit config row

end Hits

section Searches

/-- What stays the same for all engines: the configuration, the runtime, the full-text index, and
which bindings have a persistence service. -/
structure Environment where
  config : ResolvedConfig
  runtime : Runtime
  fts : FullText
  hasService : Nat → Bool

/-- What one search meets. `observed` is the observation, or the error before it is complete, and
`failure` an error of the database. -/
structure SearchExec where
  observed : Except SearchFailure Observation
  failure : Option String := none
  aborted : Bool := false

inductive SearchRequest where
  | sessions (request : SessionSearchRequest SessionSearchCursor)
  | events (request : SessionEventSearchRequest SessionSearchCursor)

def SearchRequest.cursor : SearchRequest → Option SessionSearchCursor
  | .sessions request => request.cursor
  | .events request => request.cursor

def SearchRequest.withoutCursor : SearchRequest → SearchRequest
  | .sessions request => .sessions { request with cursor := none }
  | .events request => .events { request with cursor := none }

def searchDisabled : SearchFailure :=
  .sessionQuery ⟨"session search is disabled: this deployment configures the session-query index with openAt \"never\"",
    .searchDisabled⟩

def searchAborted : SearchFailure := .sessionQuery ⟨"session-search aborted", .aborted⟩

def sessionNotFound (sessionId : String) : SearchFailure :=
  .sessionQuery ⟨s!"session \"{sessionId}\" not found", .sessionNotFound⟩

/-- `page` over what the window fetched, and the payload that the window belongs to. -/
def page (session : Option SessionHeader) (window : Window SearchHit) (payload : CursorPayload) :
    SessionSearchPage where
  session := session
  items := window.items
  nextCursor :=
    if window.hasMore then some (encodeCursor { payload with offset := window.stop }) else none

def requestOffset (cursor : Option SessionSearchCursor) (expected : CursorPayload) :
    Except SearchFailure Nat :=
  match cursor with
  | none => .ok 0
  | some cursor => decodeCursor cursor expected

namespace Engine

variable (env : Environment) (e : Engine)

def corpus : Corpus where
  persistedSessions := e.main.persistedSessions
  liveSessions := e.liveSessions
  persistenceVisible := e.lastPersistenceIdentity.any env.hasService

/-- `_targetObservation` -/
def targetObservation (sessionId : String) : Except SearchFailure (SessionHeader × Generation) :=
  match e.liveSessions.get? sessionId with
  | some row => .ok (rowHeader sessionId row.header, .live row.generation)
  | none =>
    match e.main.persistedSessions.get? sessionId with
    | some row =>
      if (e.corpus env).persistenceVisible then
        .ok (rowHeader sessionId row.header, .persisted e.persistenceEpoch row.generation)
      else .error (sessionNotFound sessionId)
    | none => .error (sessionNotFound sessionId)

def sessionPayload (request : NormalizedSessionRequest) : CursorPayload where
  instanceId := e.instanceId
  scope := .sessions
  fingerprint := request.fingerprint env.runtime
  generation := .whole e.globalGeneration
  offset := 0

def eventPayload (request : NormalizedEventRequest) (generation : Generation) : CursorPayload where
  instanceId := e.instanceId
  scope := .events
  fingerprint := request.fingerprint env.runtime
  generation
  offset := 0

def sessionHits (request : NormalizedSessionRequest) : Except SearchFailure (List SearchHit) :=
  (List.map fun row => .session (sessionHit env.config row)) <$>
    querySessions env.fts (e.corpus env) request

def eventHits (request : NormalizedEventRequest) : Except SearchFailure (List SearchHit) :=
  (List.map fun row => .event (eventHit env.config row)) <$>
    queryEvents env.fts (e.corpus env) request

/-- `searchSessions` after the reconciliation -/
def answerSessions (request : NormalizedSessionRequest) (cursor : Option SessionSearchCursor) :
    Except SearchFailure SessionSearchPage := do
  let payload := e.sessionPayload env request
  let offset ← requestOffset cursor payload
  let all ← e.sessionHits env request
  return page none ⟨all, offset, request.limit⟩ payload

/-- `searchEvents` after the reconciliation -/
def answerEvents (request : NormalizedEventRequest) (cursor : Option SessionSearchCursor) :
    Except SearchFailure SessionSearchPage := do
  let target ← e.targetObservation env request.sessionId
  let payload := e.eventPayload env request target.2
  let offset ← requestOffset cursor payload
  let all ← e.eventHits env request
  return page (some target.1) ⟨all, offset, request.limit⟩ payload

def refresh (exec : SearchExec) : Except SearchFailure Engine := do
  let observation ← exec.observed
  e.reconcile env.hasService observation exec.failure

/-- A search from the check of its request on: `answer` is what it computes once the index is
written. -/
def run {α : Type} (normalized : Except SearchFailure α) (exec : SearchExec)
    (answer : Engine → α → Except SearchFailure SessionSearchPage) :
    Engine × Except SearchFailure SessionSearchPage :=
  if env.config.openAt = .never then (e, .error searchDisabled)
  else
    match normalized with
    | .error failure => (e, .error failure)
    | .ok request =>
      match e.refresh env exec with
      | .error failure => (e, .error failure)
      | .ok next => (next, if exec.aborted then .error searchAborted else answer next request)

def searchSessions (request : SessionSearchRequest SessionSearchCursor) (exec : SearchExec) :
    Engine × Except SearchFailure SessionSearchPage :=
  e.run env (normalizeSessionRequest request env.config) exec fun next normalized =>
    next.answerSessions env normalized request.cursor

def searchEvents (request : SessionEventSearchRequest SessionSearchCursor) (exec : SearchExec) :
    Engine × Except SearchFailure SessionSearchPage :=
  e.run env (normalizeEventRequest request env.config) exec fun next normalized =>
    next.answerEvents env normalized request.cursor

def search (request : SearchRequest) (exec : SearchExec) :
    Engine × Except SearchFailure SessionSearchPage :=
  match request with
  | .sessions request => e.searchSessions env request exec
  | .events request => e.searchEvents env request exec

def ranked (request : SearchRequest) : Except SearchFailure (List SearchHit) :=
  match request with
  | .sessions request => normalizeSessionRequest request env.config >>= e.sessionHits env
  | .events request => normalizeEventRequest request env.config >>= e.eventHits env

end Engine

end Searches

section Runs

structure Answer where
  before : Engine
  request : SearchRequest
  exec : SearchExec
  after : Engine
  result : Except SearchFailure SessionSearchPage

inductive SearchAction where
  | search (request : SearchRequest) (exec : SearchExec)
  | reopen (kept : Bool)

variable (env : Environment)

def Engine.answer (e : Engine) (request : SearchRequest) (exec : SearchExec) : Answer where
  before := e
  request := request
  exec := exec
  after := (e.search env request exec).1
  result := (e.search env request exec).2

def searchStep (e : Engine) : SearchAction → Option (Engine × List Answer)
  | .search request exec =>
    let answer := e.answer env request exec
    some (answer.after, [answer])
  | .reopen kept => some (e.reopen kept, [])

def Searches : Engine → List Answer → Prop := Reaches (searchStep env) (fun _ _ => True) {}

end Runs

end DshKernel.SessionQuery
