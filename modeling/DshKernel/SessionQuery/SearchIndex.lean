import DshKernel.Lib.OrderedMap
import DshKernel.SessionQuery.Request

/-!
# The search index

The tables hold one row for each stored and each live session, with its documents. Every search
first brings them in line with what it observed, in one transaction, and moves the generations.
-/

namespace DshKernel.SessionQuery

open Js Lib

section Observations

structure SessionHeader where
  version : Nat
  id : String
  createdAt : Int
  cwd : Option String := none
  parentSession : Option String := none
  isSeeded : Bool := false
  delegationDepth : Option Nat := none
  agentPreset : Option String := none
  deriving DecidableEq, Repr

structure SessionEventSearchDocument where
  seq : Nat
  type : String
  time : Int
  surface : SessionEventSurface
  text : String
  deriving DecidableEq, Repr

structure ObservedSession where
  header : SessionHeader
  inheritedEventCount : Nat := 0
  documents : List SessionEventSearchDocument
  fingerprint : String
  /-- `buildSessionEventSearchDocuments` keeps the order of the log. -/
  ascending : documents.Pairwise (·.seq < ·.seq)

structure ObservedPersistedSession where
  header : SessionHeader
  revision : String
  loaded : Option ObservedSession

/-- What `_observeStable` returns. A binding is its identity. -/
structure Observation where
  persistenceBinding : Nat
  persisted : OrderedMap String ObservedPersistedSession
  live : OrderedMap String ObservedSession

end Observations

section Tables

structure SessionHeaderRow where
  version : Nat
  createdAt : Int
  cwd : Option String
  parentSession : Option String
  seedLength : Option Nat
  delegationDepth : Option Nat
  agentPreset : Option String
  deriving DecidableEq, Repr

/-- A row of `persisted_docs` or `live_docs`, without its session. -/
structure DocumentRow where
  text : List Char
  seq : Nat
  type : String
  time : Int
  surface : SessionEventSurface
  codepointLength : Nat
  deriving DecidableEq, Repr

structure DocumentRows where
  rows : List DocumentRow
  ascending : rows.Pairwise (·.seq < ·.seq)
  deriving DecidableEq

/-- A row of `persisted_sessions` with its documents. -/
structure IndexedPersistedSession where
  header : SessionHeaderRow
  revision : String
  generation : Nat
  documents : DocumentRows
  deriving DecidableEq

/-- A row of `live_sessions` with its documents. -/
structure IndexedLiveSession where
  header : SessionHeaderRow
  fingerprint : String
  persisted : Bool
  generation : Nat
  documents : DocumentRows
  deriving DecidableEq

/-- The tables of the file, and `search_state`. -/
structure MainTables where
  persistedSessions : OrderedMap String IndexedPersistedSession := .empty
  globalGeneration : Nat := 0

def headerBindings (header : SessionHeader) (inheritedEventCount : Nat) : SessionHeaderRow where
  version := header.version
  createdAt := header.createdAt
  cwd := header.cwd
  parentSession := header.parentSession
  seedLength := if header.isSeeded then some inheritedEventCount else none
  delegationDepth := header.delegationDepth
  agentPreset := header.agentPreset

def documentRow (document : SessionEventSearchDocument) : DocumentRow :=
  let text := sanitizeFtsText document.text.toList
  { text, seq := document.seq, type := document.type, time := document.time,
    surface := document.surface, codepointLength := text.length }

def ObservedSession.documentRows (entry : ObservedSession) : DocumentRows where
  rows := entry.documents.map documentRow
  ascending := List.pairwise_map.mpr entry.ascending

/-- `_replacePersistedSession` -/
def replacePersistedSession (table : OrderedMap String IndexedPersistedSession)
    (entry : ObservedSession) (revision : String) (generation : Nat) :
    OrderedMap String IndexedPersistedSession :=
  (table.delete entry.header.id).set entry.header.id
    ⟨headerBindings entry.header entry.inheritedEventCount, revision, generation,
      entry.documentRows⟩

/-- `_replaceLiveSession` -/
def replaceLiveSession (table : OrderedMap String IndexedLiveSession) (entry : ObservedSession)
    (generation : Nat) (persisted : Bool) : OrderedMap String IndexedLiveSession :=
  (table.delete entry.header.id).set entry.header.id
    ⟨headerBindings entry.header entry.inheritedEventCount, entry.fingerprint, persisted,
      generation, entry.documentRows⟩

end Tables

section Reconcile

/-- One engine over the one index file. `instanceId` counts the engines that were made, each with a
random id of its own. -/
structure Engine where
  instanceId : Nat := 0
  main : MainTables := {}
  liveSessions : OrderedMap String IndexedLiveSession := .empty
  lastPersistenceIdentity : Option Nat := none
  persistenceEpoch : Nat := 0
  globalGeneration : Nat := 0
  localGeneration : Nat := 0

structure Changes where
  persistentChanges : List (ObservedSession × String)
  persistentDeletes : List String
  liveChanges : List ObservedSession
  liveDeletes : List String

def Changes.isPersistent (changes : Changes) : Bool :=
  !changes.persistentChanges.isEmpty || !changes.persistentDeletes.isEmpty

def Changes.hasWrites (changes : Changes) : Bool :=
  changes.isPersistent || !changes.liveChanges.isEmpty || !changes.liveDeletes.isEmpty

structure LiveReplacement where
  entry : ObservedSession
  generation : Nat
  persisted : Bool

def liveReplacements (observation : Observation) (nextMainGeneration : Nat) :
    Nat → List ObservedSession → List LiveReplacement × Nat
  | nextLocalGeneration, [] => ([], nextLocalGeneration)
  | nextLocalGeneration, entry :: rest =>
    let generation := max nextLocalGeneration nextMainGeneration + 1
    let persisted := decide (entry.header.id ∈ observation.persisted.keys)
    let later := liveReplacements observation nextMainGeneration generation rest
    (⟨entry, generation, persisted⟩ :: later.1, later.2)

namespace Engine

variable (hasService : Nat → Bool) (e : Engine) (observation : Observation)

def liveChanged (entry : ObservedSession) : Bool :=
  let persisted := decide (entry.header.id ∈ observation.persisted.keys)
  match e.liveSessions.get? entry.header.id with
  | none => true
  | some indexed => indexed.fingerprint != entry.fingerprint || indexed.persisted != persisted

def changes : Changes where
  persistentChanges :=
    if hasService observation.persistenceBinding then
      observation.persisted.entries.filterMap fun entry =>
        entry.2.loaded.map fun loaded => (loaded, entry.2.revision)
    else []
  persistentDeletes :=
    if hasService observation.persistenceBinding then
      e.main.persistedSessions.keys.filter fun id => id ∉ observation.persisted.keys
    else []
  liveChanges := (observation.live.entries.map Prod.snd).filter (e.liveChanged observation)
  liveDeletes := e.liveSessions.keys.filter fun id => id ∉ observation.live.keys

def pointerChanged : Bool :=
  e.lastPersistenceIdentity.isSome &&
    e.lastPersistenceIdentity != some observation.persistenceBinding

def nextMainGeneration : Nat :=
  if (e.changes hasService observation).isPersistent then e.main.globalGeneration + 1
  else e.main.globalGeneration

def replacements : List LiveReplacement × Nat :=
  liveReplacements observation (e.nextMainGeneration hasService observation) e.localGeneration
    (e.changes hasService observation).liveChanges

def writtenMain : MainTables :=
  let changes := e.changes hasService observation
  let generation := e.nextMainGeneration hasService observation
  let deleted := changes.persistentDeletes.foldl OrderedMap.delete e.main.persistedSessions
  { persistedSessions := changes.persistentChanges.foldl
      (fun table entry => replacePersistedSession table entry.1 entry.2 generation) deleted
    globalGeneration := generation }

def writtenLive : OrderedMap String IndexedLiveSession :=
  let deleted :=
    (e.changes hasService observation).liveDeletes.foldl OrderedMap.delete e.liveSessions
  (e.replacements hasService observation).1.foldl
    (fun table replacement =>
      replaceLiveSession table replacement.entry replacement.generation replacement.persisted)
    deleted

def hasWrites : Bool := (e.changes hasService observation).hasWrites

def advanced : Engine :=
  { e with
    globalGeneration :=
      if e.hasWrites hasService observation || e.pointerChanged observation then
        e.globalGeneration + 1
      else e.globalGeneration
    persistenceEpoch :=
      if e.pointerChanged observation then e.persistenceEpoch + 1 else e.persistenceEpoch
    localGeneration := (e.replacements hasService observation).2
    lastPersistenceIdentity := some observation.persistenceBinding }

def written : Engine :=
  { e.advanced hasService observation with
    main := e.writtenMain hasService observation
    liveSessions := e.writtenLive hasService observation }

/-- `_reconcile` from its observation on, where `failure` is the message of an error of the
database. -/
def reconcile (failure : Option String) : Except SearchFailure Engine :=
  if e.hasWrites hasService observation then
    match failure with
    | some message =>
      .error (.sessionQuery ⟨s!"session-search reconciliation failed: {message}", .indexFailed⟩)
    | none => .ok (e.written hasService observation)
  else .ok (e.advanced hasService observation)

/-- Another engine opens the index: the file keeps its tables or was made anew, the live tables are
empty. -/
def reopen (kept : Bool) : Engine :=
  let main := if kept then e.main else {}
  { instanceId := e.instanceId + 1
    main
    globalGeneration := main.globalGeneration
    localGeneration := main.globalGeneration }

end Engine

end Reconcile

end DshKernel.SessionQuery
