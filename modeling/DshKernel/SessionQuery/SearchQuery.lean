import DshKernel.SessionQuery.SearchIndex

/-!
# The queries over the index

The statement of a search selects the documents that match, live rows before stored ones of the
same session, keeps those that the filters accept, and ranks them.
-/

namespace DshKernel.SessionQuery

open Js Lib

/-- A row of `matched`. -/
structure SearchRow where
  sessionId : String
  header : SessionHeaderRow
  live : Bool
  persisted : Bool
  seq : Nat
  type : String
  time : Int
  surface : SessionEventSurface
  markedText : List Char
  matchCount : Nat
  documentLength : Nat
  deriving DecidableEq, Repr

section Predicates

inductive SqlPredicate where
  | never
  | inList (column : SearchRow → String) (values : List String)
  | inNullableList (column : SearchRow → Option String) (values : List (Option String))
  | atLeast (column : SearchRow → Int) (bound : Rat)
  | atMost (column : SearchRow → Int) (bound : Rat)
  | isLive
  | isPersisted

def SqlPredicate.holds (row : SearchRow) : SqlPredicate → Bool
  | .never => false
  | .inList column values => values.contains (column row)
  | .inNullableList column values => values.contains (column row)
  | .atLeast column bound => decide (bound ≤ column row)
  | .atMost column bound => decide ((column row : Rat) ≤ bound)
  | .isLive => row.live
  | .isPersisted => row.persisted

/-- The number of bindings; a null of a list is tested without one. -/
def SqlPredicate.params : SqlPredicate → Nat
  | .never => 0
  | .inList _ values => values.length
  | .inNullableList _ values => values.countP Option.isSome
  | .atLeast _ _ => 1
  | .atMost _ _ => 1
  | .isLive => 0
  | .isPersisted => 0

/-- `addList` -/
def addList (column : SearchRow → String) (values : List String) : List SqlPredicate :=
  if values = [] then [.never] else [.inList column values]

/-- `addNullableList` -/
def addNullableList (column : SearchRow → Option String) (values : List (Option String)) :
    List SqlPredicate :=
  if values = [] then [.never] else [.inNullableList column values]

/-- `addRange` -/
def addRange (column : SearchRow → Int) (range : SessionResultRange) : List SqlPredicate :=
  range.from?.toList.map (.atLeast column) ++ range.to?.toList.map (.atMost column)

def addAvailability : List SessionAvailability → List SqlPredicate
  | [] => [.never]
  | [.live] => [.isLive]
  | [.persisted] => [.isPersisted]
  | _ => []

def sessionClauses : SessionResultFilter SessionResultRange → List SqlPredicate
  | .id values => addList SearchRow.sessionId values
  | .cwd values => addNullableList (fun row => row.header.cwd) values
  | .createdAt range => addRange (fun row => row.header.createdAt) range
  | .parent values => addNullableList (fun row => row.header.parentSession) values
  | .availability values => addAvailability values.eraseDups

def eventClauses : SessionEventMetadataFilter SessionResultRange → List SqlPredicate
  | .seq range => addRange (fun row => row.seq) range
  | .time range => addRange SearchRow.time range
  | .type values => addList SearchRow.type values
  | .surface values => addList (fun row => row.surface.text) (values.map SessionEventSurface.text)

/-- `SQLITE_PORTABLE_VARIABLE_LIMIT` -/
def sqlitePortableVariableLimit : Nat := 32766

/-- `SQLITE_FTS5_OUTER_PREDICATE_LIMIT` -/
def sqliteFts5OuterPredicateLimit : Nat := 14

def assertPortableBindingCount (count : Nat) : Except SearchFailure Unit :=
  if count > sqlitePortableVariableLimit then
    .error (.sessionQuery ⟨s!"session-search request exceeds SQLite's portable {
      sqlitePortableVariableLimit}-variable limit; reduce filter values", .invalidFilter⟩)
  else .ok ()

def assertFts5OuterPredicateCount (count : Nat) : Except SearchFailure Unit :=
  if count > sqliteFts5OuterPredicateLimit then
    .error (.sessionQuery ⟨s!"session-search request exceeds the supported SQLite FTS5 outer-predicate budget of {
      sqliteFts5OuterPredicateLimit}; reduce filters", .invalidFilter⟩)
  else .ok ()

def bindClauses : Nat → List SqlPredicate → Except SearchFailure Nat
  | params, [] => .ok params
  | params, clause :: rest => do
    assertPortableBindingCount (params + clause.params)
    bindClauses (params + clause.params) rest

structure SqlWhere where
  clauses : List SqlPredicate
  params : Nat

def SqlWhere.holds (condition : SqlWhere) (row : SearchRow) : Bool :=
  condition.clauses.all (SqlPredicate.holds row)

def buildWhere (clauses : List SqlPredicate) : Except SearchFailure SqlWhere := do
  let params ← bindClauses 0 clauses
  assertFts5OuterPredicateCount clauses.length
  return { clauses, params }

def buildSessionWhere (filters : List (SessionResultFilter SessionResultRange)) :
    Except SearchFailure SqlWhere :=
  buildWhere (filters.flatMap sessionClauses)

def buildEventWhere (filters : List (SessionEventMetadataFilter SessionResultRange)) :
    Except SearchFailure SqlWhere :=
  buildWhere (filters.flatMap eventClauses)

end Predicates

section Candidates

/-- `quoteFtsData` -/
def quoteFtsData (query : String) : String :=
  let quoted := query.toList.flatMap fun char => if char = '"' then ['"', '"'] else [char]
  String.ofList ('"' :: quoted ++ ['"'])

/-- A full-text index and its `highlight`: the text with its matches marked, for a text that an
expression matches. -/
abbrev FullText : Type := String → List Char → Option (List Char)

variable (fts : FullText)

def matchCount (markedText : List Char) : Nat :=
  (byteLength markedText - byteLength (markedText.filter (· ≠ ftsHighlightStart))) /
    ftsHighlightStart.utf8Size

def searchRow (query sessionId : String) (header : SessionHeaderRow) (live persisted : Bool)
    (document : DocumentRow) : Option SearchRow :=
  (fts (quoteFtsData query) document.text).map fun markedText =>
    { sessionId, header, live, persisted, seq := document.seq, type := document.type,
      time := document.time, surface := document.surface, markedText,
      matchCount := matchCount markedText, documentLength := document.codepointLength }

/-- What a search sees of the index: the tables, and whether a persistence service is mounted. -/
structure Corpus where
  persistedSessions : OrderedMap String IndexedPersistedSession
  liveSessions : OrderedMap String IndexedLiveSession
  persistenceVisible : Bool

namespace Corpus

variable (corpus : Corpus) (query : String)

def persistedRows (entry : String × IndexedPersistedSession) : List SearchRow :=
  if corpus.persistenceVisible ∧ entry.1 ∉ corpus.liveSessions.keys then
    entry.2.documents.rows.filterMap (searchRow fts query entry.1 entry.2.header false true)
  else []

def liveRows (entry : String × IndexedLiveSession) : List SearchRow :=
  entry.2.documents.rows.filterMap (searchRow fts query entry.1 entry.2.header true
    (corpus.persistenceVisible && entry.2.persisted))

/-- `matched` of `selectedDocumentsSql` -/
def matched : List SearchRow :=
  corpus.persistedSessions.entries.flatMap (corpus.persistedRows fts query) ++
    corpus.liveSessions.entries.flatMap (corpus.liveRows fts query)

end Corpus

end Candidates

section Ranking

/-- `match_count DESC, document_length ASC, time DESC` -/
def relevance : SearchRow → SearchRow → Ordering :=
  compareLex (fun a b => compare b.matchCount a.matchCount)
    (compareLex (fun a b => compare a.documentLength b.documentLength)
      fun a b => compare b.time a.time)

def eventOrder : SearchRow → SearchRow → Ordering :=
  compareLex relevance fun a b => compare b.seq a.seq

def sessionOrder : SearchRow → SearchRow → Ordering :=
  compareLex relevance
    (compareLex (fun a b => compare a.sessionId b.sessionId) fun a b => compare b.seq a.seq)

def orderBy (order : SearchRow → SearchRow → Ordering) (rows : List SearchRow) : List SearchRow :=
  rows.insertionSort fun a b => (order a b).isLE

/-- `ROW_NUMBER()` among the rows of the same session -/
def eventRank (rows : List SearchRow) (row : SearchRow) : Nat :=
  rows.countP (fun other => other.sessionId == row.sessionId && (eventOrder other row).isLT) + 1

def bestMatches (rows : List SearchRow) : List SearchRow :=
  rows.filter fun row => eventRank rows row == 1

end Ranking

section Queries

variable (fts : FullText) (corpus : Corpus)

/-- All rows of the statement of `_querySessions`, for its conditions. -/
def rankedSessions (query : String) (sessionWhere eventWhere : SqlWhere) : List SearchRow :=
  orderBy sessionOrder (bestMatches ((corpus.matched fts query).filter fun row =>
    sessionWhere.holds row && eventWhere.holds row))

/-- All rows of the statement of `_queryEvents`, for its conditions. -/
def rankedEvents (query sessionId : String) (eventWhere : SqlWhere) : List SearchRow :=
  orderBy eventOrder ((corpus.matched fts query).filter fun row =>
    row.sessionId == sessionId && eventWhere.holds row)

/-- The bindings of `selectedDocumentsParams`. -/
def selectedDocumentsParamCount : Nat := 10

/-- The rows of `_querySessions` before its limit. -/
def querySessions (request : NormalizedSessionRequest) : Except SearchFailure (List SearchRow) := do
  let sessionWhere ← buildSessionWhere request.sessionFilters
  let eventWhere ← buildEventWhere request.eventFilters
  assertFts5OuterPredicateCount (sessionWhere.clauses.length + eventWhere.clauses.length)
  assertPortableBindingCount
    (selectedDocumentsParamCount + sessionWhere.params + eventWhere.params + 2)
  return rankedSessions fts corpus request.query sessionWhere eventWhere

/-- The rows of `_queryEvents` before its limit. -/
def queryEvents (request : NormalizedEventRequest) : Except SearchFailure (List SearchRow) := do
  let eventWhere ← buildEventWhere request.filters
  assertFts5OuterPredicateCount (1 + eventWhere.clauses.length)
  assertPortableBindingCount (selectedDocumentsParamCount + 1 + eventWhere.params + 2)
  return rankedEvents fts corpus request.query request.sessionId eventWhere

end Queries

end DshKernel.SessionQuery
