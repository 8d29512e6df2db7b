import DshKernel.Js.Number
import DshKernel.Js.Text
import Mathlib.Data.List.Sort

/-!
# Search requests

A request is checked and copied before the search starts. What identifies it to a cursor does not
depend on the order of its filters or of their values.
-/

namespace DshKernel.SessionQuery

open Js

inductive SessionQueryErrorCode where
  | searchDisabled
  | indexFailed
  | aborted
  | persistenceFailed
  | invalidQuery
  | invalidFilter
  | invalidLimit
  | invalidCursor
  | staleCursor
  | sessionNotFound
  deriving DecidableEq, Repr

structure SessionQueryError where
  message : String
  code : SessionQueryErrorCode
  deriving DecidableEq, Repr

/-- What a search throws: an error of its own, or the `TypeError` of reading a property of null. -/
inductive SearchFailure where
  | sessionQuery (error : SessionQueryError)
  | typeError
  deriving DecidableEq, Repr

def SearchFailure.code : SearchFailure → Option SessionQueryErrorCode
  | .sessionQuery error => some error.code
  | .typeError => none

section Filters

inductive SessionAvailability where
  | live
  | persisted
  deriving DecidableEq, Repr

inductive SessionEventSurface where
  | current
  | shadowed
  | logOnly
  deriving DecidableEq, Repr

def SessionAvailability.text : SessionAvailability → String
  | .live => "live"
  | .persisted => "persisted"

def SessionEventSurface.text : SessionEventSurface → String
  | .current => "current"
  | .shadowed => "shadowed"
  | .logOnly => "log-only"

inductive RangeBound where
  | finite (value : Rat)
  | notFinite
  deriving DecidableEq, Repr

structure RangeArgument where
  from? : Option RangeBound := none
  to? : Option RangeBound := none
  deriving DecidableEq, Repr

/-- A range that `validateRange` accepts. -/
structure SessionResultRange where
  from? : Option Rat
  to? : Option Rat
  ordered : ∀ low ∈ from?, ∀ high ∈ to?, low ≤ high
  deriving DecidableEq

/-- `ρ` is the type of the ranges. -/
inductive SessionResultFilter (ρ : Type) where
  | id (values : List String)
  | cwd (values : List (Option String))
  | createdAt (range : ρ)
  | parent (values : List (Option String))
  | availability (values : List SessionAvailability)
  deriving DecidableEq

inductive SessionEventMetadataFilter (ρ : Type) where
  | seq (range : ρ)
  | time (range : ρ)
  | type (values : List String)
  | surface (values : List SessionEventSurface)
  deriving DecidableEq

def invalidFilter (detail : String) : SearchFailure :=
  .sessionQuery ⟨s!"session {detail}", .invalidFilter⟩

def invalidRange (name detail : String) : SearchFailure := invalidFilter s!"{name} filter {detail}"

/-- `none` for a bound that is not finite. -/
def RangeBound.toFinite : Option RangeBound → Option (Option Rat)
  | none => some none
  | some (.finite value) => some (some value)
  | some .notFinite => none

/-- `copyRange`, which returns what `validateRange` checked. -/
def copyRange (kind : String) (range : RangeArgument) : Except SearchFailure SessionResultRange :=
  match RangeBound.toFinite range.from?, RangeBound.toFinite range.to? with
  | none, _ => .error (invalidRange kind "from must be finite")
  | _, none => .error (invalidRange kind "to must be finite")
  | some low, some high =>
    if h : ∀ a ∈ low, ∀ b ∈ high, a ≤ b then .ok ⟨low, high, h⟩
    else .error (invalidRange kind "from must be less than or equal to to")

def materializeSessionResultFilter :
    SessionResultFilter RangeArgument → Except SearchFailure (SessionResultFilter SessionResultRange)
  | .id values => .ok (.id values)
  | .cwd values => .ok (.cwd values)
  | .createdAt range => .createdAt <$> copyRange "created-at" range
  | .parent values => .ok (.parent values)
  | .availability values => .ok (.availability values)

def materializeMetadataFilter : SessionEventMetadataFilter RangeArgument →
    Except SearchFailure (SessionEventMetadataFilter SessionResultRange)
  | .seq range => .seq <$> copyRange "seq" range
  | .time range => .time <$> copyRange "time" range
  | .type values => .ok (.type values)
  | .surface values => .ok (.surface values)

end Filters

section Normalization

/-- `FTS_HIGHLIGHT_START` -/
def ftsHighlightStart : Char := '\uFDD0'

/-- `FTS_HIGHLIGHT_END` -/
def ftsHighlightEnd : Char := '\uFDD1'

/-- `SQLITE_MAX_PAGE_LIMIT` -/
def sqliteMaxPageLimit : Nat := maxSafeInteger - 1

def sanitizeFtsText (text : List Char) : List Char :=
  text.map fun char =>
    if char = '\u0000' ∨ char = ftsHighlightStart ∨ char = ftsHighlightEnd then '\uFFFD' else char

def normalizeQuery (value : String) : Except SearchFailure String :=
  let query := collapseWhitespace false (trim value.toList)
  if query = [] then
    .error (.sessionQuery ⟨"session-search query must contain non-whitespace text", .invalidQuery⟩)
  else if '\u0000' ∈ query then
    .error (.sessionQuery ⟨"session-search query must not contain NUL", .invalidQuery⟩)
  else .ok (String.ofList (sanitizeFtsText query))

inductive OpenAt where
  | startup
  | firstSearch
  | never
  deriving DecidableEq, Repr

/-- What `resolveConfig` let through, as far as searches use it. -/
structure ResolvedConfig where
  openAt : OpenAt := .startup
  defaultLimit : Nat := 20
  maxLimit : Nat := 100
  snippetChars : Nat := 240
  one_le_defaultLimit : 1 ≤ defaultLimit := by decide
  defaultLimit_le : defaultLimit ≤ maxLimit := by decide
  maxLimit_le : maxLimit ≤ sqliteMaxPageLimit := by decide
  one_le_snippetChars : 1 ≤ snippetChars := by decide

def normalizeLimit (value : Option Number) (limits : ResolvedConfig) : Except SearchFailure Nat :=
  let limit := value.getD (.ofNat limits.defaultLimit)
  let maxLimit := min limits.maxLimit sqliteMaxPageLimit
  if !limit.isSafeInteger || limit.toInt < 1 || (maxLimit : Int) < limit.toInt then
    .error (.sessionQuery
      ⟨s!"session-search limit must be an integer between 1 and {maxLimit}", .invalidLimit⟩)
  else .ok limit.toInt.toNat

/-- `γ` is the type of the cursors. -/
structure SessionSearchRequest (γ : Type) where
  query : String
  sessionFilters : List (SessionResultFilter RangeArgument) := []
  eventFilters : List (SessionEventMetadataFilter RangeArgument) := []
  limit : Option Number := none
  cursor : Option γ := none

structure SessionEventSearchRequest (γ : Type) where
  sessionId : String
  query : String
  filters : List (SessionEventMetadataFilter RangeArgument) := []
  limit : Option Number := none
  cursor : Option γ := none

structure NormalizedSessionRequest where
  query : String
  sessionFilters : List (SessionResultFilter SessionResultRange)
  eventFilters : List (SessionEventMetadataFilter SessionResultRange)
  limit : Nat

structure NormalizedEventRequest where
  sessionId : String
  query : String
  filters : List (SessionEventMetadataFilter SessionResultRange)
  limit : Nat

variable {γ : Type}

def normalizeSessionRequest (request : SessionSearchRequest γ) (limits : ResolvedConfig) :
    Except SearchFailure NormalizedSessionRequest := do
  let sessionFilters ← request.sessionFilters.mapM materializeSessionResultFilter
  let eventFilters ← request.eventFilters.mapM materializeMetadataFilter
  let query ← normalizeQuery request.query
  let limit ← normalizeLimit request.limit limits
  return { query, sessionFilters, eventFilters, limit }

def normalizeEventRequest (request : SessionEventSearchRequest γ) (limits : ResolvedConfig) :
    Except SearchFailure NormalizedEventRequest := do
  let filters ← request.filters.mapM materializeMetadataFilter
  let query ← normalizeQuery request.query
  let limit ← normalizeLimit request.limit limits
  return { sessionId := request.sessionId, query, filters, limit }

end Normalization

section Fingerprints

/-- What the canonical order of filters takes from the runtime: `localeCompare`, and the JSON texts
of canonical filters. -/
structure Runtime where
  localeCompare : String → String → Ordering
  sessionFilterText : SessionResultFilter SessionResultRange → String
  eventFilterText : SessionEventMetadataFilter SessionResultRange → String

variable (runtime : Runtime) {α : Type}

def compareNullable : Option String → Option String → Ordering
  | none, none => .eq
  | none, some _ => .lt
  | some _, none => .gt
  | some a, some b => if a = b then .eq else runtime.localeCompare a b

/-- `[...values].sort(compareNullable)` -/
def sortValues (text : α → Option String) (values : List α) : List α :=
  values.insertionSort fun a b => (compareNullable runtime (text a) (text b)).isLE

def SessionResultFilter.canonical {ρ : Type} : SessionResultFilter ρ → SessionResultFilter ρ
  | .id values => .id (sortValues runtime some values)
  | .cwd values => .cwd (sortValues runtime (fun value => value) values)
  | .createdAt range => .createdAt range
  | .parent values => .parent (sortValues runtime (fun value => value) values)
  | .availability values => .availability (sortValues runtime (fun value => some value.text) values)

def SessionEventMetadataFilter.canonical {ρ : Type} :
    SessionEventMetadataFilter ρ → SessionEventMetadataFilter ρ
  | .seq range => .seq range
  | .time range => .time range
  | .type values => .type (sortValues runtime some values)
  | .surface values => .surface (sortValues runtime (fun value => some value.text) values)

/-- `canonicalFilters`, for what makes one filter canonical and for its JSON text. -/
def canonicalFilters (canonical : α → α) (text : α → String) (filters : List α) : List α :=
  (filters.map canonical).insertionSort fun a b => (runtime.localeCompare (text a) (text b)).isLE

inductive RequestFingerprint where
  | events (sessionId query : String)
      (filters : List (SessionEventMetadataFilter SessionResultRange)) (limit : Nat)
  | sessions (query : String) (sessionFilters : List (SessionResultFilter SessionResultRange))
      (eventFilters : List (SessionEventMetadataFilter SessionResultRange)) (limit : Nat)
  deriving DecidableEq

def canonicalSessionFilters (filters : List (SessionResultFilter SessionResultRange)) :
    List (SessionResultFilter SessionResultRange) :=
  canonicalFilters runtime (SessionResultFilter.canonical runtime) runtime.sessionFilterText filters

def canonicalEventFilters (filters : List (SessionEventMetadataFilter SessionResultRange)) :
    List (SessionEventMetadataFilter SessionResultRange) :=
  canonicalFilters runtime (SessionEventMetadataFilter.canonical runtime) runtime.eventFilterText
    filters

/-- `requestFingerprint` -/
def NormalizedEventRequest.fingerprint (request : NormalizedEventRequest) : RequestFingerprint :=
  .events request.sessionId request.query (canonicalEventFilters runtime request.filters)
    request.limit

def NormalizedSessionRequest.fingerprint (request : NormalizedSessionRequest) :
    RequestFingerprint :=
  .sessions request.query (canonicalSessionFilters runtime request.sessionFilters)
    (canonicalEventFilters runtime request.eventFilters) request.limit

variable {runtime}

theorem sortValues_perm (text : α → Option String) (values : List α) :
    (sortValues runtime text values).Perm values :=
  List.perm_insertionSort _ values

variable {holds : α → Bool} {text : α → String} {canonical : α → α}

theorem all_canonicalFilters
    (h : ∀ filter, holds (canonical filter) = holds filter) (filters : List α) :
    (canonicalFilters runtime canonical text filters).all holds = filters.all holds := by
  have hperm : (canonicalFilters runtime canonical text filters).Perm (filters.map canonical) :=
    List.perm_insertionSort _ _
  rw [hperm.all_eq, List.all_map]
  exact congrArg (fun f => List.all filters f) (funext h)

theorem all_of_canonicalFilters
    (h : ∀ filter, holds (canonical filter) = holds filter) {filters others : List α}
    (heq : canonicalFilters runtime canonical text filters =
      canonicalFilters runtime canonical text others) : filters.all holds = others.all holds :=
  calc
    filters.all holds = (canonicalFilters runtime canonical text filters).all holds :=
      (all_canonicalFilters h filters).symm
    _ = (canonicalFilters runtime canonical text others).all holds := by rw [heq]
    _ = others.all holds := all_canonicalFilters h others

end Fingerprints

end DshKernel.SessionQuery
