import DshKernel.Lib.Machine
import DshKernel.Lib.History

/-!
# The file tools

A call of `read`, `write` or `edit` goes on in pieces, and other calls may take place between them:
the guard of a mutation is chosen before it waits for the lock of its target, and what it made is
observed after the lock is released.
-/

namespace DshKernel.Files

open Lib

section Text

/-- Non-overlapping occurrences from the left, past the rest of the last one. -/
def countFrom (needle : List Char) : Nat → List Char → Nat
  | _, [] => 0
  | skip + 1, _ :: rest => countFrom needle skip rest
  | 0, c :: rest =>
    if needle.isPrefixOf (c :: rest) then countFrom needle (needle.length - 1) rest + 1
    else countFrom needle 0 rest

def replaceFrom (needle replacement : List Char) : Nat → List Char → List Char
  | _, [] => []
  | skip + 1, _ :: rest => replaceFrom needle replacement skip rest
  | 0, c :: rest =>
    if needle.isPrefixOf (c :: rest) then
      replacement ++ replaceFrom needle replacement (needle.length - 1) rest
    else c :: replaceFrom needle replacement 0 rest

/-- `countOccurrences`, for a needle that is not empty -/
def countOccurrences (content needle : List Char) : Nat := countFrom needle 0 content

/-- `content.split(needle).join(replacement)` -/
def splitJoin (content needle replacement : List Char) : List Char :=
  replaceFrom needle replacement 0 content

inductive LineEndings where
  | lf
  | crlf

/-- `normalizeLineEndings` -/
def normalizeLineEndings (content : List Char) : List Char := splitJoin content ['\r', '\n'] ['\n']

def takeUnits : Nat → List Char → List Char
  | _, [] => []
  | units, c :: rest =>
    let size := if c.toNat < 0x10000 then 1 else 2
    if size ≤ units then c :: takeUnits (units - size) rest else []

/-- `detectLineEndings` -/
def detectLineEndings (raw : List Char) : LineEndings :=
  let sample := takeUnits 4096 raw
  let crlfCount := countOccurrences sample ['\r', '\n']
  let lfCount := countOccurrences sample ['\n'] - crlfCount
  if lfCount < crlfCount then .crlf else .lf

/-- `restoreLineEndings` -/
def restoreLineEndings (content : List Char) : LineEndings → List Char
  | .lf => content
  | .crlf => splitJoin (normalizeLineEndings content) ['\n'] ['\r', '\n']

end Text

inductive FsErrorCode where
  | notFound
  | notRegularFile
  | notText
  | notObserved
  | staleVersion
  | editNotFound
  | ambiguousEdit
  /-- Cancelled, denied, or failed by the host. -/
  | other
  deriving DecidableEq

/-- `applyLiteralEdit` -/
def applyLiteralEdit (content oldString newString : List Char) (replaceAll : Bool) :
    Except FsErrorCode (List Char) :=
  let oldNorm := normalizeLineEndings oldString
  if oldNorm.isEmpty then .error .editNotFound
  else
    let newNorm := normalizeLineEndings newString
    let replacements := countOccurrences content oldNorm
    if replacements = 0 then .error .editNotFound
    else if !replaceAll && 1 < replacements then .error .ambiguousEdit
    else .ok (splitJoin content oldNorm newNorm)

def decodeUtf8 (buffer : ByteArray) : Option (List Char) :=
  (String.fromUTF8? buffer).map fun text =>
    match text.toList with
    | '\uFEFF' :: rest => rest
    | content => content

def encodeUtf8 (content : List Char) : ByteArray := (String.ofList content).toUTF8

/-- `readForEdit`, `applyLiteralEdit` and `restoreLineEndings`, as `editText` composes them -/
def editedContent (buffer : ByteArray) (oldString newString : List Char) (replaceAll : Bool) :
    Except FsErrorCode ByteArray :=
  if buffer.data.contains 0 then .error .notText
  else
    match decodeUtf8 buffer with
    | none => .error .notText
    | some raw =>
      match applyLiteralEdit (normalizeLineEndings raw) oldString newString replaceAll with
      | .error code => .error code
      | .ok edited => .ok (encodeUtf8 (restoreLineEndings edited (detectLineEndings raw)))

/-- What `readText` returns of a file. -/
def readContent (buffer : ByteArray) : Option (List Char) :=
  if (buffer.data.toList.take 8192).contains 0 then none else decodeUtf8 buffer

inductive FsObservation where
  | present (version : String)
  | absent
  deriving DecidableEq

inductive FsWriteIntent where
  | createIfAbsent
  | replaceIfVersion (version : String)
  deriving DecidableEq

inductive FsEntry where
  | file (version : String) (content : ByteArray)
  /-- A directory, or another entry that is no regular file. -/
  | other

inductive Request where
  | read
  | write (content : List Char)
  | edit (oldString newString : List Char) (replaceAll : Bool)

inductive Phase where
  /-- The path is resolved. -/
  | started
  /-- A read found nothing, and has not told it. -/
  | missing
  /-- A read found a file at this version. -/
  | statted (version : String)
  | loaded (version : String) (content : ByteArray)
  /-- The guard is chosen. -/
  | guarded
  /-- In the queue of the lock, or at its head and not yet checked. -/
  | queued
  /-- At the head of the lock, and let through by the guard. -/
  | checked
  | staged (content : ByteArray)
  | published
  /-- The lock is released, and the observation is not yet made. -/
  | written (version : String)
  | finished

structure FsCall where
  owner : Option Nat
  target : String
  request : Request
  intent : Option FsWriteIntent := none
  phase : Phase := .started

structure FileTools where
  files : String → Option FsEntry
  /-- The versions that a target has had. -/
  versions : String → List String
  /-- `observed` -/
  observed : Nat → String → Option FsObservation := fun _ _ => none
  calls : List FsCall := []
  locks : String → List Nat := fun _ => []

def FileTools.start (files : String → Option FsEntry) : FileTools where
  files := files
  versions target :=
    match files target with
    | some (.file version _) => [version]
    | _ => []

inductive FsEvent where
  | observed (owner : Nat) (target : String) (observation : FsObservation)
  /-- A read returned content that it observed at this version. -/
  | returned (call : Nat) (owner : Option Nat) (target : String) (version : String) (content : ByteArray)
  | guarded (call : Nat) (owner : Option Nat) (target : String) (intent : FsWriteIntent)
  /-- The target got new content in place of what it had. -/
  | published (call : Nat) (owner : Option Nat) (target : String)
      (replaced : Option (String × ByteArray)) (version : String) (content : ByteArray)
  /-- A write or an edit ended well. -/
  | succeeded (call : Nat)
  | failed (call : Nat) (code : FsErrorCode)

inductive FsAction where
  | call (owner : Option Nat) (target : String) (request : Request)
  | stat (call : Nat)
  | load (call : Nat)
  /-- The intent listeners of the policy run. -/
  | intend (call : Nat)
  | enqueue (call : Nat)
  /-- `probe`, under the lock, and the guard. -/
  | check (call : Nat)
  /-- `mkdir` of parents of the target, which may be targets themselves. -/
  | mkdir (call : Nat) (made : List String)
  | stage (call : Nat)
  /-- `link` or `rename`: the file gets the version that a later `probe` finds. -/
  | publish (call : Nat) (version : String)
  /-- `probe` after the publication, and the release of the lock. -/
  | release (call : Nat)
  | observe (call : Nat)
  /-- A call is cancelled or denied, or the host fails it. -/
  | fail (call : Nat)

namespace FileTools

/-- The policy listener of `fs/write-intent`. -/
def writeIntent (s : FileTools) (owner : Option Nat) (target : String) : FsWriteIntent :=
  match owner.bind fun owner => s.observed owner target with
  | some (.present version) => .replaceIfVersion version
  | _ => .createIfAbsent

/-- The policy listener of `fs/edit-intent`. -/
def editIntent (s : FileTools) (owner : Option Nat) (target : String) : Except FsErrorCode FsWriteIntent :=
  match owner.bind fun owner => s.observed owner target with
  | none => .error .notObserved
  | some .absent => .error .notFound
  | some (.present version) => .ok (.replaceIfVersion version)

def call? (s : FileTools) (id : Nat) : Option FsCall := s.calls[id]?

def go (s : FileTools) (id : Nat) (call : FsCall) : FileTools := { s with calls := s.calls.set id call }

def unlock (s : FileTools) (id : Nat) (target : String) : FileTools :=
  { s with locks := fun other => if other = target then (s.locks target).erase id else s.locks other }

def abandon (s : FileTools) (id : Nat) (call : FsCall) (code : FsErrorCode) : FileTools × List FsEvent :=
  ((s.go id { call with phase := .finished }).unlock id call.target, [.failed id code])

/-- `observe`, which does nothing for a call without a session. -/
def observe (s : FileTools) (owner : Option Nat) (target : String) (observation : FsObservation) :
    FileTools × List FsEvent :=
  match owner with
  | none => (s, [])
  | some owner =>
    ({ s with observed := fun other place =>
        if other = owner ∧ place = target then some observation else s.observed other place },
      [.observed owner target observation])

def admits : Option FsWriteIntent → Option FsEntry → Except FsErrorCode Unit
  | some (.replaceIfVersion _), none => .error .staleVersion
  | _, some .other => .error .notRegularFile
  | some (.replaceIfVersion expected), some (.file version _) =>
    if version = expected then .ok () else .error .staleVersion
  | some .createIfAbsent, some (.file _ _) => .error .notObserved
  | _, _ => .ok ()

def put (s : FileTools) (target version : String) (content : ByteArray) : FileTools :=
  { s with
    files := fun other => if other = target then some (.file version content) else s.files other
    versions := fun other => if other = target then version :: s.versions target else s.versions other }

def stepOf (s : FileTools) (id : Nat) (call : FsCall) : FsAction → Option (FileTools × List FsEvent)
  | .stat _ =>
    match call.phase, call.request with
    | .started, .read =>
      match s.files call.target with
      | none => some (s.go id { call with phase := .missing }, [])
      | some .other => some (s.abandon id call .notRegularFile)
      | some (.file version _) => some (s.go id { call with phase := .statted version }, [])
    | _, _ => none
  | .load _ =>
    match call.phase with
    | .statted version =>
      match s.files call.target with
      | none => some (s.abandon id call .notFound)
      | some .other => some (s.abandon id call .notRegularFile)
      | some (.file _ content) =>
        if (readContent content).isSome then
          some (s.go id { call with phase := .loaded version content }, [])
        else some (s.abandon id call .notText)
    | _ => none
  | .intend _ =>
    match call.phase, call.request with
    | .started, .write _ =>
      let intent := s.writeIntent call.owner call.target
      some (s.go id { call with phase := .guarded, intent := some intent },
        [.guarded id call.owner call.target intent])
    | .started, .edit _ _ _ =>
      match s.editIntent call.owner call.target with
      | .error code => some (s.abandon id call code)
      | .ok intent =>
        some (s.go id { call with phase := .guarded, intent := some intent },
          [.guarded id call.owner call.target intent])
    | _, _ => none
  | .enqueue _ =>
    match call.phase with
    | .guarded =>
      some ({ s.go id { call with phase := .queued } with
        locks := fun other =>
          if other = call.target then s.locks call.target ++ [id] else s.locks other }, [])
    | _ => none
  | .check _ =>
    match call.phase with
    | .queued =>
      if (s.locks call.target).head? ≠ some id then none
      else
        match admits call.intent (s.files call.target) with
        | .error code => some (s.abandon id call code)
        | .ok () => some (s.go id { call with phase := .checked }, [])
    | _ => none
  | .mkdir _ made =>
    match call.phase with
    | .checked =>
      if call.target ∈ made ∨ made.any fun place => (s.files place).isSome then none
      else some ({ s with files := fun other => if other ∈ made then some .other else s.files other }, [])
    | _ => none
  | .stage _ =>
    match call.phase, call.request with
    | .checked, .write content => some (s.go id { call with phase := .staged (encodeUtf8 content) }, [])
    | .checked, .edit oldString newString replaceAll =>
      match s.files call.target with
      | some (.file _ buffer) =>
        match editedContent buffer oldString newString replaceAll with
        | .error code => some (s.abandon id call code)
        | .ok content => some (s.go id { call with phase := .staged content }, [])
      | _ => some (s.abandon id call .other)
    | _, _ => none
  | .publish _ version =>
    match call.phase with
    | .staged content =>
      let done := (s.put call.target version content).go id { call with phase := .published }
      match s.files call.target with
      | none => some (done, [.published id call.owner call.target none version content])
      | some .other =>
        if call.intent = some .createIfAbsent then some (s.abandon id call .notRegularFile)
        else some (s.abandon id call .other)
      | some (.file old previous) =>
        if call.intent = some .createIfAbsent then some (s.abandon id call .notObserved)
        else some (done, [.published id call.owner call.target (some (old, previous)) version content])
    | _ => none
  | .release _ =>
    match call.phase with
    | .published =>
      let version := match s.files call.target with
        | some (.file version _) => version
        | _ => "missing:" ++ call.target
      some ((s.go id { call with phase := .written version }).unlock id call.target, [])
    | _ => none
  | .observe _ =>
    let ended := s.go id { call with phase := .finished }
    match call.phase with
    | .missing =>
      let (observed, told) := ended.observe call.owner call.target .absent
      some (observed, told ++ [.failed id .notFound])
    | .loaded version content =>
      let (observed, told) := ended.observe call.owner call.target (.present version)
      some (observed, .returned id call.owner call.target version content :: told)
    | .written version =>
      let (observed, told) := ended.observe call.owner call.target (.present version)
      some (observed, told ++ [.succeeded id])
    | _ => none
  | .fail _ =>
    match call.phase with
    | .finished | .missing | .written _ => none
    | .queued => if (s.locks call.target).head? = some id then some (s.abandon id call .other) else none
    | _ => some (s.abandon id call .other)
  | .call _ _ _ => none

def step (s : FileTools) (a : FsAction) : Option (FileTools × List FsEvent) :=
  match a with
  | .call owner target request => some ({ s with calls := s.calls ++ [{ owner, target, request }] }, [])
  | .stat id | .load id | .intend id | .enqueue id | .check id | .mkdir id _ | .stage id | .publish id _
  | .release id | .observe id | .fail id => (s.call? id).bind fun call => s.stepOf id call a

end FileTools

def FreshVersions (s : FileTools) : FsAction → Prop
  | .publish id version => ∀ call, s.call? id = some call → version ∉ s.versions call.target
  | _ => True

end DshKernel.Files
