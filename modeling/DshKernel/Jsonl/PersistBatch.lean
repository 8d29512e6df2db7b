import DshKernel.Jsonl.LineReading
import DshKernel.Jsonl.ZstdFrames
import DshKernel.Lib.FaultyProgram

/-!
# Writing a batch

A batch extends the file of its session, or is the first to make one. Every operation on files may
fail. The encoding of the root was checked before there was a handle that writes, and directories
hold nothing that is read here.
-/

namespace DshKernel.Jsonl

open Js Lib Faulty

inductive JsonlCompression where
  | zstd
  | none
  deriving DecidableEq, Repr

namespace JsonlCompression

def opposite : JsonlCompression → JsonlCompression
  | zstd => none
  | none => zstd

end JsonlCompression

def logSuffix : JsonlCompression → String
  | .zstd => ".jsonl.zstd"
  | .none => ".jsonl"

inductive StoragePlatform where
  | posix
  | win32
  deriving DecidableEq, Repr

/-- The directories that a first write makes durable, and the parent of the outermost. -/
inductive StorageDir where
  | parent
  | root
  | project
  | session
  deriving DecidableEq, Repr

inductive FileOp where
  | openLog
  | statLog
  | writeLog
  | syncLog
  | closeLog
  | closeBeforeRollback
  | openRollback
  | truncateLog
  | syncRollback
  | closeRollback
  | probeOpposite
  | closeOpposite
  | makeDir (dir : StorageDir)
  | openDir (dir : StorageDir)
  | syncDir (dir : StorageDir)
  | closeDir (dir : StorageDir)
  | ensureDurableDir (dir : StorageDir)
  | probeLog
  | closeProbe
  | openTemp
  | writeTemp
  | syncTemp
  | closeTemp
  | linkTemp
  | removeUnpublished
  | removeTemp
  | publishTemp
  | removeUnmoved
  deriving DecidableEq, Repr

inductive StoreError where
  | io (op : FileOp)
  | fileExists (op : FileOp)
  | rollback (failure rollbackFailure : StoreError)
  | encodingMismatch
  | refused
  | header (failure : HeaderLineError)
  deriving DecidableEq, Repr

/-- The files of the session directory, and whether the handle of an append is closed. -/
structure StoreState where
  files : OrderedMap String (List UInt8) := .empty
  closed : Bool := false

/-- The backend and the codec of Zstandard. `compress` is `compressZstdFrame`, and the other two are
how the reader decompresses a complete frame and what it can of an incomplete one. -/
structure Backend where
  text : JsonText
  rounding : Rounding
  packChunks : Bool
  compression : JsonlCompression
  platform : StoragePlatform
  dir : String
  compress : List UInt8 → List UInt8
  decompress : List UInt8 → Option (List UInt8)
  decompressPrefix : List UInt8 → Option (List UInt8)

/-- A failing write leaves so many bytes of what it was to write. -/
abbrev StoreProgram (α : Type) := Faulty FileOp Nat StoreError StoreState α

namespace StoreState

def get? (state : StoreState) (path : String) : Option (List UInt8) := state.files.get? path

def put (state : StoreState) (path : String) (bytes : List UInt8) : StoreState :=
  { state with files := state.files.set path bytes }

def remove (state : StoreState) (path : String) : StoreState :=
  { state with files := state.files.delete path }

end StoreState

section Operations

def change (op : FileOp) (effect : StoreState → StoreState) : StoreProgram Unit :=
  perform op (.io op) effect fun _ state => state

def operate (op : FileOp) : StoreProgram Unit := change op id

def extend (path : String) (bytes : List UInt8) (state : StoreState) : StoreState :=
  state.put path ((state.get? path).getD [] ++ bytes)

/-- `handle.writeFile(content)`, at the end of the file -/
def writeFile (op : FileOp) (path : String) (content : List UInt8) : StoreProgram Unit :=
  perform op (.io op) (extend path content) fun written => extend path (content.take written)

/-- `open(path, 'a')` -/
def openAppend (path : String) : StoreProgram Unit :=
  change .openLog fun state => { state.put path ((state.get? path).getD []) with closed := false }

def unlessExists (op : FileOp) (path : String) (next : StoreProgram Unit) : StoreProgram Unit := do
  let state ← get
  if (state.get? path).isSome then throw (.fileExists op) else next

/-- `open(path, 'wx')` -/
def openExclusive (op : FileOp) (path : String) : StoreProgram Unit :=
  unlessExists op path (change op fun state => state.put path [])

/-- `exists` -/
def probe (openOp closeOp : FileOp) (path : String) : StoreProgram Bool := do
  operate openOp
  let state ← get
  if (state.get? path).isSome then do
    operate closeOp
    pure true
  else pure false

def truncateFile (op : FileOp) (path : String) (size : Nat) : StoreProgram Unit :=
  change op fun state => state.put path (((state.get? path).getD []).take size)

/-- `rm(path, { force: true })` -/
def removeFile (op : FileOp) (path : String) : StoreProgram Unit :=
  change op fun state => state.remove path

/-- `link`, which never replaces a file -/
def linkFile (op : FileOp) (source target : String) : StoreProgram Unit :=
  unlessExists op target (change op fun state => state.put target ((state.get? source).getD []))

/-- `MoveFileExW` without the flag that lets it replace a file -/
def moveFile (op : FileOp) (source target : String) : StoreProgram Unit :=
  unlessExists op target
    (change op fun state => (state.put target ((state.get? source).getD [])).remove source)

end Operations

section Append

variable (backend : Backend)

def logPath (compression : JsonlCompression) : String :=
  backend.dir ++ "/session" ++ logSuffix compression

def encodeText (text : List UInt8) : List UInt8 :=
  match backend.compression with
  | .zstd => backend.compress text
  | .none => text

def encodeBatch (events : List Json) : List UInt8 :=
  encodeText backend (encodeEventBatch backend.text backend.rounding backend.packChunks events)

def rollbackAppend (path : String) (size : Nat) : StoreProgram Unit := do
  operate .openRollback
  ensure
    (do
      truncateFile .truncateLog path size
      operate .syncRollback)
    (operate .closeRollback)

/-- Both the rollback and the last part close the handle, the second of them to no effect. -/
def closeAppendHandle (op : FileOp) : StoreProgram Unit := do
  let state ← get
  if state.closed then pure ()
  else do
    modify fun state => { state with closed := true }
    operate op

def appendOpened (path : String) (content : List UInt8) : StoreProgram Unit := do
  operate .statLog
  let state ← get
  let before := ((state.get? path).getD []).length
  rescue
    (do
      writeFile .writeLog path content
      operate .syncLog)
    fun error => do
      rescue
        (do
          closeAppendHandle .closeBeforeRollback
          rollbackAppend path before)
        fun rollbackError => throw (.rollback error rollbackError)
      throw error

def appendLines (events : List Json) : StoreProgram Unit := do
  let content := encodeBatch backend events
  let path := logPath backend backend.compression
  openAppend path
  ensure (appendOpened path content) (closeAppendHandle .closeLog)

end Append

section Materialize

variable (backend : Backend)

def encodeMaterialization (header : SessionHeader) (inheritedEventCount : Nat) (events : List Json) :
    Except HeaderLineError (List UInt8) :=
  match headerBytes backend.text header inheritedEventCount with
  | .error failure => .error failure
  | .ok start =>
    if events = [] then .ok (encodeText backend start)
    else .ok (encodeText backend start ++ encodeBatch backend events)

def rejectOppositeArtifact : StoreProgram Unit := do
  let found ← probe .probeOpposite .closeOpposite (logPath backend backend.compression.opposite)
  if found then throw .encodingMismatch else pure ()

def rejectExistingLog : StoreProgram Unit := do
  let found ← probe .probeLog .closeProbe (logPath backend backend.compression)
  if found then throw .refused else pure ()

def tempPath (random : String) : String :=
  logPath backend backend.compression ++ "." ++ random ++ ".tmp"

def writeSyncedTempFile (random : String) (content : List UInt8) : StoreProgram Unit := do
  openExclusive .openTemp (tempPath backend random)
  ensure
    (do
      writeFile .writeTemp (tempPath backend random) content
      operate .syncTemp)
    (operate .closeTemp)

def syncDirPosix (dir : StorageDir) : StoreProgram Unit := do
  operate (.openDir dir)
  ensure (operate (.syncDir dir)) (operate (.closeDir dir))

def preparePosix (random : String) (content : List UInt8) : StoreProgram Unit := do
  operate (.makeDir .root)
  syncDirPosix .parent
  operate (.makeDir .project)
  syncDirPosix .root
  operate (.makeDir .session)
  syncDirPosix .project
  rejectExistingLog backend
  writeSyncedTempFile backend random content

def materializePosix (random : String) (content : List UInt8) : StoreProgram Unit := do
  preparePosix backend random content
  rescue (linkFile .linkTemp (tempPath backend random) (logPath backend backend.compression))
    fun error => do
      removeFile .removeUnpublished (tempPath backend random)
      throw error
  syncDirPosix .session
  rescue (removeFile .removeTemp (tempPath backend random)) fun _ => pure ()

def prepareWin32 (random : String) (content : List UInt8) : StoreProgram Unit := do
  operate (.ensureDurableDir .root)
  operate (.ensureDurableDir .project)
  operate (.ensureDurableDir .session)
  rejectExistingLog backend
  writeSyncedTempFile backend random content

def materializeWin32 (random : String) (content : List UInt8) : StoreProgram Unit := do
  prepareWin32 backend random content
  rescue (moveFile .publishTemp (tempPath backend random) (logPath backend backend.compression))
    fun error => do
      removeFile .removeUnmoved (tempPath backend random)
      throw error

def materialize (header : SessionHeader) (inheritedEventCount : Nat) (events : List Json)
    (random : String) : StoreProgram Unit := do
  rejectOppositeArtifact backend
  match encodeMaterialization backend header inheritedEventCount events with
  | .error failure => throw (.header failure)
  | .ok content =>
    match backend.platform with
    | .win32 => materializeWin32 backend random content
    | .posix => materializePosix backend random content

def persistBatch (header : SessionHeader) (events : List Json) (isMaterialized : Bool)
    (inheritedEventCount : Nat) (random : String) : StoreProgram Unit :=
  if isMaterialized then appendLines backend events
  else materialize backend header inheritedEventCount events random

end Materialize

section Reading

variable (backend : Backend)

/-- What `readStoredLog` refuses the bytes for. -/
inductive StoredLogError where
  | headerless
  | frames (message : String)
  | headerFrame
  | undecodable
  | tornRecord
  | scan (failure : ScanError)
  deriving Repr

def frameBytes (buffer : List UInt8) (range : ZstdFrameRange) : List UInt8 :=
  (buffer.drop range.start).take (range.end - range.start)

/-- `plaintext.indexOf(0x0A) === plaintext.length - 1` -/
def isHeaderFrame (plaintext : List UInt8) : Bool :=
  plaintext.findIdx? (· == 0x0A) == some (plaintext.length - 1)

def writeFrames (buffer : List UInt8) :
    Scanner → List ZstdFrameRange → Except StoredLogError Scanner
  | scanner, [] => .ok scanner
  | scanner, range :: rest =>
    match backend.decompress (frameBytes buffer range) with
    | none => .error .undecodable
    | some plaintext =>
      match scanner.write backend.text backend.rounding plaintext with
      | .error failure => .error (.scan failure)
      | .ok scanner => writeFrames buffer scanner rest

def readZstdPrefix (buffer : List UInt8) : Except StoredLogError SessionLogScan :=
  match scanZstdFrames buffer none with
  | .error message => .error (.frames message)
  | .ok { frames := [], .. } => .error .headerless
  | .ok { frames := first :: rest, tornStart } =>
    match backend.decompress (frameBytes buffer first) with
    | none => .error .undecodable
    | some headerFrame =>
      if isHeaderFrame headerFrame = false then .error .headerFrame
      else
        match Scanner.create backend.text headerFrame with
        | .error failure => .error (.scan failure)
        | .ok scanner =>
          match writeFrames backend buffer scanner rest with
          | .error failure => .error failure
          | .ok complete =>
            if complete.committedBytes ≠ complete.inputBytes then .error .tornRecord
            else
              match tornStart with
              | none => .ok complete.finish
              | some start =>
                match complete.write backend.text backend.rounding
                    ((backend.decompressPrefix (buffer.drop start)).getD []) with
                | .error failure => .error (.scan failure)
                | .ok last => .ok last.finish

def readStoredLog (buffer : List UInt8) : Except StoredLogError SessionLogScan :=
  match backend.compression with
  | .zstd => readZstdPrefix backend buffer
  | .none =>
    match scanLog backend.text backend.rounding buffer with
    | .error failure => .error (.scan failure)
    | .ok scan => .ok scan

def storedLog (state : StoreState) : Option (Except StoredLogError SessionLogScan) :=
  (state.get? (logPath backend backend.compression)).map (readStoredLog backend)

end Reading

end DshKernel.Jsonl
