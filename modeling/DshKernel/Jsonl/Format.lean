import DshKernel.Jsonl.SeqRanges
import DshKernel.Session.ChunkRows
import DshKernel.Session.Header

/-!
# The format of a session file

A header line and event lines, each the JSON text of one record and ended by a newline. The scanner
takes the bytes in chunks and stops short of a line that is torn.
-/

namespace DshKernel.Jsonl

open Js Session Session

/-- `JSON.stringify` with the UTF-8 encoding of its text, and the way back. -/
structure JsonText where
  stringify : Json → List UInt8
  parse : List UInt8 → Option Json

def JsonText.Carries (text : JsonText) (value : Json) : Prop :=
  text.parse (text.stringify value) = some value ∧ (0x0A : UInt8) ∉ text.stringify value

inductive SessionOrigin where
  | subagent
  deriving DecidableEq, Repr

structure SessionHeader where
  version : Nat
  id : String
  createdAt : Nat
  cwd : Option String := none
  parentSession : Option String := none
  isSeeded : Bool
  origin : Option SessionOrigin := none
  delegationDepth : Option Nat := none
  agentPreset : Option String := none
  version_eq : version = SESSION_FORMAT_VERSION
  createdAt_le : createdAt ≤ maxSafeInteger
  delegationDepth_le : ∀ depth ∈ delegationDepth, depth ≤ maxSafeInteger

def SessionOrigin.toJson : SessionOrigin → Json
  | subagent => .str "subagent"

def SessionHeader.toJson (header : SessionHeader) : Json :=
  .obj ([("version", .ofNat header.version), ("id", .str header.id),
      ("createdAt", .ofNat header.createdAt)]
    ++ optional "cwd" (header.cwd.map .str)
    ++ optional "parentSession" (header.parentSession.map .str)
    ++ [("isSeeded", .bool header.isSeeded)]
    ++ optional "origin" (header.origin.map (·.toJson))
    ++ optional "delegationDepth" (header.delegationDepth.map .ofNat)
    ++ optional "agentPreset" (header.agentPreset.map .str))

inductive HeaderLineError where
  | missingCut
  | unexpectedCut
  | invalidCut (cut : Nat)
  deriving DecidableEq, Repr

def HeaderLineError.text : HeaderLineError → String
  | missingCut => "seeded session header requires an inherited event count"
  | unexpectedCut => "unseeded session header inherited event count must be 0"
  | invalidCut cut => s!"SessionLogOffset must be a non-negative safe integer, got {cut}"

def toHeaderLine (header : SessionHeader) (inheritedEventCount : Option Nat) :
    Except HeaderLineError Json :=
  let cut := inheritedEventCount.getD 0
  if header.isSeeded && inheritedEventCount.isNone then .error .missingCut
  else if maxSafeInteger < cut then .error (.invalidCut cut)
  else if !header.isSeeded && cut != 0 then .error .unexpectedCut
  else .ok (.obj ([("type", .str "session"), ("version", .ofNat header.version),
      ("id", .str header.id), ("createdAt", .ofNat header.createdAt)]
    ++ optional "cwd" (header.cwd.map .str)
    ++ optional "parentSession" (header.parentSession.map .str)
    ++ optional "seedLength" (if header.isSeeded then some (.ofNat cut) else none)
    ++ optional "origin" (header.origin.map (·.toJson))
    ++ [("delegationDepth", .ofNat (header.delegationDepth.getD 0))]
    ++ optional "agentPreset" (header.agentPreset.map .str)))

inductive ScanError where
  | headerless
  | headerNotJson
  | foreignFormat (id : Option Json) (version : Number)
  | notHeader
  | retiredFields
  | unparsable (line : Nat)
  | seqGap (line expected : Nat) (got : Option Json)
  | finished
  deriving Repr

/-- The message, for a rendering of values; `newer` tells a version above the supported one. -/
def ScanError.text (platform : Platform) (newer : Number → Bool) : ScanError → String
  | headerless => "empty or header-less session log"
  | headerNotJson => "corrupt session log: header line is not valid JSON"
  | foreignFormat id version =>
    let name := platform.toText id
    let found := platform.toText (some (.num version))
    if newer version then
      s!"session \"{name}\" uses log format v{found}, but this harness reads only v{SESSION_FORMAT_VERSION}: the log was written by a newer harness — upgrade the harness to open it"
    else
      s!"session \"{name}\" uses log format v{found}, older than the supported v{SESSION_FORMAT_VERSION}, and this build ships no upgrade path for it"
  | notHeader => "corrupt session log: first line is not a session header"
  | retiredFields => "session header uses retired policy baseline fields"
  | unparsable line => s!"corrupt session log: unparsable committed event at line {line}"
  | seqGap line expected got =>
    let found := platform.toText got
    s!"corrupt session log: seq gap in committed region at line {line} (expected {expected}, got {found})"
  | finished => "cannot write to a finished session log scanner"

/-- `SessionStorageMetadata` -/
structure StorageMetadata where
  «meta» : Json
  inheritedEventCount : Nat
  deriving Repr

def isHeaderLine (value : Json) : Bool :=
  (value.get? "type").bind Json.asString == some "session"
    && ((value.get? "version").bind Json.asNumber).isSome
    && ((value.get? "id").bind Json.asString).isSome
    && ((value.get? "createdAt").bind isEventSeq).isSome
    && ((value.get? "delegationDepth").bind isEventSeq).isSome
    && (value.get? "seedLength").all (fun cut => (isEventSeq cut).isSome)
    && (value.get? "origin").all (fun origin => origin.asString == some "subagent")
    && (value.get? "agentPreset").all (fun preset => preset.asString.isSome)

/-- The metadata of a line that `isHeaderLine` accepts. -/
def fromHeaderLine (line : Json) : Except ScanError StorageMetadata :=
  if hasOwn line "sandboxMode" || hasOwn line "approvalPolicy" then .error .retiredFields
  else .ok {
    «meta» := .obj (optional "version" (line.get? "version") ++ optional "id" (line.get? "id")
      ++ optional "createdAt" (line.get? "createdAt") ++ optional "cwd" (line.get? "cwd")
      ++ optional "parentSession" (line.get? "parentSession")
      ++ [("isSeeded", .bool (line.get? "seedLength").isSome)]
      ++ optional "origin" (line.get? "origin")
      ++ optional "delegationDepth" (line.get? "delegationDepth")
      ++ optional "agentPreset" (line.get? "agentPreset"))
    inheritedEventCount := ((line.get? "seedLength").bind isEventSeq).getD 0 }

def refuseForeignFormatVersion (parsed : Json) : Except ScanError Unit :=
  match parsed.get? "version" with
  | some (.num version) =>
    if version.strictEq (.ofNat SESSION_FORMAT_VERSION) then .ok ()
    else .error (.foreignFormat (parsed.get? "id") version)
  | _ => .ok ()

def replaceField (record : Json) (key : String) (value : Json) : Json :=
  match record with
  | .obj fields => .obj (fields.map fun field => if field.1 = key then (key, value) else field)
  | other => other

/-- A value of the type `SessionSeq[]`. -/
def asSeqs (value : Json) : Option (List Nat) :=
  value.asArray.bind (·.mapM isEventSeq)

/-- The record in storage form. Its `sourceEventSeqs`, when it has any, are seqs by type. -/
def encodeProvenanceForStorage (record : Json) : Json :=
  match (record.get? "sourceEventSeqs").bind asSeqs with
  | none => record
  | some seqs =>
    replaceField record "sourceEventSeqs" (.arr ((encodeSeqRanges seqs).map EncodedSeq.toJson))

def expandProvenanceFromStorage (parsed : Json) : Except String Json :=
  match parsed with
  | .obj fields =>
    match (Json.obj fields).get? "sourceEventSeqs" with
    | none => .ok parsed
    | some stored =>
      match ((Json.obj fields).get? "seq").bind asSafeInteger with
      | none => .error "stored session event seq must be a non-negative safe integer"
      | some seq =>
        if seq.toInt < 0 then .error "stored session event seq must be a non-negative safe integer"
        else
          match decodeSeqRanges stored seq.toInt.toNat with
          | .error message => .error message
          | .ok seqs => .ok (replaceField parsed "sourceEventSeqs" (.arr (seqs.map .ofNat)))
  | _ => .error "stored session records must be objects"

section Encode

variable (text : JsonText) (R : Rounding)

def batchRecords (packChunks : Bool) (events : List Json) : List Json :=
  if packChunks then (packChunkRuns R events).map StorageRecord.toJson else events

def eventLines (packChunks : Bool) (events : List Json) : List UInt8 :=
  List.intercalate [0x0A] ((batchRecords R packChunks events).map fun record =>
    text.stringify (encodeProvenanceForStorage record))

def encodeEventBatch (packChunks : Bool) (events : List Json) : List UInt8 :=
  eventLines text R packChunks events ++ [0x0A]

def headerBytes (header : SessionHeader) (inheritedEventCount : Nat) :
    Except HeaderLineError (List UInt8) :=
  match toHeaderLine header (if header.isSeeded then some inheritedEventCount else none) with
  | .error failure => .error failure
  | .ok line => .ok (text.stringify line ++ [0x0A])

/-- A log as its batches were appended, each with its own choice of packing. A batch without
events is not written. -/
def batchesBytes (batches : List (Bool × List Json)) : List UInt8 :=
  batches.flatMap fun batch =>
    if batch.2 = [] then [] else encodeEventBatch text R batch.1 batch.2

end Encode

/-- `SessionLogScanner` -/
structure Scanner where
  «meta» : Json
  inheritedEventCount : Nat
  events : List Json := []
  fragments : List (List UInt8) := []
  fragmentBytes : Nat := 0
  inputBytes : Nat
  committedBytes : Nat
  eventLine : Nat := 0
  issue : Option ScanError := none
  finished : Bool := false
  deriving Repr

/-- `SessionLogScan` -/
structure SessionLogScan where
  «meta» : Json
  inheritedEventCount : Nat
  events : List Json
  committedBytes : Nat
  deriving Repr

/-- `Buffer.concat` with a total length. -/
def concatBuffers (buffers : List (List UInt8)) (total : Nat) : List UInt8 :=
  buffers.flatten.take total ++ List.replicate (total - buffers.flatten.length) 0

/-- `event.type === 'turn/end'` -/
def isTurnEnd (event : Json) : Bool := (event.get? "type").bind Json.asString == some "turn/end"

def pushRow : List Json → List Json → Except (Nat × Option Json) (List Json)
  | events, [] => .ok events
  | events, event :: rest =>
    if isNumber (event.get? "seq") (.ofNat events.length) then pushRow (events ++ [event]) rest
    else .error (events.length, event.get? "seq")

section Scan

variable (text : JsonText) (R : Rounding)

def parseHeaderRecord (record : List UInt8) : Except ScanError StorageMetadata :=
  if record.getLast? ≠ some 0x0A ∨ 0x0A ∈ record.dropLast then .error .headerless
  else
    match text.parse record.dropLast with
    | none => .error .headerNotJson
    | some parsed =>
      match refuseForeignFormatVersion parsed with
      | .error failure => .error failure
      | .ok () => if isHeaderLine parsed then fromHeaderLine parsed else .error .notHeader

def Scanner.create (headerRecord : List UInt8) : Except ScanError Scanner :=
  match parseHeaderRecord text headerRecord with
  | .error failure => .error failure
  | .ok parsed => .ok {
      «meta» := parsed.meta
      inheritedEventCount := parsed.inheritedEventCount
      inputBytes := headerRecord.length
      committedBytes := headerRecord.length }

/-- The events of a line: `undefined` when the line does not parse. -/
def decodeLine (line : List UInt8) : Option (List Json) :=
  match text.parse line with
  | none => none
  | some parsed =>
    match expandProvenanceFromStorage parsed with
    | .error _ => none
    | .ok record =>
      match decodeStorageRecord R record with
      | .error _ => none
      | .ok events => some events

def Scanner.consumeEventLine (scanner : Scanner) (line : List UInt8) (endByte : Nat) :
    Except ScanError Scanner :=
  let scanner := { scanner with eventLine := scanner.eventLine + 1 }
  match decodeLine text R line with
  | none =>
    .ok { scanner with issue := some (scanner.issue.getD (.unparsable scanner.eventLine)) }
  | some decoded =>
    match scanner.issue with
    | some issue => if decoded.any isTurnEnd then .error issue else .ok scanner
    | none =>
      match pushRow scanner.events decoded with
      | .ok events => .ok { scanner with events := events, committedBytes := endByte }
      | .error (expected, got) =>
        let issue := ScanError.seqGap scanner.eventLine expected got
        if decoded.any isTurnEnd then .error issue else .ok { scanner with issue := some issue }

def Scanner.lineOf (scanner : Scanner) (fragment : List UInt8) : List UInt8 :=
  if scanner.fragments = [] then fragment
  else concatBuffers (scanner.fragments ++ if fragment = [] then [] else [fragment])
    (scanner.fragmentBytes + fragment.length)

/-- The loop of `write`: `fragment` is what has been read since the last newline, and `offset`
the position after it. -/
def Scanner.writeLoop (scanner : Scanner) (fragment : List UInt8) (offset : Nat) :
    List UInt8 → Except ScanError Scanner
  | [] =>
    if fragment = [] then .ok scanner
    else .ok { scanner with
      fragments := scanner.fragments ++ [fragment]
      fragmentBytes := scanner.fragmentBytes + fragment.length }
  | byte :: rest =>
    if byte = 0x0A then
      match Scanner.consumeEventLine text R { scanner with fragments := [], fragmentBytes := 0 }
          (scanner.lineOf fragment) (offset + 1) with
      | .error failure => .error failure
      | .ok scanner => scanner.writeLoop [] (offset + 1) rest
    else scanner.writeLoop (fragment ++ [byte]) (offset + 1) rest

def Scanner.write (scanner : Scanner) (chunk : List UInt8) : Except ScanError Scanner :=
  if scanner.finished then .error .finished
  else Scanner.writeLoop text R { scanner with inputBytes := scanner.inputBytes + chunk.length } []
    scanner.inputBytes chunk

def Scanner.finish (scanner : Scanner) : SessionLogScan :=
  ⟨scanner.meta, scanner.inheritedEventCount, scanner.events, scanner.committedBytes⟩

def scanLog (buffer : List UInt8) : Except ScanError SessionLogScan :=
  match buffer.findIdx? (· == 0x0A) with
  | none => .error .headerless
  | some headerEnd =>
    match Scanner.create text (buffer.take (headerEnd + 1)) with
    | .error failure => .error failure
    | .ok scanner =>
      match scanner.write text R (buffer.drop (headerEnd + 1)) with
      | .error failure => .error failure
      | .ok scanner => .ok scanner.finish

end Scan

end DshKernel.Jsonl
