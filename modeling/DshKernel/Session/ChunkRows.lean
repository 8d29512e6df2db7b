import DshKernel.Session.Surface

/-!
# Chunk rows

Runs of consecutive delta chunk events are stored as one row: the fields that all members share
once, their times as gaps, their texts as a list. An event that is not exactly of the packable shape
stays as it is.
-/

namespace DshKernel.Session

open Js

inductive DeltaKind where
  | textDelta
  | reasoningDelta
  | toolCallDelta
  deriving DecidableEq, Repr

def DeltaKind.chunkType : DeltaKind → String
  | .textDelta => "text-delta"
  | .reasoningDelta => "reasoning-delta"
  | .toolCallDelta => "tool-call-delta"

def DeltaKind.rowType : DeltaKind → String
  | .textDelta => "text-chunks"
  | .reasoningDelta => "reasoning-chunks"
  | .toolCallDelta => "tool-call-chunks"

structure ToolCallIdentity where
  id : String
  name : Option String
  deriving DecidableEq, Repr

structure RunShape where
  kind : DeltaKind
  turn : Number
  step : Number
  index : Number
  call : Option ToolCallIdentity
  deriving DecidableEq, Repr

structure DeltaEvent where
  event : Json
  shape : RunShape
  seq : Nat
  time : Integral
  text : String
  deriving Repr

structure ChunkRow where
  shape : RunShape
  seq0 : Nat
  time0 : Integral
  first : String
  rest : List (Integral × String)
  deriving Repr

inductive StorageRecord where
  | event (event : Json)
  | row (row : ChunkRow)
  deriving Repr

inductive StorageError where
  | malformed (tag why : String)
  | invalidSeq (value : Number)
  deriving Repr

def StorageError.text (render : Number → String) : StorageError → String
  | malformed tag why => s!"malformed {tag} storage row: {why}"
  | invalidSeq value => s!"SessionSeq must be a non-negative safe integer, got {render value}"

def MIN_RUN : Nat := 3

/-- `Object.hasOwn` -/
def hasOwn (value : Json) (key : String) : Bool := (value.get? key).isSome

def hasExactKeys (value : Json) (keys : List String) : Bool :=
  value.keys.length == keys.length && keys.all (hasOwn value)

def asSafeInteger : Json → Option Integral
  | .num (.integral value) => if value.isSafe then some value else none
  | _ => none

/-- The reads of `classify` inside the chunk: the kind, the call and the text. -/
def classifyChunk (chunk : Json) : Option (DeltaKind × Option ToolCallIdentity × String) :=
  match chunk.get? "type" with
  | some (.str "text-delta") =>
    if hasExactKeys chunk ["type", "index", "text"] then
      match chunk.get? "text" with
      | some (.str text) => some (.textDelta, none, text)
      | _ => none
    else none
  | some (.str "reasoning-delta") =>
    if hasExactKeys chunk ["type", "index", "text"] then
      match chunk.get? "text" with
      | some (.str text) => some (.reasoningDelta, none, text)
      | _ => none
    else none
  | some (.str "tool-call-delta") =>
    match chunk.get? "id", chunk.get? "argumentsDelta" with
    | some (.str id), some (.str arguments) =>
      if hasExactKeys chunk ["type", "index", "id", "argumentsDelta"] then
        some (.toolCallDelta, some ⟨id, none⟩, arguments)
      else if hasExactKeys chunk ["type", "index", "id", "name", "argumentsDelta"] then
        match chunk.get? "name" with
        | some (.str name) => some (.toolCallDelta, some ⟨id, some name⟩, arguments)
        | _ => none
      else none
    | _, _ => none
  | _ => none

def classify (event : Json) : Option DeltaEvent :=
  if (event.get? "type").bind Json.asString != some "assistant/chunk" then none
  else if !hasExactKeys event ["type", "seq", "time", "data"] then none
  else
    match (event.get? "seq").bind isEventSeq, (event.get? "time").bind asSafeInteger,
        event.get? "data" with
    | some seq, some time, some data =>
      if !data.isObject || !hasExactKeys data ["turn", "step", "chunk"] then none
      else
        match data.get? "turn", data.get? "step", data.get? "chunk" with
        | some (.num turn), some (.num step), some chunk =>
          match chunk.get? "index", classifyChunk chunk with
          | some (.num index), some (kind, call, text) =>
            some ⟨event, ⟨kind, turn, step, index, call⟩, seq, time, text⟩
          | _, _ => none
        | _, _, _ => none
    | _, _, _ => none

section Pack

variable (R : Rounding)

def continues (prev next : DeltaEvent) : Bool :=
  next.seq == prev.seq + 1 && (Integral.sub R next.time prev.time).isSafe
    && next.shape.turn.strictEq prev.shape.turn && next.shape.step.strictEq prev.shape.step
    && next.shape.index.strictEq prev.shape.index && prev.shape.call == next.shape.call

/-- The gap and the text of each member after `prev`. -/
def runGaps : DeltaEvent → List DeltaEvent → List (Integral × String)
  | _, [] => []
  | prev, next :: rest => (Integral.sub R next.time prev.time, next.text) :: runGaps next rest

def buildRow (first : DeltaEvent) (rest : List DeltaEvent) : ChunkRow :=
  ⟨first.shape, first.seq, first.time, first.text, runGaps R first rest⟩

def flushRun : List DeltaEvent → List StorageRecord
  | [] => []
  | first :: rest =>
    if MIN_RUN ≤ (first :: rest).length then [.row (buildRow R first rest)]
    else (first :: rest).map fun delta => .event delta.event

/-- The loop of `packChunkRuns` with the current run, whose kind is that of its members. -/
def packLoop : List DeltaEvent → List Json → List StorageRecord
  | run, [] => flushRun R run
  | run, event :: rest =>
    match classify event with
    | none => flushRun R run ++ .event event :: packLoop [] rest
    | some delta =>
      match run.getLast? with
      | some last =>
        if delta.shape.kind == last.shape.kind && continues R last delta then
          packLoop (run ++ [delta]) rest
        else flushRun R run ++ packLoop [delta] rest
      | none => packLoop [delta] rest

def packChunkRuns (events : List Json) : List StorageRecord := packLoop R [] events

end Pack

def chunkJson (shape : RunShape) (text : String) : Json :=
  match shape.call with
  | none => .obj [("type", .str shape.kind.chunkType), ("index", .num shape.index),
      ("text", .str text)]
  | some call => .obj ([("type", .str shape.kind.chunkType), ("index", .num shape.index),
      ("id", .str call.id)] ++ optional "name" (call.name.map .str)
      ++ [("argumentsDelta", .str text)])

def memberData (shape : RunShape) (text : String) : Json :=
  .obj [("turn", .num shape.turn), ("step", .num shape.step), ("chunk", chunkJson shape text)]

def memberEvent (shape : RunShape) (seq : Nat) (time : Integral) (text : String) : Json :=
  .obj [("type", .str "assistant/chunk"), ("seq", .ofNat seq), ("time", .num (.integral time)),
    ("data", memberData shape text)]

def ChunkRow.gaps (row : ChunkRow) : List Integral := row.rest.map Prod.fst

def ChunkRow.texts (row : ChunkRow) : List String := row.first :: row.rest.map Prod.snd

def ChunkRow.dataJson (row : ChunkRow) : Json :=
  let base := [("turn", .num row.shape.turn), ("step", .num row.shape.step),
    ("index", .num row.shape.index)]
  let dt := [("dt", .arr (row.gaps.map fun gap => .num (.integral gap)))]
  match row.shape.call with
  | none => .obj (base ++ dt ++ [("texts", .arr (row.texts.map .str))])
  | some call => .obj (base ++ dt ++ [("id", .str call.id)] ++ optional "name" (call.name.map .str)
      ++ [("args", .arr (row.texts.map .str))])

def ChunkRow.toJson (row : ChunkRow) : Json :=
  .obj [("type", .str row.shape.kind.rowType), ("seq0", .ofNat row.seq0),
    ("time0", .num (.integral row.time0)), ("data", row.dataJson)]

def StorageRecord.toJson : StorageRecord → Json
  | .event value => value
  | .row value => value.toJson

section Decode

variable (R : Rounding)

def rowKind : String → Option DeltaKind
  | "text-chunks" => some .textDelta
  | "reasoning-chunks" => some .reasoningDelta
  | "tool-call-chunks" => some .toolCallDelta
  | _ => none

/-- The shared fields of a row and its members: `validateRunData`. -/
def validateRunData (tag : String) (data : Json) (payloadKey : String) :
    Except StorageError ((Number × Number × Number) × String × List (Integral × String)) :=
  match data.get? "turn", data.get? "step", data.get? "index" with
  | some (.num turn), some (.num step), some (.num index) =>
    match (data.get? payloadKey).bind Json.asArray |>.bind (·.mapM Json.asString) with
    | some (first :: texts) =>
      match (data.get? "dt").bind Json.asArray |>.bind (·.mapM asSafeInteger) with
      | none => .error (.malformed tag "dt must be an array of safe integers")
      | some gaps =>
        if gaps.length ≠ texts.length then
          .error (.malformed tag
            s!"dt length {gaps.length} does not match {texts.length + 1} members")
        else .ok ((turn, step, index), first, gaps.zip texts)
    | _ => .error (.malformed tag s!"{payloadKey} must be a non-empty string array")
  | _, _, _ => .error (.malformed tag "turn/step/index must be numbers")

def timesStaySafe : Integral → List Integral → Bool
  | _, [] => true
  | time, gap :: rest =>
    (Integral.add R time gap).isSafe && timesStaySafe (Integral.add R time gap) rest

/-- The identity of the call in a row: `undefined` unless the row is of tool calls. -/
def validateRowCall (tag : String) (kind : DeltaKind) (data : Json) :
    Except StorageError (Option ToolCallIdentity) :=
  match kind with
  | .toolCallDelta =>
    let withName := hasExactKeys data ["turn", "step", "index", "id", "name", "dt", "args"]
    if !withName && !hasExactKeys data ["turn", "step", "index", "id", "dt", "args"] then
      .error (.malformed tag "data must be exactly \x7bturn, step, index, id, name?, dt, args\x7d")
    else
      match data.get? "id", data.get? "name" with
      | some (.str id), some (.str name) => .ok (some ⟨id, some name⟩)
      | some (.str id), none => .ok (some ⟨id, none⟩)
      | _, _ => .error (.malformed tag "id (and name when present) must be strings")
  | _ =>
    if !hasExactKeys data ["turn", "step", "index", "dt", "texts"] then
      .error (.malformed tag "data must be exactly \x7bturn, step, index, dt, texts\x7d")
    else .ok none

def validateRow (value : Json) (kind : DeltaKind) : Except StorageError ChunkRow :=
  let tag := kind.rowType
  if !hasExactKeys value ["type", "seq0", "time0", "data"] then
    .error (.malformed tag "envelope must be exactly \x7btype, seq0, time0, data\x7d")
  else
    match (value.get? "seq0").bind isEventSeq with
    | none => .error (.malformed tag "seq0 must be a non-negative safe integer")
    | some seq0 =>
      match (value.get? "time0").bind asSafeInteger with
      | none => .error (.malformed tag "time0 must be a safe integer")
      | some time0 =>
        match (value.get? "data").filter Json.isObject with
        | none => .error (.malformed tag "data must be an object")
        | some data =>
          match validateRowCall tag kind data with
          | .error failure => .error failure
          | .ok call =>
            match validateRunData tag data
                (if kind = .toolCallDelta then "args" else "texts") with
            | .error failure => .error failure
            | .ok ((turn, step, index), first, rest) =>
              if maxSafeInteger < seq0 + rest.length then
                .error (.malformed tag "member seqs must stay safe integers")
              else if !timesStaySafe R time0 (rest.map Prod.fst) then
                .error (.malformed tag "member times must stay safe integers")
              else .ok ⟨⟨kind, turn, step, index, call⟩, seq0, time0, first, rest⟩

/-- The loop of `expandRow` after the member at `seq` and `time`. -/
def expandRest (shape : RunShape) : Nat → Integral → List (Integral × String) → List Json
  | _, _, [] => []
  | seq, time, (gap, text) :: rest =>
    memberEvent shape (seq + 1) (Integral.add R time gap) text ::
      expandRest shape (seq + 1) (Integral.add R time gap) rest

def expandRow (row : ChunkRow) : List Json :=
  memberEvent row.shape row.seq0 row.time0 row.first ::
    expandRest R row.shape row.seq0 row.time0 row.rest

def decodeStorageRecord (value : Json) : Except StorageError (List Json) :=
  match ((value.get? "type").bind Json.asString).bind rowKind with
  | some kind =>
    match validateRow R value kind with
    | .error failure => .error failure
    | .ok row => .ok (expandRow R row)
  | none =>
    match value.get? "seq" with
    | some (.num seq) =>
      if (isEventSeq (.num seq)).isSome then .ok [value] else .error (.invalidSeq seq)
    | _ => .ok [value]

def decodeRecords : List Json → Except StorageError (List Json)
  | [] => .ok []
  | value :: rest =>
    match decodeStorageRecord R value with
    | .error failure => .error failure
    | .ok events =>
      match decodeRecords rest with
      | .error failure => .error failure
      | .ok more => .ok (events ++ more)

end Decode

end DshKernel.Session
