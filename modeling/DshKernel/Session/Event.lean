import DshKernel.Js.Json

/-!
# Session events

The event union of the session log with the payloads that its readers look into.
`toJson` is the JavaScript object an event is: the admission checks and the storage
codecs see events only through it.
-/

namespace DshKernel.Session

open Js

def optional (key : String) : Option Json → List (String × Json)
  | none => []
  | some value => [(key, value)]

theorem lookup_optional (key other : String) (value : Option Json) (rest : List (String × Json)) :
    (optional key value ++ rest).lookup other =
      if other = key then value.or (rest.lookup other) else rest.lookup other := by
  cases value with
  | none => simp [optional]
  | some value =>
    by_cases h : other = key
    · simp [optional, h]
    · simp [optional, List.lookup_cons, h, beq_false_of_ne h]

theorem fieldsLossless_append (xs ys : List (String × Json)) :
    Json.fieldsLossless (xs ++ ys) = (Json.fieldsLossless xs && Json.fieldsLossless ys) := by
  induction xs with
  | nil => simp [Json.fieldsLossless]
  | cons entry rest ih => simp [Json.fieldsLossless, ih, Bool.and_assoc]

theorem fieldsLossless_optional (key : String) (value : Option Json) :
    Json.fieldsLossless (optional key value) = value.all Json.isLossless := by
  cases value <;> simp [optional, Json.fieldsLossless]

theorem fieldsWellFormed_append (xs ys : List (String × Json)) :
    Json.FieldsWellFormed (xs ++ ys) ↔ Json.FieldsWellFormed xs ∧ Json.FieldsWellFormed ys := by
  simp [Json.fieldsWellFormed_iff, or_imp, forall_and]

theorem fieldsWellFormed_optional (key : String) (value : Option Json) :
    Json.FieldsWellFormed (optional key value) ↔ ∀ item ∈ value, item.WellFormed := by
  cases value <;> simp [optional, Json.FieldsWellFormed]

inductive ContentBlock where
  | text (text : String)
  | reasoning (text : String)
  | image (attachment : Json)
  | toolCall (id name arguments : String)
  | toolResult (toolCallId : String) (content : List ContentBlock) (isError : Option Bool)
  deriving Repr

mutual

def ContentBlock.toJson : ContentBlock → Json
  | .text text => .obj [("type", .str "text"), ("text", .str text)]
  | .reasoning text => .obj [("type", .str "reasoning"), ("text", .str text)]
  | .image attachment => .obj [("type", .str "image"), ("attachment", attachment)]
  | .toolCall id name arguments =>
    .obj [("type", .str "tool-call"), ("id", .str id), ("name", .str name),
      ("arguments", .str arguments)]
  | .toolResult toolCallId content isError =>
    .obj ([("type", .str "tool-result"), ("toolCallId", .str toolCallId),
      ("content", .arr (contentToJson content))] ++ optional "isError" (isError.map .bool))

def contentToJson : List ContentBlock → List Json
  | [] => []
  | block :: rest => block.toJson :: contentToJson rest

end

structure ModelMessageSource where
  provider : String
  model : String
  replayState : Option Json := none
  deriving Repr

def ModelMessageSource.toJson (source : ModelMessageSource) : Json :=
  .obj ([("kind", .str "model"), ("provider", .str source.provider),
    ("model", .str source.model)] ++ optional "replayState" source.replayState)

structure ToolMessageSource where
  callId : String
  deriving Repr

def ToolMessageSource.toJson (source : ToolMessageSource) : Json :=
  .obj [("kind", .str "tool"), ("callId", .str source.callId)]

/-- `MessageSourceMap` with the kinds that plugins merge into it as `extension`. -/
inductive MessageSource where
  | user
  | plugin (plugin : String) (form : List (String × Json))
  | model (source : ModelMessageSource)
  | tool (source : ToolMessageSource)
  | extension (kind : String) (fields : List (String × Json))
  deriving Repr

def MessageSource.kind : MessageSource → String
  | .user => "user"
  | .plugin _ _ => "plugin"
  | .model _ => "model"
  | .tool _ => "tool"
  | .extension kind _ => kind

def MessageSource.toJson : MessageSource → Json
  | .user => .obj [("kind", .str "user")]
  | .plugin name form => .obj ([("kind", .str "plugin"), ("plugin", .str name)] ++ form)
  | .model source => source.toJson
  | .tool source => source.toJson
  | .extension kind fields => .obj (("kind", .str kind) :: fields)

def messageToJson (id role : String) (content : List Json) (source : Json) : Json :=
  .obj [("id", .str id), ("role", .str role), ("content", .arr content), ("source", source)]

structure UserMessage where
  id : String
  content : List ContentBlock
  source : MessageSource
  deriving Repr

def UserMessage.toJson (message : UserMessage) : Json :=
  messageToJson message.id "user" (contentToJson message.content) message.source.toJson

structure AssistantMessage where
  id : String
  content : List ContentBlock
  source : ModelMessageSource
  deriving Repr

def AssistantMessage.toJson (message : AssistantMessage) : Json :=
  messageToJson message.id "assistant" (contentToJson message.content) message.source.toJson

structure ToolResultBlock where
  toolCallId : String
  content : List ContentBlock
  isError : Option Bool := none
  deriving Repr

def ToolResultBlock.toJson (block : ToolResultBlock) : Json :=
  (ContentBlock.toolResult block.toolCallId block.content block.isError).toJson

/-- Its content is the one-element tuple of `block`. -/
structure ToolResultMessage where
  id : String
  block : ToolResultBlock
  source : ToolMessageSource
  deriving Repr

def ToolResultMessage.toJson (message : ToolResultMessage) : Json :=
  messageToJson message.id "user" [message.block.toJson] message.source.toJson

inductive Message where
  | user (message : UserMessage)
  | assistant (message : AssistantMessage)
  | toolResult (message : ToolResultMessage)
  deriving Repr

structure TokenUsage where
  inputTokens : Number
  outputTokens : Number
  totalTokens : Option Number := none
  cacheReadTokens : Option Number := none
  cacheWriteTokens : Option Number := none
  reasoningTokens : Option Number := none
  deriving Repr

def TokenUsage.toJson (usage : TokenUsage) : Json :=
  .obj ([("inputTokens", .num usage.inputTokens), ("outputTokens", .num usage.outputTokens)]
    ++ optional "totalTokens" (usage.totalTokens.map .num)
    ++ optional "cacheReadTokens" (usage.cacheReadTokens.map .num)
    ++ optional "cacheWriteTokens" (usage.cacheWriteTokens.map .num)
    ++ optional "reasoningTokens" (usage.reasoningTokens.map .num))

inductive TurnEndReason where
  | completed
  | aborted (reason : Json)
  | blocked
  | error (error : Json)
  | maxTokens
  | interrupted
  deriving Repr

def TurnEndReason.toJson : TurnEndReason → Json
  | .completed => .obj [("kind", .str "completed")]
  | .aborted reason => .obj [("kind", .str "aborted"), ("reason", reason)]
  | .blocked => .obj [("kind", .str "blocked")]
  | .error failure => .obj [("kind", .str "error"), ("error", failure)]
  | .maxTokens => .obj [("kind", .str "max-tokens")]
  | .interrupted => .obj [("kind", .str "interrupted")]

structure LlmCallConfig where
  provider : String
  model : String
  reasoningEffort : Option String := none
  temperature : Option Number := none
  maxTokens : Option Number := none
  stop : Option (List String) := none
  deriving Repr

def LlmCallConfig.toJson (config : LlmCallConfig) : Json :=
  .obj ([("provider", .str config.provider), ("model", .str config.model)]
    ++ optional "reasoningEffort" (config.reasoningEffort.map .str)
    ++ optional "temperature" (config.temperature.map .num)
    ++ optional "maxTokens" (config.maxTokens.map .num)
    ++ optional "stop" (config.stop.map fun stop => .arr (stop.map .str)))

/-- Both markers are `true` or absent. -/
structure LlmCallConfigAdapterDefaults where
  reasoningEffort : Bool := false
  maxTokens : Bool := false
  deriving Repr

/-- A property that is `true` or absent. -/
def flag (key : String) (present : Bool) : List (String × Json) :=
  if present then [(key, .bool true)] else []

def LlmCallConfigAdapterDefaults.toJson (defaults : LlmCallConfigAdapterDefaults) : Json :=
  .obj (flag "reasoningEffort" defaults.reasoningEffort ++ flag "maxTokens" defaults.maxTokens)

structure EpochHeader where
  config : LlmCallConfig
  adapterDefaults : Option LlmCallConfigAdapterDefaults := none
  system : Option String := none
  tools : Option (List Json) := none
  deriving Repr

def EpochHeader.toJson (header : EpochHeader) : Json :=
  .obj ([("config", header.config.toJson)]
    ++ optional "adapterDefaults" (header.adapterDefaults.map (·.toJson))
    ++ optional "system" (header.system.map .str)
    ++ optional "tools" (header.tools.map .arr))

inductive RequestHeaderReason where
  | initial
  | resume
  | change
  | series
  deriving DecidableEq, Repr

def RequestHeaderReason.toString : RequestHeaderReason → String
  | .initial => "initial"
  | .resume => "resume"
  | .change => "change"
  | .series => "series"

structure RequestContext where
  provider : String
  model : String
  contextWindow : Option Number := none
  deriving Repr

def RequestContext.toJson (context : RequestContext) : Json :=
  .obj ([("provider", .str context.provider), ("model", .str context.model)]
    ++ optional "contextWindow" (context.contextWindow.map .num))

structure ToolResultError where
  name : String
  code : String
  deriving DecidableEq, Repr

def ToolResultError.toJson (error : ToolResultError) : Json :=
  .obj [("name", .str error.name), ("code", .str error.code)]

structure ToolResultData where
  turn : Number
  step : Number
  message : ToolResultMessage
  error : Option ToolResultError := none
  «meta» : Option Json := none
  deriving Repr

def ToolResultData.toJsonWith (data : ToolResultData) (message : Json) : Json :=
  .obj ([("turn", .num data.turn), ("step", .num data.step), ("message", message)]
    ++ optional "error" (data.error.map (·.toJson))
    ++ optional "meta" data.meta)

def ToolResultData.toJson (data : ToolResultData) : Json :=
  data.toJsonWith data.message.toJson

structure AssistantMessageData where
  turn : Number
  step : Number
  message : AssistantMessage
  usage : Option TokenUsage := none
  interrupted : Bool := false
  deriving Repr

def AssistantMessageData.toJson (data : AssistantMessageData) : Json :=
  .obj ([("turn", .num data.turn), ("step", .num data.step),
    ("message", data.message.toJson)]
    ++ optional "usage" (data.usage.map (·.toJson))
    ++ flag "interrupted" data.interrupted)

structure ToolCallData where
  turn : Number
  step : Number
  callId : String
  name : String
  arguments : String
  deriving Repr

def ToolCallData.toJson (data : ToolCallData) : Json :=
  .obj [("turn", .num data.turn), ("step", .num data.step), ("callId", .str data.callId),
    ("name", .str data.name), ("arguments", .str data.arguments)]

structure RequestHeaderData where
  header : EpochHeader
  reason : RequestHeaderReason
  startsSeries : Bool := false
  deriving Repr

def RequestHeaderData.toJson (data : RequestHeaderData) : Json :=
  .obj ([("header", data.header.toJson), ("reason", .str data.reason.toString)]
    ++ flag "startsSeries" data.startsSeries)

def coreEventTypes : List String :=
  ["turn/start", "turn/end", "step/start", "step/end", "user/message", "assistant/chunk",
    "assistant/message", "tool/call", "tool/result", "request/header", "request/context",
    "session/end-seed"]

def ExtensionType : Type := { type : String // type ∉ coreEventTypes }

instance : Repr ExtensionType := inferInstanceAs (Repr { type : String // type ∉ coreEventTypes })

/-- `SessionEventMap`: the type of an event together with its payload -/
inductive EventData where
  | turnStart (turn : Number)
  | turnEnd (turn : Number) (reason : TurnEndReason)
  | stepStart (turn step : Number)
  | stepEnd (turn step : Number)
  | userMessage (message : UserMessage)
  | assistantChunk (turn step : Number) (chunk : Json)
  | assistantMessage (data : AssistantMessageData)
  | toolCall (data : ToolCallData)
  | toolResult (data : ToolResultData)
  | requestHeader (data : RequestHeaderData)
  | requestContext (context : RequestContext)
  | endSeed
  | extension (type : ExtensionType) (data : Json)
  deriving Repr

def EventData.type : EventData → String
  | .turnStart _ => "turn/start"
  | .turnEnd _ _ => "turn/end"
  | .stepStart _ _ => "step/start"
  | .stepEnd _ _ => "step/end"
  | .userMessage _ => "user/message"
  | .assistantChunk _ _ _ => "assistant/chunk"
  | .assistantMessage _ => "assistant/message"
  | .toolCall _ => "tool/call"
  | .toolResult _ => "tool/result"
  | .requestHeader _ => "request/header"
  | .requestContext _ => "request/context"
  | .endSeed => "session/end-seed"
  | .extension type _ => type.val

def EventData.toJson : EventData → Json
  | .turnStart turn => .obj [("turn", .num turn)]
  | .turnEnd turn reason => .obj [("turn", .num turn), ("reason", reason.toJson)]
  | .stepStart turn step => .obj [("turn", .num turn), ("step", .num step)]
  | .stepEnd turn step => .obj [("turn", .num turn), ("step", .num step)]
  | .userMessage message => message.toJson
  | .assistantChunk turn step chunk =>
    .obj [("turn", .num turn), ("step", .num step), ("chunk", chunk)]
  | .assistantMessage data => data.toJson
  | .toolCall data => data.toJson
  | .toolResult data => data.toJson
  | .requestHeader data => data.toJson
  | .requestContext context => context.toJson
  | .endSeed => .obj []
  | .extension _ data => data

/-- One entry of the session log. The surface metadata is kept as the unvalidated
value that the surface checks look at. -/
structure SessionEvent where
  seq : Nat
  time : Number
  data : EventData
  sourceEventSeqs : Option Json := none
  surfaceOp : Option Json := none
  ignorable : Bool := false
  deriving Repr

def SessionEvent.type (event : SessionEvent) : String := event.data.type

def SessionEvent.toJson (event : SessionEvent) : Json :=
  .obj ([("type", .str event.type), ("seq", .ofNat event.seq), ("time", .num event.time),
    ("data", event.data.toJson)]
    ++ optional "sourceEventSeqs" event.sourceEventSeqs
    ++ optional "surfaceOp" event.surfaceOp
    ++ flag "ignorable" event.ignorable)

/-- `SessionSeq`: an event position, which must be a safe integer -/
def SessionSeq (value : Nat) : Except String Nat :=
  if value ≤ maxSafeInteger then .ok value
  else .error s!"SessionSeq must be a non-negative safe integer, got {value}"

end DshKernel.Session
