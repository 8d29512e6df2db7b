import DshKernel.Session.Header
import DshKernel.Session.Surface

/-!
# Admission checks

The checks of a stored or seeded event read it as the plain value it is; for an event of the
declared shapes they come down to conditions on its strings, which `Reloadable` collects.
-/

namespace DshKernel.Session

open Js List

/-- `typeof value === 'object' && value !== null`, as the value that is then read -/
def asObject (value : Option Json) : Option Json := value.filter Json.isObject

def property (value : Option Json) (key : String) : Option Json := value.bind (·.get? key)

/-- `typeof value === 'string' && value !== ''` -/
def isNonEmptyString : Option Json → Bool
  | some (.str value) => value != ""
  | _ => false

/-- `value === 'text'` -/
def isText (value : Option Json) (text : String) : Bool :=
  match value with
  | some (.str value) => value == text
  | _ => false

def isTrue : Option Json → Bool
  | some (.bool value) => value
  | _ => false

def hasProviderModel (value : Option Json) : Bool :=
  let pair := asObject value
  isNonEmptyString (property pair "provider") && isNonEmptyString (property pair "model")

def KNOWN_SESSION_EVENT_TYPES : List String :=
  ["agent-preset/selected", "agent/inbox/spliced", "approval/asked", "approval/decided",
    "approval/policy", "assistant/chunk", "assistant/message", "command/done", "command/run",
    "compaction/end", "compaction/prune", "compaction/start", "compaction/summary",
    "feedback/record", "goal/change", "hook/invoked", "hook/result", "llm/retry",
    "llm/retry-started", "model/selection", "permission/preset", "plan/mode", "request/context",
    "request/header", "sandbox/mode", "schedule/change",
    "session-log-deepseek/delivery-accepted", "session/end-seed", "session/title",
    "session/title-llm-request", "step/end", "step/start", "subagent/descriptor",
    "subagent/model-selection-policy", "team/member", "team/message/delivered",
    "team/message/queued", "team/task", "todo/write", "tool-workflow/agent-end",
    "tool-workflow/agent-start", "tool-workflow/run-end", "tool-workflow/run-start", "tool/call",
    "tool/code-dispatch", "tool/code-dispatch-start", "tool/result", "turn/end", "turn/start",
    "user/message", "web/deepseek-search-llm-request"]

def allowedAdapterKeys : List String := ["reasoningEffort", "maxTokens"]

def assertAdapterDefaults (value : Option Json) (config : Option Json) (index : Nat) :
    Except String Unit :=
  match value with
  | none => .ok ()
  | some (.obj defaults) =>
    if defaults.any (fun entry => !allowedAdapterKeys.contains entry.1)
        || defaults.any (fun entry => !isTrue (some entry.2))
        || isTrue (defaults.lookup "reasoningEffort")
            && (property config "reasoningEffort").isNone
        || isTrue (defaults.lookup "maxTokens") && (property config "maxTokens").isNone then
      .error s!"seed request/header at index {index} has invalid adapterDefaults"
    else .ok ()
  | some _ => .error s!"seed request/header at index {index} has invalid adapterDefaults"

/-- The message of a message event, as `assertMessageEventShape` finds it. -/
def messageOf (type : String) (data : Option Json) : Option Json :=
  asObject (if type = "user/message" then asObject data else property (asObject data) "message")

def assertMessageEventShape (type : String) (data : Option Json) (subject : String) :
    Except String Unit :=
  if !isSurfaceEligibleType type then .ok ()
  else
    let message := messageOf type data
    let expectedRole := if type = "assistant/message" then "assistant" else "user"
    let source := asObject (property message "source")
    if !isNonEmptyString (property message "id") then
      .error s!"{subject} lacks an identified message"
    else if !isText (property message "role") expectedRole then
      .error s!"{subject} message must have role \"{expectedRole}\""
    else if !isNonEmptyString (property source "kind") then
      .error s!"{subject} message has invalid source"
    else
      match property message "content" with
      | some (.arr content) =>
        if type = "assistant/message" then
          if !isText (property source "kind") "model" || !hasProviderModel source then
            .error s!"{subject} message must have model source"
          else .ok ()
        else if type ≠ "tool/result" then .ok ()
        else if !isText (property source "kind") "tool"
            || !isNonEmptyString (property source "callId") then
          .error s!"{subject} message must have tool source"
        else
          let block := asObject content[0]?
          if content.length ≠ 1 || !isText (property block "type") "tool-result"
              || !(property block "content").any Json.isArray then
            .error s!"{subject} message must contain one tool-result block"
          else if (property block "toolCallId").bind Json.asString !=
              (property source "callId").bind Json.asString then
            .error s!"{subject} message has mismatched tool call ids"
          else .ok ()
      | _ => .error s!"{subject} message has invalid content"

/-- The part of `assertCurrentLlmShape` about request headers. -/
def assertRequestHeaderShape (data : Option Json) (index : Nat) : Except String Unit :=
  let header := (asObject (property (asObject data) "header")).filter fun value => !value.isArray
  let config := property header "config"
  if !hasProviderModel config then
    .error s!"seed request/header at index {index} lacks provider/model"
  else if (property config "reasoningEffort").any
      fun value => !isNonEmptyString (some value) then
    .error s!"seed request/header at index {index} has an invalid reasoningEffort"
  else assertAdapterDefaults (property header "adapterDefaults") config index

def assertCurrentLlmShape (type : String) (data : Option Json) (index : Nat) :
    Except String Unit :=
  match (if type = "request/header" then assertRequestHeaderShape data index else .ok ()) with
  | .error message => .error message
  | .ok () =>
    if !isSurfaceEligibleType type then .ok ()
    else assertMessageEventShape type data s!"seed {type} at index {index}"

def envelopeKeys : List String :=
  ["type", "seq", "time", "data", "surfaceOp", "sourceEventSeqs", "ignorable"]

def isSafeInteger : Option Json → Bool
  | some (.num value) => value.isSafeInteger
  | _ => false

def assertSessionEventEnvelope (event : Json) (index : Nat) : Except String Unit :=
  if isText (event.get? "type") "request/header-delta" then
    .error s!"seed event at index {index} uses unsupported legacy request/header-delta format"
  else if event.keys.any (fun key => !envelopeKeys.contains key) then
    .error s!"seed event at index {index} has an invalid event envelope"
  else
    match event.get? "type", (event.get? "seq").bind isEventSeq, event.get? "data" with
    | some (.str type), some _, some data =>
      if !isSafeInteger (event.get? "time")
          || (event.get? "ignorable").any (fun value => !isTrue (some value)) then
        .error s!"seed event at index {index} has an invalid event envelope"
      else if type = "request/header" || isSurfaceEligibleType type then
        assertCurrentLlmShape type (some data) index
      else .ok ()
    | _, _, _ => .error s!"seed event at index {index} has an invalid event envelope"

def assertSupportedRequestHeader (type : String) (data : Json) (location : String) :
    Except String Unit :=
  if type = "request/header-delta" then
    .error s!"{location} uses unsupported legacy request/header-delta format"
  else if type = "request/header" && data.isObject && !data.isArray
      && isText (data.get? "reason") "fallback" then
    .error s!"{location} uses unsupported legacy request/header reason \"fallback\""
  else .ok ()

/-- `adoptSessionEvent`: freezing aside, the shape check of one stored event -/
def adoptSessionEvent (event : SessionEvent) : Except String SessionEvent :=
  match assertMessageEventShape event.type (some event.data.toJson)
      s!"session event at seq {event.seq}" with
  | .error message => .error message
  | .ok () => .ok event

/-- The refusals of the first loop of `validateStoredEvents`. -/
def assertKnownEvent (sessionId : String) (event : SessionEvent) : Except String Unit :=
  if !KNOWN_SESSION_EVENT_TYPES.contains event.type && !event.ignorable then
    .error <| s!"session \"{sessionId}\" contains event type \"{event.type}\" (seq {event.seq}) "
      ++ "unknown to this harness and not marked ignorable; refusing to interpret the log — "
      ++ "it was likely written by a newer harness"
  else if event.type = "request/header" && event.data.toJson.isObject
      && isText (event.data.toJson.get? "reason") "fallback" then
    .error <| s!"session \"{sessionId}\" contains a request/header event (seq {event.seq}) with the "
      ++ "unsupported legacy reason \"fallback\"; refusing to interpret the log — it was written "
      ++ "by a retired pre-release harness"
  else .ok ()

def adoptStoredEvents (sessionId : String) : List SessionEvent → Except String (List SessionEvent)
  | [] => .ok []
  | event :: rest =>
    match adoptSessionEvent event with
    | .error message => .error s!"stored session \"{sessionId}\" failed validation: Error: {message}"
    | .ok adopted =>
      match adoptStoredEvents sessionId rest with
      | .error message => .error message
      | .ok events => .ok (adopted :: events)

def assertKnownEvents (sessionId : String) : List SessionEvent → Except String Unit
  | [] => .ok ()
  | event :: rest =>
    match assertKnownEvent sessionId event with
    | .error message => .error message
    | .ok () => assertKnownEvents sessionId rest

def validateStoredEvents (header : Json) (events : List SessionEvent) :
    Except String (List SessionEvent) :=
  match assertKnownEvents (headerId header) events with
  | .error message => .error message
  | .ok () => adoptStoredEvents (headerId header) events

def MessageReloadable : EventData → Prop
  | .userMessage message => message.id ≠ "" ∧ message.source.kind ≠ ""
  | .assistantMessage data =>
    data.message.id ≠ "" ∧ data.message.source.provider ≠ "" ∧ data.message.source.model ≠ ""
  | .toolResult data =>
    data.message.id ≠ "" ∧ data.message.source.callId ≠ "" ∧
      data.message.block.toolCallId = data.message.source.callId
  | _ => True

def HeaderReloadable : EventData → Prop
  | .requestHeader data =>
    (data.header.config.provider ≠ "" ∧ data.header.config.model ≠ "") ∧
      data.header.config.reasoningEffort ≠ some "" ∧
      ∀ defaults ∈ data.header.adapterDefaults,
        (defaults.reasoningEffort = true → data.header.config.reasoningEffort.isSome = true) ∧
        (defaults.maxTokens = true → data.header.config.maxTokens.isSome = true)
  | _ => True

def Reloadable (data : EventData) : Prop := MessageReloadable data ∧ HeaderReloadable data

section Typed

variable {data : EventData} {subject : String} {index : Nat}

@[simp] theorem asObject_obj (fields : List (String × Json)) :
    asObject (some (.obj fields)) = some (.obj fields) := rfl

@[simp] theorem property_obj (fields : List (String × Json)) (key : String) :
    property (some (.obj fields)) key = fields.lookup key := rfl

@[simp] theorem property_none (key : String) : property none key = none := rfl

@[simp] theorem isNonEmptyString_str (value : String) :
    isNonEmptyString (some (.str value)) = (value != "") := rfl

@[simp] theorem isText_str (value text : String) :
    isText (some (.str value)) text = (value == text) := rfl

theorem assertMessageEventShape_userMessage (message : UserMessage) :
    assertMessageEventShape "user/message" (some message.toJson) subject = .ok () ↔
      message.id ≠ "" ∧ message.source.kind ≠ "" := by
  have hsource : ∃ fields, message.source.toJson = .obj (("kind", .str message.source.kind) :: fields) := by
    cases message.source <;> exact ⟨_, rfl⟩
  obtain ⟨fields, hfields⟩ := hsource
  by_cases hid : message.id = "" <;> by_cases hkind : message.source.kind = "" <;>
    simp [assertMessageEventShape, isSurfaceEligibleType, surfaceEventTypes, messageOf,
      UserMessage.toJson, messageToJson, hfields, lookup_cons, hid, hkind]

theorem assertMessageEventShape_assistantMessage (data : AssistantMessageData) :
    assertMessageEventShape "assistant/message" (some data.toJson) subject = .ok () ↔
      data.message.id ≠ "" ∧ data.message.source.provider ≠ "" ∧
        data.message.source.model ≠ "" := by
  by_cases hid : data.message.id = "" <;> by_cases hprovider : data.message.source.provider = "" <;>
    simp [assertMessageEventShape, isSurfaceEligibleType, surfaceEventTypes, messageOf,
      AssistantMessageData.toJson, AssistantMessage.toJson, messageToJson, lookup_cons, hid,
      ModelMessageSource.toJson, hasProviderModel, hprovider]

theorem assertMessageEventShape_toolResult (data : ToolResultData) :
    assertMessageEventShape "tool/result" (some data.toJson) subject = .ok () ↔
      data.message.id ≠ "" ∧ data.message.source.callId ≠ "" ∧
        data.message.block.toolCallId = data.message.source.callId := by
  by_cases hid : data.message.id = "" <;> by_cases hcall : data.message.source.callId = "" <;>
    simp [assertMessageEventShape, isSurfaceEligibleType, surfaceEventTypes, messageOf,
      ToolResultData.toJson, ToolResultData.toJsonWith, ToolResultMessage.toJson, messageToJson,
      lookup_cons, hid, ToolMessageSource.toJson, hcall, ToolResultBlock.toJson,
      ContentBlock.toJson, Json.isArray, Json.asString]

theorem assertMessageEventShape_eq_ok :
    assertMessageEventShape data.type (some data.toJson) subject = .ok () ↔
      MessageReloadable data := by
  cases data with
  | userMessage message => exact assertMessageEventShape_userMessage message
  | assistantMessage data => exact assertMessageEventShape_assistantMessage data
  | toolResult data => exact assertMessageEventShape_toolResult data
  | extension type data =>
    have htype : isSurfaceEligibleType type.val = false := by
      by_cases h : isSurfaceEligibleType type.val = true
      · exfalso
        apply type.property
        simp only [isSurfaceEligibleType, surfaceEventTypes, contains_eq_mem,
          decide_eq_true_eq, mem_cons, not_mem_nil, or_false] at h
        rcases h with h | h | h <;> simp [h, coreEventTypes]
      · simpa using h
    simp [EventData.type, MessageReloadable, assertMessageEventShape, htype]
  | _ => simp [EventData.type, MessageReloadable, assertMessageEventShape, isSurfaceEligibleType,
      surfaceEventTypes]

theorem property_reasoningEffort (config : LlmCallConfig) :
    property (some config.toJson) "reasoningEffort" = config.reasoningEffort.map .str := by
  simp only [LlmCallConfig.toJson, property_obj, append_assoc, cons_append,
    nil_append, lookup_cons, lookup_optional]
  cases config.reasoningEffort with
  | none => cases config.stop <;> simp [optional, lookup_cons]
  | some effort => simp

theorem property_maxTokens (config : LlmCallConfig) :
    property (some config.toJson) "maxTokens" = config.maxTokens.map .num := by
  simp only [LlmCallConfig.toJson, property_obj, append_assoc, cons_append,
    nil_append, lookup_cons, lookup_optional]
  cases config.maxTokens with
  | none => cases config.stop <;> simp [optional, lookup_cons]
  | some maxTokens => simp

theorem property_adapterDefaults (header : EpochHeader) :
    property (some header.toJson) "adapterDefaults" = header.adapterDefaults.map (·.toJson) := by
  simp only [EpochHeader.toJson, property_obj, append_assoc, cons_append,
    nil_append, lookup_cons, lookup_optional]
  cases header.adapterDefaults with
  | none => cases header.tools <;> simp [optional, lookup_cons]
  | some defaults => simp

theorem assertAdapterDefaults_eq_ok (defaults : LlmCallConfigAdapterDefaults)
    (config : LlmCallConfig) :
    assertAdapterDefaults (some defaults.toJson) (some config.toJson) index = .ok () ↔
      (defaults.reasoningEffort = true → config.reasoningEffort.isSome = true) ∧
        (defaults.maxTokens = true → config.maxTokens.isSome = true) := by
  obtain ⟨effort, maxTokens⟩ := defaults
  simp only [assertAdapterDefaults, LlmCallConfigAdapterDefaults.toJson, property_reasoningEffort,
    property_maxTokens]
  cases config.reasoningEffort <;> cases config.maxTokens <;> cases effort <;> cases maxTokens <;>
    simp [flag, allowedAdapterKeys, isTrue, lookup_cons]

theorem assertRequestHeaderShape_eq_ok (data : RequestHeaderData) :
    assertRequestHeaderShape (some data.toJson) index = .ok () ↔
      HeaderReloadable (.requestHeader data) := by
  have hheader : (asObject (property (asObject (some data.toJson)) "header")).filter
      (fun value => !value.isArray) = some data.header.toJson := rfl
  have hconfig : property (some data.header.toJson) "config" = some data.header.config.toJson :=
    rfl
  have hpair : hasProviderModel (some data.header.config.toJson) =
      (data.header.config.provider != "" && data.header.config.model != "") := rfl
  simp only [assertRequestHeaderShape, hheader, hconfig, hpair, property_reasoningEffort,
    property_adapterDefaults, HeaderReloadable]
  by_cases hprovider : data.header.config.provider = ""
  · simp [hprovider]
  · by_cases hmodel : data.header.config.model = ""
    · simp [hprovider, hmodel]
    · by_cases heffort : data.header.config.reasoningEffort = some ""
      · simp [hprovider, hmodel, heffort]
      · have hvalid : (data.header.config.reasoningEffort.map Json.str).any
            (fun value => !isNonEmptyString (some value)) = false := by
          cases heq : data.header.config.reasoningEffort with
          | none => rfl
          | some effort =>
            rw [heq] at heffort
            simpa using heffort
        cases hdefaults : data.header.adapterDefaults with
        | none => simp [hprovider, hmodel, heffort, hvalid, assertAdapterDefaults]
        | some defaults =>
          simp [hprovider, hmodel, heffort, hvalid, assertAdapterDefaults_eq_ok]

theorem isSurfaceEligibleType_eq_false (type : ExtensionType) :
    isSurfaceEligibleType type.val = false ∧ type.val ≠ "request/header" := by
  have hcore := type.property
  simp only [coreEventTypes, mem_cons, not_mem_nil, or_false, not_or] at hcore
  simp [isSurfaceEligibleType, surfaceEventTypes, hcore]

theorem exists_requestHeader_of_type (h : data.type = "request/header") :
    ∃ header, data = .requestHeader header := by
  cases data with
  | requestHeader header => exact ⟨header, rfl⟩
  | extension type _ => exact absurd h (isSurfaceEligibleType_eq_false type).2
  | _ => simp [EventData.type] at h

theorem assertCurrentLlmShape_eq_ok :
    assertCurrentLlmShape data.type (some data.toJson) index = .ok () ↔ Reloadable data := by
  unfold assertCurrentLlmShape Reloadable
  by_cases hheader : data.type = "request/header"
  · obtain ⟨header, rfl⟩ := exists_requestHeader_of_type hheader
    rw [if_pos hheader, ← assertRequestHeaderShape_eq_ok header]
    simp only [EventData.toJson, MessageReloadable, true_and]
    cases assertRequestHeaderShape (some header.toJson) index with
    | error message => simp
    | ok => simp [EventData.type, isSurfaceEligibleType, surfaceEventTypes]
  · have hshape : HeaderReloadable data := by
      cases data with
      | requestHeader data => exact absurd rfl hheader
      | _ => trivial
    simp only [hheader, if_false, hshape, and_true]
    cases htype : isSurfaceEligibleType data.type with
    | true => simp [assertMessageEventShape_eq_ok]
    | false =>
      have hmessage := @assertMessageEventShape_eq_ok data ""
      simpa [assertMessageEventShape, htype] using hmessage

end Typed

section Envelope

variable {event : SessionEvent} {index : Nat}

theorem get?_ignorable (event : SessionEvent) :
    event.toJson.get? "ignorable" = if event.ignorable then some (.bool true) else none := by
  simp only [SessionEvent.toJson, Json.get?, append_assoc, cons_append, nil_append,
    lookup_cons, lookup_optional]
  cases event.ignorable <;> simp [flag]

theorem keys_toJson (event : SessionEvent) :
    event.toJson.keys.any (fun key => !envelopeKeys.contains key) = false := by
  simp only [SessionEvent.toJson, Json.keys, envelopeKeys]
  cases event.sourceEventSeqs <;> cases event.surfaceOp <;> cases event.ignorable <;>
    simp [optional, flag]

theorem assertSessionEventEnvelope_eq_ok :
    assertSessionEventEnvelope event.toJson index = .ok () ↔
      event.type ≠ "request/header-delta" ∧ event.seq ≤ maxSafeInteger ∧
        event.time.isSafeInteger = true ∧ Reloadable event.data := by
  have htype : event.toJson.get? "type" = some (.str event.type) := rfl
  have hseq : (event.toJson.get? "seq").bind isEventSeq = isEventSeq (.ofNat event.seq) := rfl
  have htime : isSafeInteger (event.toJson.get? "time") = event.time.isSafeInteger := rfl
  have hdata : event.toJson.get? "data" = some event.data.toJson := rfl
  have hignorable : (event.toJson.get? "ignorable").any (fun value => !isTrue (some value)) =
      false := by
    rw [get?_ignorable]
    cases event.ignorable <;> rfl
  unfold assertSessionEventEnvelope
  simp only [keys_toJson, htype, hseq, htime, hdata, hignorable, isText_str, Bool.or_false]
  by_cases hdelta : event.type = "request/header-delta"
  · simp [hdelta]
  · by_cases hle : event.seq ≤ maxSafeInteger
    · have hsafe : isEventSeq (.ofNat event.seq) = some event.seq := by
        simp [isEventSeq, Json.ofNat, Number.ofNat, hle]
      cases hsafeTime : event.time.isSafeInteger with
      | false => simp [hdelta, hsafe]
      | true =>
        by_cases hshape : event.type = "request/header" ∨ isSurfaceEligibleType event.type = true
        · have hllm : assertCurrentLlmShape event.type (some event.data.toJson) index = .ok () ↔
              Reloadable event.data := assertCurrentLlmShape_eq_ok
          simp [hdelta, hsafe, hle, hshape, hllm]
        · have hplain : Reloadable event.data := by
            refine (@assertCurrentLlmShape_eq_ok event.data 0).mp ?_
            rw [not_or] at hshape
            obtain ⟨hheader, heligible⟩ := hshape
            simp only [SessionEvent.type] at hheader heligible
            simp [assertCurrentLlmShape, hheader, heligible]
          simp [hdelta, hsafe, hle, hshape, hplain]
    · have hunsafe : isEventSeq (.ofNat event.seq) = none := by
        simp [isEventSeq, Json.ofNat, Number.ofNat]
        omega
      simp [hdelta, hunsafe, hle]

theorem assertSupportedRequestHeader_eq_ok {location : String} {data : EventData} :
    assertSupportedRequestHeader data.type data.toJson location = .ok () ↔
      data.type ≠ "request/header-delta" := by
  unfold assertSupportedRequestHeader
  by_cases hdelta : data.type = "request/header-delta"
  · simp [hdelta]
  · by_cases hheader : data.type = "request/header"
    · obtain ⟨header, rfl⟩ := exists_requestHeader_of_type hheader
      have hreason : isText ((EventData.requestHeader header).toJson.get? "reason") "fallback" =
          false := by
        show (header.reason.toString == "fallback") = false
        cases header.reason <;> rfl
      simp [hdelta, hreason]
    · simp [hdelta, hheader]

theorem isText_reason_fallback (event : SessionEvent) (h : event.type = "request/header") :
    isText (event.data.toJson.get? "reason") "fallback" = false := by
  obtain ⟨header, hdata⟩ := exists_requestHeader_of_type h
  rw [hdata]
  show (header.reason.toString == "fallback") = false
  cases header.reason <;> rfl

theorem assertKnownEvent_eq_ok {sessionId : String} :
    assertKnownEvent sessionId event = .ok () ↔
      event.type ∈ KNOWN_SESSION_EVENT_TYPES ∨ event.ignorable = true := by
  have hknown : event.type ∈ KNOWN_SESSION_EVENT_TYPES ∨ event.ignorable = true ↔
      (!KNOWN_SESSION_EVENT_TYPES.contains event.type && !event.ignorable) = false := by
    rw [Bool.and_eq_false_iff, Bool.not_eq_false', Bool.not_eq_false', contains_iff_mem]
  rw [hknown]
  unfold assertKnownEvent
  cases (!KNOWN_SESSION_EVENT_TYPES.contains event.type && !event.ignorable) with
  | true => simp
  | false =>
    by_cases hheader : event.type = "request/header"
    · simp [isText_reason_fallback event hheader]
    · simp [hheader]

theorem adoptSessionEvent_eq_ok {adopted : SessionEvent} :
    adoptSessionEvent event = .ok adopted ↔ MessageReloadable event.data ∧ event = adopted := by
  unfold adoptSessionEvent
  have hshape := @assertMessageEventShape_eq_ok event.data s!"session event at seq {event.seq}"
  simp only [SessionEvent.type]
  rw [← hshape]
  cases assertMessageEventShape event.data.type (some event.data.toJson)
      s!"session event at seq {event.seq}" with
  | error message => simp
  | ok => simp

theorem validateStoredEvents_eq_ok {header : Json} {events stored : List SessionEvent} :
    validateStoredEvents header events = .ok stored ↔
      (∀ event ∈ events, event.type ∈ KNOWN_SESSION_EVENT_TYPES ∨ event.ignorable = true) ∧
        (∀ event ∈ events, MessageReloadable event.data) ∧ events = stored := by
  have hknown : ∀ events, assertKnownEvents (headerId header) events = .ok () ↔
      ∀ event ∈ events, event.type ∈ KNOWN_SESSION_EVENT_TYPES ∨ event.ignorable = true := by
    intro events
    induction events with
    | nil => simp [assertKnownEvents]
    | cons event rest ih =>
      simp only [assertKnownEvents, forall_mem_cons, ← ih]
      rw [← @assertKnownEvent_eq_ok event (headerId header)]
      cases assertKnownEvent (headerId header) event with
      | error message => simp
      | ok => simp
  have hadopt : ∀ events stored, adoptStoredEvents (headerId header) events = .ok stored ↔
      (∀ event ∈ events, MessageReloadable event.data) ∧ events = stored := by
    intro events
    induction events with
    | nil => simp [adoptStoredEvents]
    | cons event rest ih =>
      intro stored
      simp only [adoptStoredEvents, forall_mem_cons]
      cases hevent : adoptSessionEvent event with
      | error message =>
        have hnot : ¬ MessageReloadable event.data := by
          intro h
          rw [adoptSessionEvent_eq_ok.mpr ⟨h, rfl⟩] at hevent
          cases hevent
        simp [hnot]
      | ok adopted =>
        obtain ⟨hshape, rfl⟩ := adoptSessionEvent_eq_ok.mp hevent
        cases hrest : adoptStoredEvents (headerId header) rest with
        | error message =>
          have hnot : ¬ ∀ event ∈ rest, MessageReloadable event.data := by
            intro h
            rw [(ih rest).mpr ⟨h, rfl⟩] at hrest
            cases hrest
          simp [hnot]
        | ok events =>
          obtain ⟨hshapes, rfl⟩ := (ih events).mp hrest
          simp only [Except.ok.injEq, hshape, true_and]
          exact ⟨fun h => ⟨hshapes, h⟩, fun h => h.2⟩
  unfold validateStoredEvents
  cases hcheck : assertKnownEvents (headerId header) events with
  | error message =>
    rw [← hknown, hcheck]
    simp
  | ok =>
    rw [← hknown, hcheck]
    simp [hadopt]

end Envelope

end DshKernel.Session
