import DshKernel.Llm.Assembler

/-!
# pi-ai replay metadata

What is kept of a native response beside its content, and the assistant message of pi-ai that a
later request is given from both.
-/

namespace DshKernel.Llm

open Js Session

inductive PiBlock where
  | text (text : String) (textSignature : Option String)
  | thinking (thinking : String) (thinkingSignature : Option String) (redacted : Option Bool)
  | toolCall (id name : String) (arguments : List (String × Json)) (thoughtSignature : Option String)

inductive PiStopReason where
  | stop
  | length
  | toolUse
  | error
  | aborted
  | pending
  | deferred
  deriving DecidableEq, Repr

def PiStopReason.name : PiStopReason → String
  | .stop => "stop"
  | .length => "length"
  | .toolUse => "toolUse"
  | .error => "error"
  | .aborted => "aborted"
  | .pending => "pending"
  | .deferred => "deferred"

structure PiUsage where
  input : Nat := 0
  output : Nat := 0
  cacheRead : Nat := 0
  cacheWrite : Nat := 0
  totalTokens : Nat := 0

structure PiAssistant where
  content : List PiBlock
  api : String
  provider : String
  model : String
  responseModel : Option String := none
  responseId : Option String := none
  usage : PiUsage := {}
  stopReason : PiStopReason
  errorMessage : Option String := none

inductive MessageRole where
  | system
  | user
  | assistant
  deriving DecidableEq, Repr

structure HistoryMessage where
  role : MessageRole
  source : MessageSource
  content : List ContentBlock

structure LlmError where
  message : String
  code : String
  deriving DecidableEq, Repr

/-- What the conversion takes from JavaScript: JSON text, and `String` of what is no string. -/
structure PiRuntime where
  stringify : Json → String
  parse : String → Option Json
  string : Json → String

section Write

def PiBlock.replayBlock : PiBlock → Json
  | .text _ textSignature =>
    .obj (("type", .str "text") :: optional "textSignature" (textSignature.map .str))
  | .thinking _ thinkingSignature redacted =>
    .obj (("type", .str "reasoning") ::
      (optional "thinkingSignature" (thinkingSignature.map .str) ++
        optional "redacted" (redacted.map .bool)))
  | .toolCall _ _ _ thoughtSignature =>
    .obj (("type", .str "tool-call") :: optional "thoughtSignature" (thoughtSignature.map .str))

def replayResponse (message : PiAssistant) : Json :=
  .obj ([("kind", .str "pi-ai"), ("version", .ofNat 2), ("api", .str message.api),
      ("provider", .str message.provider), ("model", .str message.model)] ++
    (optional "responseModel" (message.responseModel.map .str) ++
      (optional "responseId" (message.responseId.map .str) ++
        [("stopReason", .str message.stopReason.name)])))

def toPiReplayState (message : PiAssistant) : ReplayEnvelope :=
  ⟨replayResponse message, some (message.content.map PiBlock.replayBlock)⟩

end Write

section Read

variable (R : PiRuntime)

/-- `parseArguments`: what is no object becomes an empty one. -/
def parseArguments (raw : String) : List (String × Json) :=
  match R.parse raw with
  | some (.obj fields) => fields
  | _ => []

/-- `String(value)`, where `undefined` has a text as well. -/
def stringOf : Option Json → String
  | none => "undefined"
  | some (.str text) => text
  | some value => R.string value

def isOptionalString (value : Option Json) : Bool := value.all fun found => found.asString.isSome

def check (holds : Bool) (reason : String) : Except String Unit :=
  if holds then .ok () else .error reason

def replayReasons : List PiStopReason := [.stop, .length, .toolUse, .error, .aborted]

structure PiAiReplayState where
  response : Json
  stopReason : PiStopReason
  blocks : List Json

def isPlainObject : Json → Bool
  | .obj _ => true
  | _ => false

def checkReplayBlock (index : Nat) (block : Json) : Except String Unit := do
  check (isPlainObject block) s!"block {index} must be an object"
  check (["text", "reasoning", "tool-call"].contains (stringOf R (block.get? "type")))
    s!"block {index} has an unknown type"
  check (isOptionalString (block.get? "textSignature"))
    s!"block {index} textSignature must be a string"
  check (isOptionalString (block.get? "thinkingSignature"))
    s!"block {index} thinkingSignature must be a string"
  check (isOptionalString (block.get? "thoughtSignature"))
    s!"block {index} thoughtSignature must be a string"
  check ((block.get? "redacted").all fun value => value.asBool.isSome)
    s!"block {index} redacted must be boolean"

def checkReplayBlocks : Nat → List Json → Except String Unit
  | _, [] => .ok ()
  | index, block :: rest => do
    checkReplayBlock R index block
    checkReplayBlocks (index + 1) rest

def isNonEmptyText (value : Option Json) : Bool :=
  (value.bind Json.asString).any fun text => text ≠ ""

/-- The envelope of a replay state, validated. The reasons go with `invalid pi-ai replay state: `. -/
def readReplayState (value : Json) : Except String PiAiReplayState := do
  check (isPlainObject value) "expected a replay envelope"
  let response := (value.get? "response").getD .null
  check (isPlainObject response) "expected a response object"
  check ((response.get? "kind").bind Json.asString == some "pi-ai") "unknown state kind"
  let version := response.get? "version"
  check ((version.bind Json.asNumber).any (·.strictEq (.ofNat 2)))
    s!"unsupported version {stringOf R version}"
  check (isNonEmptyText (response.get? "api")) "api must be a non-empty string"
  check (isNonEmptyText (response.get? "provider")) "provider must be a non-empty string"
  check (isNonEmptyText (response.get? "model")) "model must be a non-empty string"
  match replayReasons.find? fun reason =>
      reason.name == stringOf R (response.get? "stopReason") with
  | none => .error "unknown stopReason"
  | some stopReason => do
    check (isOptionalString (response.get? "responseModel")) "responseModel must be a string"
    check (isOptionalString (response.get? "responseId")) "responseId must be a string"
    match (value.get? "blocks").bind Json.asArray with
    | none => .error "blocks must be an array"
    | some blocks => do
      checkReplayBlocks R 0 blocks
      return ⟨response, stopReason, blocks⟩

def textField (value : Json) (field : String) : Option String :=
  (value.get? field).bind Json.asString

def replayedBlock (index : Nat) (block : ContentBlock) (replay : Json) : Except String PiBlock :=
  if textField replay "type" ≠ some (blockTypeOf block) then
    .error s!"block {index} does not match assistant content"
  else
    match block with
    | .text text => .ok (.text text (textField replay "textSignature"))
    | .reasoning text =>
      .ok (.thinking text (textField replay "thinkingSignature")
        ((replay.get? "redacted").bind Json.asBool))
    | .toolCall id name arguments =>
      .ok (.toolCall id name (parseArguments R arguments) (textField replay "thoughtSignature"))
    | .image _ => .error s!"block {index} has an unsupported Harness type"
    | .toolResult _ _ _ => .error s!"block {index} has an unsupported Harness type"

def replayedContent : Nat → List ContentBlock → List Json → Except String (List PiBlock)
  | index, block :: rest, replay :: later => do
    let native ← replayedBlock R index block replay
    return native :: (← replayedContent (index + 1) rest later)
  | _, _, _ => .ok []

def replayedAssistant (content : List ContentBlock) (source : ModelMessageSource)
    (rawState : Json) : Except String PiAssistant := do
  let state ← readReplayState R rawState
  check (textField state.response "provider" == some source.provider)
    "provider does not match assistant source"
  check (textField state.response "model" == some source.model)
    "model does not match assistant source"
  check (state.blocks.length == content.length) "block count does not match assistant content"
  let native ← replayedContent R 0 content state.blocks
  return { content := native
           api := (textField state.response "api").getD ""
           provider := (textField state.response "provider").getD ""
           model := (textField state.response "model").getD ""
           responseModel := textField state.response "responseModel"
           responseId := textField state.response "responseId"
           stopReason := state.stopReason }

def foreignContent : List ContentBlock → Except LlmError (List PiBlock)
  | [] => .ok []
  | .text text :: rest => (PiBlock.text text none :: ·) <$> foreignContent rest
  | .reasoning text :: rest => (PiBlock.thinking text none none :: ·) <$> foreignContent rest
  | .toolCall id name arguments :: rest =>
    (PiBlock.toolCall id name (parseArguments R arguments) none :: ·) <$> foreignContent rest
  | .image _ :: _ =>
    .error ⟨"pi-ai chat history cannot represent structured assistant image output",
      "UNSUPPORTED_CONTENT"⟩
  | .toolResult _ _ _ :: rest => foreignContent rest

def PiBlock.isToolCall : PiBlock → Bool
  | .toolCall _ _ _ _ => true
  | _ => false

def foreignAssistant (message : HistoryMessage) : Except LlmError PiAssistant := do
  let content ← foreignContent R message.content
  let (provider, model) := match message.source with
    | .model source => (source.provider, source.model)
    | _ => ("dsh-foreign", "dsh-foreign")
  return { content, api := "dsh-foreign", provider, model
           stopReason := if content.any PiBlock.isToolCall then .toolUse else .stop }

def toPiAssistant (message : HistoryMessage) : Except LlmError (PiAssistant × Option String) :=
  match message.source with
  | .model ⟨provider, model, some replayState⟩ =>
    match replayedAssistant R message.content ⟨provider, model, some replayState⟩ replayState with
    | .ok assistant => .ok (assistant, none)
    | .error reason =>
      (·, some s!"invalid pi-ai replay state: {reason}") <$> foreignAssistant R message
  | _ => (·, none) <$> foreignAssistant R message

end Read

end DshKernel.Llm
