import DshKernel.Llm.Assembler
import DshKernel.Session.Surface

/-!
# The wire messages of a DeepSeek request

A history without images is serialized in one way, and one with images in another, which resolves
the images and puts those of tool results into a user message of their own.
-/

namespace DshKernel.DeepSeek

open Js Session Llm

inductive MessageRole where
  | system
  | user
  | assistant
  deriving DecidableEq, Repr

def MessageRole.text : MessageRole → String
  | system => "system"
  | user => "user"
  | assistant => "assistant"

structure Message where
  role : MessageRole
  content : List ContentBlock
  deriving Repr

inductive ImageMediaType where
  | png
  | jpeg
  | webp
  | gif
  deriving DecidableEq, Repr

def ImageMediaType.text : ImageMediaType → String
  | png => "image/png"
  | jpeg => "image/jpeg"
  | webp => "image/webp"
  | gif => "image/gif"

def ImageMediaType.extension : ImageMediaType → String
  | png => ".png"
  | jpeg => ".jpg"
  | webp => ".webp"
  | gif => ".gif"

structure ImageAttachmentRef where
  attachmentId : String
  mediaType : ImageMediaType
  width : Nat
  height : Nat
  name : Option String

def ImageAttachmentRef.ofJson (attachment : Json) : ImageAttachmentRef where
  attachmentId := ((attachment.get? "attachmentId").bind Json.asString).getD ""
  mediaType :=
    match (attachment.get? "mediaType").bind Json.asString with
    | some "image/jpeg" => .jpeg
    | some "image/webp" => .webp
    | some "image/gif" => .gif
    | _ => .png
  width := ((attachment.get? "width").bind isEventSeq).getD 0
  height := ((attachment.get? "height").bind isEventSeq).getD 0
  name := (attachment.get? "name").bind Json.asString

structure RequestImageAttachment where
  data : List UInt8
  mediaType : ImageMediaType
  width : Nat
  height : Nat

inductive WireImageContentPart where
  | file (fileId : String)
  | imageUrl (url : String)
  deriving DecidableEq, Repr

inductive WireUserContentPart where
  | text (text : String)
  | image (part : WireImageContentPart)
  deriving DecidableEq, Repr

inductive WireUserContent where
  | text (text : String)
  | parts (parts : List WireUserContentPart)
  deriving DecidableEq, Repr

inductive WireMessage where
  | system (content : String)
  | user (content : WireUserContent)
  | assistant (content : String) (reasoningContent : Option String)
      (toolCalls : Option (List ToolCallBlock))
  | tool (toolCallId : String) (content : String)
  deriving DecidableEq, Repr

/-- An `LlmError`, or what the resolver of file ids rejected with. -/
inductive SerializeError where
  | llm (message code : String)
  | rejected (failure : Json)

structure ImageWireLocation where
  message : Nat
  image : Nat

inductive ImageRequestRepresentation where
  | file (resolveFileId : RequestImageAttachment → Json → ImageWireLocation → Except Json String)
  | base64

/-- What the serialization of images depends on; `quoted` is `JSON.stringify` of a string. -/
structure ImageSerializationOptions where
  representation : ImageRequestRepresentation
  requestImages : String → Option RequestImageAttachment
  resolveImageAccess : Option (ImageAttachmentRef → Option String)
  quoted : String → String

def TOOL_RESULT_IMAGE_TEXT : String := "Attached image(s) from tool result:"

def asText : ContentBlock → Option String
  | .text text => some text
  | _ => none

def asReasoning : ContentBlock → Option String
  | .reasoning text => some text
  | _ => none

def asToolResult : ContentBlock → Option (String × List ContentBlock)
  | .toolResult toolCallId content _ => some (toolCallId, content)
  | _ => none

def flattenText (blocks : List ContentBlock) : String := String.join (blocks.filterMap asText)

mutual

def blockHasImage : ContentBlock → Bool
  | .image _ => true
  | .toolResult _ content _ => contentHasImage content
  | _ => false

def contentHasImage : List ContentBlock → Bool
  | [] => false
  | block :: rest => blockHasImage block || contentHasImage rest

end

def assertTextOnly (blocks : List ContentBlock) : Except SerializeError Unit :=
  if contentHasImage blocks then
    .error (.llm "The DeepSeek chat-completions adapter does not support image content."
      "UNSUPPORTED_CONTENT")
  else .ok ()

def assertSupportedImageRoles : List Message → Except SerializeError Unit
  | [] => .ok ()
  | message :: rest =>
    if message.role ≠ .user ∧ contentHasImage message.content then
      let role := message.role.text
      .error (.llm
        s!"The DeepSeek chat-completions adapter cannot represent image content in a {role} message."
        "UNSUPPORTED_CONTENT")
    else assertSupportedImageRoles rest

section Images

variable (images : ImageSerializationOptions)

def imageIdentity (ref : ImageAttachmentRef) : String :=
  match ref.name with
  | none => ref.attachmentId
  | some name => images.quoted name ++ s!" ({ref.attachmentId})"

def normalizedAccessText (ref : ImageAttachmentRef) (readonlyPath : String) : String :=
  s!" Normalized copy (read-only; may be resized or re-encoded): {images.quoted readonlyPath}"
    ++ s!" ({ref.width}x{ref.height}px, {ref.mediaType.text})."
    ++ " Source dimensions, format, and byte size may differ."
    ++ s!" Copy to a writable path ending in {ref.mediaType.extension} before editing."

def requestImageHandleText (ref : ImageAttachmentRef) (version : RequestImageAttachment)
    (access : Option String) : String :=
  let preview :=
    s!"Image {imageIdentity images ref}; request preview {version.width}x{version.height}px."
  match access with
  | none =>
    preview
      ++ " It may be resized or re-encoded; source dimensions, format, and byte size may differ."
  | some readonlyPath => preview ++ normalizedAccessText images ref readonlyPath

def imageHandle (ref : ImageAttachmentRef) (version : RequestImageAttachment)
    (precededByContent : Bool) : WireUserContentPart :=
  let access := images.resolveImageAccess.bind fun resolve => resolve ref
  .text ((if precededByContent then "\n" else "") ++ requestImageHandleText images ref version access)

def base64Alphabet : List Char :=
  "ABCDEFGHIJKLMNOPQRSTUVWXYZabcdefghijklmnopqrstuvwxyz0123456789+/".toList

def base64Digit (bits : Nat) : Char := base64Alphabet.getD (bits % 64) '='

/-- `toString('base64')` -/
def base64Of : List UInt8 → List Char
  | [] => []
  | [a] => [base64Digit (a.toNat / 4), base64Digit (a.toNat * 16), '=', '=']
  | [a, b] =>
    [base64Digit (a.toNat / 4), base64Digit (a.toNat * 16 + b.toNat / 16),
      base64Digit (b.toNat * 4), '=']
  | a :: b :: c :: rest =>
    base64Digit (a.toNat / 4) :: base64Digit (a.toNat * 16 + b.toNat / 16) ::
      base64Digit (b.toNat * 4 + c.toNat / 64) :: base64Digit c.toNat :: base64Of rest

def imageParts (attachment : Json) (location : ImageWireLocation) (precededByContent : Bool) :
    Except SerializeError (List WireUserContentPart) :=
  let ref := ImageAttachmentRef.ofJson attachment
  match images.requestImages ref.attachmentId with
  | none =>
    .error (.llm s!"DeepSeek request image {ref.attachmentId} was not prepared." "INVALID_REQUEST")
  | some version =>
    let handle := imageHandle images ref version precededByContent
    match images.representation with
    | .file resolveFileId =>
      match resolveFileId version attachment location with
      | .error failure => .error (.rejected failure)
      | .ok fileId => .ok [handle, .image (.file fileId)]
    | .base64 =>
      let data := String.ofList (base64Of version.data)
      .ok [handle, .image (.imageUrl s!"data:{version.mediaType.text};base64,{data}")]

mutual

def blockParts (message : Nat) (parts : List WireUserContentPart) (nextImage : Nat) :
    ContentBlock → Except SerializeError (List WireUserContentPart × Nat)
  | .text text => .ok (if text = "" then parts else parts ++ [.text text], nextImage)
  | .image attachment =>
    match imageParts images attachment ⟨message, nextImage + 1⟩ (!parts.isEmpty) with
    | .error failure => .error failure
    | .ok resolved => .ok (parts ++ resolved, nextImage + 1)
  | .toolResult _ content _ =>
    match contentParts message [] nextImage content with
    | .error failure => .error failure
    | .ok (nested, next) => .ok (parts ++ nested, next)
  | .reasoning _ => .ok (parts, nextImage)
  | .toolCall _ _ _ => .ok (parts, nextImage)

/-- The loop of `contentParts`. -/
def contentParts (message : Nat) (parts : List WireUserContentPart) (nextImage : Nat) :
    List ContentBlock → Except SerializeError (List WireUserContentPart × Nat)
  | [] => .ok (parts, nextImage)
  | block :: rest =>
    match blockParts message parts nextImage block with
    | .error failure => .error failure
    | .ok (parts, nextImage) => contentParts message parts nextImage rest

end

end Images

def textOfPart : WireUserContentPart → Option String
  | .text text => some text
  | .image _ => none

def imageOfPart : WireUserContentPart → Option WireImageContentPart
  | .text _ => none
  | .image part => some part

def userContent (parts : List WireUserContentPart) : WireUserContent :=
  if parts.all fun part => (textOfPart part).isSome then
    .text (String.join (parts.filterMap textOfPart))
  else .parts parts

/-- `content.length === 0` -/
def WireUserContent.isEmpty : WireUserContent → Bool
  | .text content => content = ""
  | .parts content => content.isEmpty

def serializeAssistant (message : Message) : WireMessage :=
  let reasoning := String.join (message.content.filterMap asReasoning)
  let toolCalls := toolCallsOf message.content
  .assistant (flattenText message.content) (if reasoning = "" then none else some reasoning)
    (if toolCalls = [] then none else some toolCalls)

def toolOutput (text : String) : String := if text = "" then "(no output)" else text

def serializeMessage (message : Message) : List WireMessage :=
  match message.role with
  | .system => [.system (flattenText message.content)]
  | .assistant => [serializeAssistant message]
  | .user =>
    let toolResults := message.content.filterMap asToolResult
    let text := flattenText message.content
    (if text ≠ "" ∨ toolResults = [] then [.user (.text text)] else [])
      ++ toolResults.map fun (toolCallId, content) =>
        .tool toolCallId (toolOutput (flattenText content))

def serializeMessages : List Message → Except SerializeError (List WireMessage)
  | [] => .ok []
  | message :: rest =>
    match assertTextOnly message.content with
    | .error failure => .error failure
    | .ok () =>
      match serializeMessages rest with
      | .error failure => .error failure
      | .ok wire => .ok (serializeMessage message ++ wire)

section WithImages

structure WireState where
  wire : List WireMessage := []
  pendingToolImages : List WireImageContentPart := []

def WireState.flushToolImages (state : WireState) : WireState :=
  if state.pendingToolImages = [] then state
  else {
    wire := state.wire ++ [.user (.parts
      (.text TOOL_RESULT_IMAGE_TEXT :: state.pendingToolImages.map .image))] }

def WireState.push (state : WireState) (message : WireMessage) : WireState :=
  { state with wire := state.wire ++ [message] }

variable (images : ImageSerializationOptions)

def pushToolResults (message : Nat) (state : WireState) (nextImage : Nat) :
    List (String × List ContentBlock) → Except SerializeError WireState
  | [] => .ok state
  | (toolCallId, content) :: rest =>
    match contentParts images message [] nextImage content with
    | .error failure => .error failure
    | .ok (parts, nextImage) =>
      let text := String.join (parts.filterMap textOfPart)
      let state := state.push (.tool toolCallId (toolOutput text))
      pushToolResults message { state with
        pendingToolImages := state.pendingToolImages ++ parts.filterMap imageOfPart } nextImage rest

/-- One turn of the loop; `index` is the position of the message. -/
def pushMessage (state : WireState) (index : Nat) (message : Message) :
    Except SerializeError WireState :=
  match message.role with
  | .system => .ok (state.flushToolImages.push (.system (flattenText message.content)))
  | .assistant => .ok (state.flushToolImages.push (serializeAssistant message))
  | .user =>
    let regular := message.content.filter fun block => (asToolResult block).isNone
    let toolResults := message.content.filterMap asToolResult
    match contentParts images (index + 1) [] 0 regular with
    | .error failure => .error failure
    | .ok (parts, nextImage) =>
      let content := userContent parts
      let state :=
        if !content.isEmpty ∨ toolResults = [] then state.flushToolImages.push (.user content)
        else state
      pushToolResults images (index + 1) state nextImage toolResults

def pushMessages (state : WireState) : Nat → List Message → Except SerializeError WireState
  | _, [] => .ok state
  | index, message :: rest =>
    match pushMessage images state index message with
    | .error failure => .error failure
    | .ok state => pushMessages state (index + 1) rest

def serializeMessagesWithImages (messages : List Message) :
    Except SerializeError (List WireMessage) :=
  match assertSupportedImageRoles messages with
  | .error failure => .error failure
  | .ok () =>
    match pushMessages images {} 0 messages with
    | .error failure => .error failure
    | .ok state => .ok state.flushToolImages.wire

end WithImages

end DshKernel.DeepSeek
