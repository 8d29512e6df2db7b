import DshKernel.Llm.ImageTexts
import DshKernel.Llm.PiReplay

/-!
# The pi-ai context of a request

The history of a request in the vocabulary of pi-ai, with its images resolved or without any. Where
no image is left, both conversions give the same context.
-/

namespace DshKernel.Llm

open Js Lib Session List

structure RequestImage where
  width : Nat
  height : Nat
  mediaType : String
  data : String
  bytes : Nat

inductive PiContent where
  | text (text : String)
  | image (data mimeType : String)
  deriving DecidableEq, Repr

inductive PiUserContent where
  | text (text : String)
  | parts (content : List PiContent)
  deriving DecidableEq, Repr

inductive PiMessage where
  | user (content : PiUserContent)
  | assistant (message : PiAssistant)
  | toolResult (toolCallId toolName : String) (content : List PiContent) (isError : Bool)

structure PiTool where
  name : String
  description : String
  parameters : Json

structure PiContext where
  systemPrompt : Option String
  messages : List PiMessage
  tools : Option (List PiTool)

structure GenerateOptions where
  system : Option String := none
  messages : List HistoryMessage
  tools : Option (List PiTool) := none

section TextOnly

variable (R : PiRuntime)

def flattenedBlock : ContentBlock → String
  | .text text => text
  | _ => ""

/-- `flattenText` -/
def flattenText (blocks : List ContentBlock) : String := String.join (blocks.map flattenedBlock)

mutual

def blockResultText : ContentBlock → String
  | .text text => text
  | .toolResult _ content _ => toolResultText content
  | _ => ""

def toolResultText : List ContentBlock → String
  | [] => ""
  | block :: rest => blockResultText block ++ toolResultText rest

end

def asToolResult : ContentBlock → Option (String × List ContentBlock × Bool)
  | .toolResult toolCallId content isError => some (toolCallId, content, isError.getD false)
  | _ => none

def orNoOutput (text : String) : String := if text = "" then "(no output)" else text

def piContext (options : GenerateOptions) (messages : List PiMessage) : PiContext where
  systemPrompt := options.system
  messages
  tools := options.tools.filter fun tools => !tools.isEmpty

structure Converting where
  toolNames : OrderedMap String String := .empty
  messages : List PiMessage := []
  degraded : List String := []

def Converting.push (state : Converting) (messages : List PiMessage) : Converting :=
  { state with messages := state.messages ++ messages }

def setToolName (names : OrderedMap String String) : PiBlock → OrderedMap String String
  | .toolCall id name _ _ => names.set id name
  | _ => names

def appendAssistant (state : Converting) (message : HistoryMessage) : Except LlmError Converting := do
  let (assistant, reason) ← toPiAssistant R message
  return { toolNames := assistant.content.foldl setToolName state.toolNames
           messages := state.messages ++ [.assistant assistant]
           degraded := state.degraded ++ reason.toList }

def PiUserContent.isEmpty : PiUserContent → Bool
  | .text value => value == ""
  | .parts content => content.isEmpty

def userMessages (toolNames : OrderedMap String String) (content : PiUserContent)
    (resultContent : List ContentBlock → List PiContent) (blocks : List ContentBlock) :
    List PiMessage :=
  let results := blocks.filterMap asToolResult
  (if !content.isEmpty || results.isEmpty then [.user content] else []) ++
    results.map fun (toolCallId, content, isError) =>
      .toolResult toolCallId ((toolNames.get? toolCallId).getD "unknown") (resultContent content)
        isError

def textOnlyMessage (state : Converting) (message : HistoryMessage) : Except LlmError Converting :=
  if contentHasImage message.content then
    .error ⟨"pi-ai image conversion requires the durable attachment service", "UNSUPPORTED_CONTENT"⟩
  else
    match message.role with
    | .system => .ok (state.push [.user (.text (flattenText message.content))])
    | .assistant => appendAssistant R state message
    | .user =>
      .ok (state.push (userMessages state.toolNames (.text (flattenText message.content))
        (fun content => [.text (orNoOutput (toolResultText content))]) message.content))

def textOnlyContext (options : GenerateOptions) : Except LlmError (PiContext × List String) := do
  let state ← options.messages.foldlM (textOnlyMessage R) {}
  return (piContext options state.messages, state.degraded)

end TextOnly

section WithImages

structure PiImageRequestContext where
  readImageRequest : Json → Except LlmError RequestImage
  resolveImageAccess : Json → Option ImageAttachmentAccess
  maxRequestImageBytes : Option Nat
  maxImageBytes : Nat

variable (R : PiRuntime) (images : PiImageRequestContext)
  (versions : OrderedMap String RequestImage)

def MessageRole.name : MessageRole → String
  | .system => "system"
  | .user => "user"
  | .assistant => "assistant"

def assertSupportedImageRoles (messages : List HistoryMessage) : Except LlmError Unit :=
  match messages.find? fun message => message.role ≠ .user && contentHasImage message.content with
  | none => .ok ()
  | some message =>
    .error ⟨s!"pi-ai cannot represent an image in an in-history {message.role.name} message",
      "UNSUPPORTED_CONTENT"⟩

def versionOf (ref : Json) : RequestImage :=
  (versions.get? (attachmentText ref "attachmentId")).getD ⟨0, 0, "", "", 0⟩

def contentText : PiContent → Option String
  | .text text => some text
  | .image _ _ => none

def joined (parts : List PiContent) : PiUserContent :=
  match parts.mapM contentText with
  | some texts => .text (String.join texts)
  | none => .parts parts

mutual

def blockContent : ContentBlock → List PiContent
  | .text text => if text = "" then [] else [.text text]
  | .image ref =>
    let version := versionOf versions ref
    [.text (requestImageHandleText R.stringify ref version.width version.height
        (images.resolveImageAccess ref)),
      .image version.data version.mediaType]
  | .toolResult _ content _ =>
    match joined (partsOf content) with
    | .text nested => if nested = "" then [] else [.text nested]
    | .parts nested => nested
  | .reasoning _ => []
  | .toolCall _ _ _ => []

def partsOf : List ContentBlock → List PiContent
  | [] => []
  | block :: rest => blockContent block ++ partsOf rest

end

def userContent (blocks : List ContentBlock) : PiUserContent :=
  joined (partsOf R images versions blocks)

/-- The references of a request, the last of each attachment, in the order of the first. -/
def collectImageRefs (messages : List HistoryMessage) : OrderedMap String Json :=
  OrderedMap.empty.setAll ((messages.flatMap fun message => contentImages message.content).map
    fun ref => (attachmentText ref "attachmentId", ref))

def prepareRequestImages (messages : List HistoryMessage) :
    Except LlmError (OrderedMap String RequestImage) := do
  let prepared ← (collectImageRefs messages).entries.mapM fun entry => do
    return (entry.1, ← images.readImageRequest entry.2)
  return OrderedMap.empty.setAll prepared

def requestPlaceholder (ref : Json) : String :=
  offloadedImageText R.stringify ref (images.resolveImageAccess ref)

def offloadPolicy (byteLength : Json → Nat) : RequestImageOffloadPolicy where
  representation := .base64
  maxBytes := images.maxRequestImageBytes
  byteQuantum := some 1
  byteLength := some byteLength
  placeholder := requestPlaceholder R images

def asRequestMessage (message : HistoryMessage) : RequestMessage (MessageRole × MessageSource) :=
  ⟨(message.role, message.source), message.content⟩

def ofRequestMessage (message : RequestMessage (MessageRole × MessageSource)) : HistoryMessage :=
  ⟨message.fields.1, message.fields.2, message.content⟩

/-- `offloadRequestImagesWithPolicy` on the history, by a length of each image. -/
def offload (byteLength : Json → Nat) (messages : List HistoryMessage) : List HistoryMessage :=
  (offloadRequestImagesWithPolicy (offloadPolicy R images byteLength)
    (messages.map asRequestMessage)).map ofRequestMessage

def messageWithImages (state : Converting) (message : HistoryMessage) : Except LlmError Converting :=
  match message.role with
  | .system => .ok (state.push [.user (.text (flattenText message.content))])
  | .assistant => appendAssistant R state message
  | .user =>
    let regular := message.content.filter fun block => (asToolResult block).isNone
    .ok (state.push (userMessages state.toolNames (userContent R images versions regular)
      (fun content => match userContent R images versions content with
        | .text text => [.text (orNoOutput text)]
        | .parts parts => parts) message.content))

def requestMessages (messages : List HistoryMessage) : List HistoryMessage :=
  offload R images (fun ref => min (attachmentBytes ref) images.maxImageBytes) messages

def exactMessages (messages : List HistoryMessage) : List HistoryMessage :=
  offload R images (fun ref => (versionOf versions ref).bytes) messages

def toPiContextWithImages (options : GenerateOptions) :
    Except LlmError (PiContext × List String) := do
  assertSupportedImageRoles options.messages
  let requestMessages := requestMessages R images options.messages
  let versions ← prepareRequestImages images requestMessages
  let exactMessages := exactMessages R images versions requestMessages
  let state ← exactMessages.foldlM (messageWithImages R images versions) {}
  return (piContext options state.messages, state.degraded)

end WithImages

section Replaced

variable {placeholder : Json → String} {count : Nat}

def placeholderOf (placeholder : Json → String) (_place : Nat) (ref : Json) : ContentBlock :=
  .text (placeholder ref)

def replaced (placeholder : Json → String) (message : HistoryMessage) : HistoryMessage :=
  { message with content := mapImages (placeholderOf placeholder) message.content 0 }

mutual

theorem mapBlockImages_of_none (f : Nat → Json → ContentBlock) (block : ContentBlock) (place : Nat)
    (h : blockHasImage block = false) : mapBlockImages f block place = block :=
  match block with
  | .image _ => Bool.noConfusion h
  | .toolResult _ content _ =>
    congrArg (ContentBlock.toolResult _ · _) (mapImages_of_none f content place h)
  | .text _ => rfl
  | .reasoning _ => rfl
  | .toolCall _ _ _ => rfl

theorem mapImages_of_none (f : Nat → Json → ContentBlock) (blocks : List ContentBlock) (place : Nat)
    (h : contentHasImage blocks = false) : mapImages f blocks place = blocks :=
  match blocks with
  | [] => rfl
  | block :: rest => by
    rw [contentHasImage, Bool.or_eq_false_iff] at h
    rw [mapImages, mapBlockImages_of_none f block place h.1, mapImages_of_none f rest _ h.2]

end

mutual

theorem placeholders_mapBlockImages (block : ContentBlock) (place before later : Nat) :
    mapBlockImages (placeholderOf placeholder)
        (mapBlockImages (oldestReplaced placeholder count) block place) before =
      mapBlockImages (placeholderOf placeholder) block later :=
  match block with
  | .image _ => by
    rw [mapBlockImages, oldestReplaced]
    by_cases hplace : place < count
    · rw [if_pos hplace, mapBlockImages, mapBlockImages, placeholderOf]
    · rw [if_neg hplace, mapBlockImages, mapBlockImages, placeholderOf, placeholderOf]
  | .toolResult _ content _ =>
    congrArg (ContentBlock.toolResult _ · _) (placeholders_mapImages content place before later)
  | .text _ => rfl
  | .reasoning _ => rfl
  | .toolCall _ _ _ => rfl

theorem placeholders_mapImages (blocks : List ContentBlock) (place before later : Nat) :
    mapImages (placeholderOf placeholder)
        (mapImages (oldestReplaced placeholder count) blocks place) before =
      mapImages (placeholderOf placeholder) blocks later :=
  match blocks with
  | [] => rfl
  | block :: rest => by
    rw [mapImages, mapImages, mapImages, placeholders_mapBlockImages block place before later,
      placeholders_mapImages rest _ _ (later + (blockImages block).length)]

end

theorem replaced_mapRequestImages (messages : List HistoryMessage) (place : Nat) :
    ((mapRequestImages (oldestReplaced placeholder count) (messages.map asRequestMessage)
        place).map ofRequestMessage).map (replaced placeholder) =
      messages.map (replaced placeholder) := by
  induction messages generalizing place with
  | nil => rfl
  | cons message rest ih =>
    rw [map_cons, mapRequestImages, map_cons, map_cons, map_cons, ih]
    congr 1
    rw [replaced, replaced, ofRequestMessage, asRequestMessage]
    exact congrArg (HistoryMessage.mk _ _)
      (placeholders_mapImages message.content place 0 0)

theorem replaced_of_none (placeholder : Json → String) {messages : List HistoryMessage}
    (h : ∀ message ∈ messages, contentHasImage message.content = false) :
    messages.map (replaced placeholder) = messages := by
  have hid : ∀ message ∈ messages, replaced placeholder message = message := by
    intro message hmessage
    rw [replaced, mapImages_of_none _ _ _ (h message hmessage)]
  rw [map_congr_left hid, map_id']

end Replaced

section Agreement

variable (R : PiRuntime) (images : PiImageRequestContext)
  (versions : OrderedMap String RequestImage)

theorem joined_texts (texts : List String) :
    joined (texts.map PiContent.text) = .text (String.join texts) := by
  have hmap : (texts.map PiContent.text).mapM contentText = some texts := by
    induction texts with
    | nil => rfl
    | cons text rest ih =>
      rw [map_cons, mapM_cons, ih]
      rfl
  rw [joined, hmap]

theorem join_nonempty (text : String) : String.join (if text = "" then [] else [text]) = text := by
  by_cases htext : text = ""
  · rw [if_pos htext, htext]
    rfl
  · rw [if_neg htext, String.join_cons, String.join_nil, String.append_empty]

theorem map_nonempty (text : String) :
    (if text = "" then [] else [PiContent.text text]) =
      (if text = "" then [] else [text]).map PiContent.text := by
  by_cases htext : text = ""
  · rw [if_pos htext, if_pos htext]
    rfl
  · rw [if_neg htext, if_neg htext]
    rfl

mutual

theorem blockContent_texts (block : ContentBlock) (h : blockHasImage block = false) :
    ∃ texts : List String, blockContent R images versions block = texts.map .text ∧
      String.join texts = blockResultText block :=
  match block with
  | .text text =>
    ⟨if text = "" then [] else [text], map_nonempty text, join_nonempty text⟩
  | .image _ => Bool.noConfusion h
  | .toolResult _ content _ => by
    obtain ⟨texts, hparts, hjoin⟩ := partsOf_texts content h
    refine ⟨if toolResultText content = "" then [] else [toolResultText content], ?_,
      join_nonempty _⟩
    rw [blockContent, hparts, joined_texts, hjoin]
    exact map_nonempty _
  | .reasoning _ => ⟨[], rfl, rfl⟩
  | .toolCall _ _ _ => ⟨[], rfl, rfl⟩

theorem partsOf_texts (blocks : List ContentBlock) (h : contentHasImage blocks = false) :
    ∃ texts : List String, partsOf R images versions blocks = texts.map .text ∧
      String.join texts = toolResultText blocks :=
  match blocks with
  | [] => ⟨[], rfl, rfl⟩
  | block :: rest => by
    rw [contentHasImage, Bool.or_eq_false_iff] at h
    obtain ⟨texts, hparts, hjoin⟩ := blockContent_texts block h.1
    obtain ⟨later, hlater, hrest⟩ := partsOf_texts rest h.2
    refine ⟨texts ++ later, ?_, ?_⟩
    · rw [partsOf, hparts, hlater, map_append]
    · rw [String.join_append, hjoin, hrest, toolResultText]

end

variable {blocks : List ContentBlock} {block : ContentBlock} {messages : List HistoryMessage}

theorem userContent_text (h : contentHasImage blocks = false) :
    userContent R images versions blocks = .text (toolResultText blocks) := by
  obtain ⟨texts, hparts, hjoin⟩ := partsOf_texts R images versions blocks h
  rw [userContent, hparts, joined_texts, hjoin]

theorem toolResultText_regular (blocks : List ContentBlock) :
    toolResultText (blocks.filter fun block => (asToolResult block).isNone) =
      flattenText blocks := by
  induction blocks with
  | nil => rfl
  | cons block rest ih =>
    rw [flattenText, map_cons, String.join_cons, ← flattenText, ← ih]
    cases block with
    | toolResult toolCallId content isError => exact (String.empty_append).symm
    | text text => rfl
    | image ref => rfl
    | reasoning text => rfl
    | toolCall id name arguments => rfl

theorem contentHasImage_of_mem
    (h : contentHasImage blocks = false) (hmem : block ∈ blocks) : blockHasImage block = false := by
  induction hmem with
  | head rest => exact (Bool.or_eq_false_iff.mp h).1
  | tail first _ ih => exact ih (Bool.or_eq_false_iff.mp h).2

theorem contentHasImage_filter (keep : ContentBlock → Bool)
    (h : contentHasImage blocks = false) : contentHasImage (blocks.filter keep) = false := by
  induction blocks with
  | nil => rfl
  | cons block rest ih =>
    rw [contentHasImage, Bool.or_eq_false_iff] at h
    rw [filter_cons]
    by_cases hkeep : keep block = true
    · rw [if_pos hkeep, contentHasImage, h.1, ih h.2]
      rfl
    · rw [if_neg hkeep]
      exact ih h.2

theorem hasImage_of_toolResult {toolCallId : String} {inner : List ContentBlock} {isError : Bool}
    (h : asToolResult block = some (toolCallId, inner, isError)) :
    blockHasImage block = contentHasImage inner := by
  cases block with
  | toolResult id content error =>
    simp only [asToolResult, Option.some.injEq, Prod.mk.injEq] at h
    rw [← h.2.1, blockHasImage]
  | _ => simp [asToolResult] at h

theorem userMessages_congr {toolNames : OrderedMap String String} {content : PiUserContent}
    {first second : List ContentBlock → List PiContent} (h : contentHasImage blocks = false)
    (hsame : ∀ inner, contentHasImage inner = false → first inner = second inner) :
    userMessages toolNames content first blocks = userMessages toolNames content second blocks := by
  rw [userMessages, userMessages]
  dsimp only
  congr 1
  apply map_congr_left
  rintro ⟨toolCallId, inner, isError⟩ hmem
  obtain ⟨block, hblock, hresult⟩ := mem_filterMap.mp hmem
  rw [hsame inner ((hasImage_of_toolResult hresult).symm.trans (contentHasImage_of_mem h hblock))]

theorem messageWithImages_eq (state : Converting) {message : HistoryMessage}
    (h : contentHasImage message.content = false) :
    messageWithImages R images versions state message = textOnlyMessage R state message := by
  rw [textOnlyMessage, if_neg (by rw [h]; exact Bool.false_ne_true), messageWithImages]
  cases message.role with
  | system => rfl
  | assistant => rfl
  | user =>
    dsimp only
    rw [userContent_text R images versions (contentHasImage_filter _ h), toolResultText_regular,
      userMessages_congr h]
    intro inner hinner
    rw [userContent_text R images versions hinner]

theorem foldlM_messages (state : Converting)
    (h : ∀ message ∈ messages, contentHasImage message.content = false) :
    messages.foldlM (messageWithImages R images versions) state =
      messages.foldlM (textOnlyMessage R) state := by
  induction messages generalizing state with
  | nil => rfl
  | cons message rest ih =>
    rw [foldlM_cons, foldlM_cons,
      messageWithImages_eq R images versions state (h message mem_cons_self)]
    exact congrArg (textOnlyMessage R state message >>= ·)
      (funext fun next => ih next fun later hlater => h later (mem_cons_of_mem _ hlater))

theorem replaced_offload (byteLength : Json → Nat) (messages : List HistoryMessage) :
    (offload R images byteLength messages).map (replaced (requestPlaceholder R images)) =
      messages.map (replaced (requestPlaceholder R images)) := by
  rw [offload, offloadRequestImagesWithPolicy_eq]
  exact replaced_mapRequestImages messages 0

theorem assertSupportedImageRoles_ok
    (h : ∀ message ∈ messages, message.role ≠ .user → contentHasImage message.content = false) :
    assertSupportedImageRoles messages = .ok () := by
  rw [assertSupportedImageRoles, find?_eq_none.mpr]
  intro message hmessage hfound
  simp only [ne_eq, decide_not, Bool.and_eq_true, Bool.not_eq_true', decide_eq_false_iff_not]
    at hfound
  rw [h message hmessage hfound.1] at hfound
  exact Bool.false_ne_true hfound.2

def AllOffloaded (messages : List HistoryMessage) : Prop :=
  ∃ versions, prepareRequestImages images (requestMessages R images messages) = .ok versions ∧
    ∀ message ∈ exactMessages R images versions (requestMessages R images messages),
      contentHasImage message.content = false

theorem offload_of_none (byteLength : Json → Nat)
    (h : ∀ message ∈ messages, contentHasImage message.content = false) :
    offload R images byteLength messages = messages := by
  rw [offload, offloadRequestImagesWithPolicy_eq]
  generalize oldestReplaced _ _ = f
  generalize 0 = place
  induction messages generalizing place with
  | nil => rfl
  | cons message rest ih =>
    rw [map_cons, mapRequestImages, map_cons,
      ih fun later hlater => h later (mem_cons_of_mem _ hlater)]
    congr 1
    rw [ofRequestMessage, asRequestMessage]
    exact congrArg (HistoryMessage.mk _ _)
      (mapImages_of_none _ message.content place (h message mem_cons_self))

theorem prepareRequestImages_of_none
    (h : ∀ message ∈ messages, contentHasImage message.content = false) :
    prepareRequestImages images messages = .ok .empty := by
  have hrefs : messages.flatMap (fun message => contentImages message.content) = [] := by
    rw [flatMap_eq_nil_iff]
    intro message hmessage
    by_contra hne
    have hhas := (contentHasImage_iff _).mpr hne
    rw [h message hmessage] at hhas
    exact Bool.false_ne_true hhas
  rw [prepareRequestImages, collectImageRefs, hrefs]
  rfl

theorem allOffloaded_of_requestMessages
    (h : ∀ message ∈ requestMessages R images messages, contentHasImage message.content = false) :
    AllOffloaded R images messages := by
  refine ⟨.empty, prepareRequestImages_of_none images h, ?_⟩
  rw [exactMessages, offload_of_none R images _ h]
  exact h

theorem allOffloaded_of_none
    (h : ∀ message ∈ messages, contentHasImage message.content = false) :
    AllOffloaded R images messages := by
  apply allOffloaded_of_requestMessages
  rw [requestMessages, offload_of_none R images _ h]
  exact h

variable {R images}

/-- Where the budget leaves no image, or there is none, the conversion that resolves images gives
what the one of text gives. -/
theorem conversions_agree (options : GenerateOptions) :
    ((∀ message ∈ options.messages,
        message.role ≠ .user → contentHasImage message.content = false) →
      AllOffloaded R images options.messages →
      toPiContextWithImages R images options =
        textOnlyContext R { options with
          messages := options.messages.map (replaced (requestPlaceholder R images)) }) ∧
      ((∀ message ∈ options.messages, contentHasImage message.content = false) →
        toPiContextWithImages R images options = textOnlyContext R options) := by
  have hagree : (∀ message ∈ options.messages,
        message.role ≠ .user → contentHasImage message.content = false) →
      AllOffloaded R images options.messages →
      toPiContextWithImages R images options =
        textOnlyContext R { options with
          messages := options.messages.map (replaced (requestPlaceholder R images)) } := by
    rintro hroles ⟨versions, hversions, hnone⟩
    have hexact : exactMessages R images versions (requestMessages R images options.messages) =
        options.messages.map (replaced (requestPlaceholder R images)) := by
      have hall := replaced_of_none (requestPlaceholder R images) hnone
      rw [← hall, exactMessages, replaced_offload, requestMessages, replaced_offload]
    rw [toPiContextWithImages, textOnlyContext, assertSupportedImageRoles_ok hroles]
    simp only [bind, Except.bind, hversions]
    rw [foldlM_messages R images versions {} hnone, hexact]
    rfl
  refine ⟨hagree, fun hnone => ?_⟩
  rw [hagree (fun message hmessage _ => hnone message hmessage)
    (allOffloaded_of_none R images hnone), replaced_of_none _ hnone]

theorem conversions_agree_image :
    let ref : Json := .obj [("attachmentId", .str "a"), ("bytes", .ofNat 3)]
    let R : PiRuntime := ⟨fun _ => "", fun _ => none, fun _ => ""⟩
    let images : PiImageRequestContext := ⟨fun _ => .error ⟨"", ""⟩, fun _ => none, some 1, 9⟩
    let messages : List HistoryMessage := [⟨.user, .user,
      [.toolResult "t" [.text "x", .image ref] none]⟩]
    toPiContextWithImages R images { messages } =
      textOnlyContext R { messages := messages.map (replaced (requestPlaceholder R images)) } := by
  intro ref R images messages
  apply (conversions_agree { messages }).1
  · intro message hmessage hrole
    rw [mem_singleton] at hmessage
    rw [hmessage] at hrole
    exact absurd rfl hrole
  · apply allOffloaded_of_requestMessages
    have hlengths : requestImageLengths
        (offloadPolicy R images fun ref => min (attachmentBytes ref) images.maxImageBytes)
        (messages.map asRequestMessage) = [4] := by
      rw [requestImageLengths_eq]
      subst messages images R ref
      rfl
    rw [requestMessages, offload, offloadRequestImagesWithPolicy_eq, hlengths]
    intro message hmessage
    rw [mem_singleton.mp hmessage]
    subst messages images R ref
    rfl

end Agreement

end DshKernel.Llm
