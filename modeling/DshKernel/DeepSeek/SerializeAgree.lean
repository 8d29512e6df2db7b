import DshKernel.DeepSeek.Serialize

/-!
# The two serializations of a history without images

They write the same messages, except that the one for images looks into the tool results that
stand in a tool result, and the other does not.
-/

namespace DshKernel.DeepSeek

open Js Session Llm List

section Texts

mutual

def blockTexts : ContentBlock → List String
  | .text text => [text]
  | .toolResult _ content _ => deepTexts content
  | _ => []

def deepTexts : List ContentBlock → List String
  | [] => []
  | block :: rest => blockTexts block ++ deepTexts rest

end

def nestedTexts (blocks : List ContentBlock) : List String :=
  (blocks.filterMap asToolResult).flatMap fun result => deepTexts result.2

/-- What is nested in the content of a tool result does not show in its output: it is empty, or
it is the text that stands for empty output, and nothing else is there. -/
def NestingSilent (content : List ContentBlock) : Prop :=
  (∀ text ∈ nestedTexts content, text = "") ∨
    ((∀ text ∈ content.filterMap asText, text = "") ∧
      String.join (nestedTexts content) = "(no output)")

theorem join_eq_empty {texts : List String} :
    String.join texts = "" ↔ ∀ text ∈ texts, text = "" := by
  induction texts with
  | nil => simp
  | cons text texts ih =>
    rw [String.join_cons, String.append_eq_empty_iff, ih, forall_mem_cons]

theorem join_filter_ne_empty (texts : List String) :
    String.join (texts.filter fun text => text ≠ "") = String.join texts := by
  induction texts with
  | nil => rfl
  | cons text texts ih =>
    by_cases h : text = ""
    · rw [filter_cons_of_neg (by simp [h]), ih, String.join_cons, h, String.empty_append]
    · rw [filter_cons_of_pos (by simp [h]), String.join_cons, String.join_cons, ih]

theorem length_deepTexts (blocks : List ContentBlock) :
    (String.join (deepTexts blocks)).length =
      (flattenText blocks).length + (String.join (nestedTexts blocks)).length := by
  induction blocks with
  | nil => rfl
  | cons block rest ih =>
    rw [flattenText] at ih ⊢
    rw [nestedTexts] at ih ⊢
    rw [deepTexts, String.join_append, String.length_append, ih]
    cases block with
    | text text =>
      simp only [blockTexts, asText, asToolResult, filterMap_cons, String.join_cons,
        String.join_nil, String.append_empty, String.length_append]
      omega
    | toolResult toolCallId content isError =>
      simp only [blockTexts, asText, asToolResult, filterMap_cons, flatMap_cons,
        String.join_append, String.length_append]
      omega
    | _ =>
      simp only [blockTexts, asText, asToolResult, filterMap_cons, String.join_nil,
        String.length_empty]
      omega

variable {blocks : List ContentBlock}

theorem join_deepTexts_of_nested
    (h : ∀ text ∈ nestedTexts blocks, text = "") :
    String.join (deepTexts blocks) = flattenText blocks := by
  induction blocks with
  | nil => rfl
  | cons block rest ih =>
    rw [deepTexts, String.join_append]
    cases block with
    | text text =>
      rw [ih h]
      simp [blockTexts, flattenText, asText]
    | toolResult toolCallId content isError =>
      change ∀ text ∈ deepTexts content ++ nestedTexts rest, text = "" at h
      obtain ⟨hcontent, hrest⟩ := forall_mem_append.mp h
      rw [ih hrest, blockTexts, join_eq_empty.mpr hcontent, String.empty_append]
      rfl
    | _ =>
      rw [ih h]
      rfl

theorem join_deepTexts_of_own
    (h : ∀ text ∈ blocks.filterMap asText, text = "") :
    String.join (deepTexts blocks) = String.join (nestedTexts blocks) := by
  induction blocks with
  | nil => rfl
  | cons block rest ih =>
    rw [deepTexts, String.join_append]
    cases block with
    | text text =>
      change ∀ own ∈ text :: rest.filterMap asText, own = "" at h
      obtain ⟨htext, hrest⟩ := forall_mem_cons.mp h
      rw [ih hrest, htext]
      rfl
    | toolResult toolCallId content isError =>
      rw [ih h]
      simp [blockTexts, nestedTexts, asToolResult]
    | _ =>
      rw [ih h]
      rfl

theorem toolOutput_eq_iff (content : List ContentBlock) :
    toolOutput (String.join (deepTexts content)) = toolOutput (flattenText content) ↔
      NestingSilent content := by
  constructor
  · intro h
    by_cases hnested : ∀ text ∈ nestedTexts content, text = ""
    · exact Or.inl hnested
    · have hlength := length_deepTexts content
      have hpositive : (String.join (nestedTexts content)).length ≠ 0 := by
        intro hzero
        exact hnested (join_eq_empty.mp (String.length_eq_zero_iff.mp hzero))
      have hdeep : String.join (deepTexts content) ≠ "" := by
        intro hempty
        rw [hempty, String.length_empty] at hlength
        omega
      rw [toolOutput, if_neg hdeep, toolOutput] at h
      split at h
      · rename_i hflat
        have hown := join_eq_empty.mp hflat
        exact Or.inr ⟨hown, (join_deepTexts_of_own hown).symm.trans h⟩
      · rw [h] at hlength
        omega
  · rintro (hnested | ⟨hown, hjoin⟩)
    · rw [join_deepTexts_of_nested hnested]
    · have hflat : flattenText content = "" := join_eq_empty.mpr hown
      rw [join_deepTexts_of_own hown, hjoin, hflat]
      rfl

end Texts

section Parts

variable (images : ImageSerializationOptions)

mutual

theorem blockParts_eq (message : Nat) (parts : List WireUserContentPart) (nextImage : Nat)
    {block : ContentBlock} (h : blockHasImage block = false) :
    blockParts images message parts nextImage block =
      .ok (parts ++ ((blockTexts block).filter fun text => text ≠ "").map .text, nextImage) := by
  cases block with
  | text text =>
    by_cases htext : text = ""
    · simp [blockParts, blockTexts, htext]
    · simp [blockParts, blockTexts, htext]
  | toolResult toolCallId content isError =>
    have hcontent : contentHasImage content = false := h
    rw [blockParts, contentParts_eq message [] nextImage hcontent]
    rfl
  | image attachment => cases h
  | reasoning text => simp [blockParts, blockTexts]
  | toolCall id name arguments => simp [blockParts, blockTexts]

theorem contentParts_eq (message : Nat) (parts : List WireUserContentPart) (nextImage : Nat)
    {blocks : List ContentBlock} (h : contentHasImage blocks = false) :
    contentParts images message parts nextImage blocks =
      .ok (parts ++ ((deepTexts blocks).filter fun text => text ≠ "").map .text, nextImage) := by
  cases blocks with
  | nil => simp [contentParts, deepTexts]
  | cons block rest =>
    simp only [contentHasImage, Bool.or_eq_false_iff] at h
    rw [contentParts, blockParts_eq message parts nextImage h.1]
    dsimp only
    rw [contentParts_eq message _ nextImage h.2, deepTexts, filter_append, map_append,
      append_assoc]

end

theorem filterMap_textOfPart (texts : List String) :
    (texts.map WireUserContentPart.text).filterMap textOfPart = texts := by
  induction texts with
  | nil => rfl
  | cons text texts ih => simp only [map_cons, filterMap_cons, textOfPart, ih]

theorem filterMap_imageOfPart (texts : List String) :
    (texts.map WireUserContentPart.text).filterMap imageOfPart = [] := by
  induction texts with
  | nil => rfl
  | cons text texts ih => simp only [map_cons, filterMap_cons, imageOfPart, ih]

theorem userContent_texts (texts : List String) :
    userContent (texts.map .text) = .text (String.join texts) := by
  have hall : (texts.map WireUserContentPart.text).all (fun part => (textOfPart part).isSome) =
      true := by
    rw [all_map, all_eq_true]
    intro text _
    rfl
  rw [userContent, if_pos hall, filterMap_textOfPart]

theorem contentHasImage_eq_false {blocks : List ContentBlock} :
    contentHasImage blocks = false ↔ ∀ block ∈ blocks, blockHasImage block = false := by
  induction blocks with
  | nil => simp [contentHasImage]
  | cons block rest ih =>
    rw [contentHasImage, Bool.or_eq_false_iff, ih, forall_mem_cons]

theorem deepTexts_regular (blocks : List ContentBlock) :
    deepTexts (blocks.filter fun block => (asToolResult block).isNone) =
      blocks.filterMap asText := by
  induction blocks with
  | nil => rfl
  | cons block rest ih =>
    cases block with
    | toolResult toolCallId content isError =>
      rw [filter_cons_of_neg (by simp [asToolResult]), ih]
      rfl
    | text text =>
      rw [filter_cons_of_pos (by simp [asToolResult]), deepTexts, ih]
      rfl
    | _ =>
      rw [filter_cons_of_pos (by simp [asToolResult]), deepTexts, ih]
      rfl

end Parts

section Messages

def wireMessages (outputOf : List ContentBlock → String) (message : Message) : List WireMessage :=
  match message.role with
  | .system => [.system (flattenText message.content)]
  | .assistant => [serializeAssistant message]
  | .user =>
    let toolResults := message.content.filterMap asToolResult
    let text := flattenText message.content
    (if text ≠ "" ∨ toolResults = [] then [.user (.text text)] else [])
      ++ toolResults.map fun (toolCallId, content) => .tool toolCallId (outputOf content)

def deepOutput (content : List ContentBlock) : String :=
  toolOutput (String.join (deepTexts content))

def flatOutput (content : List ContentBlock) : String := toolOutput (flattenText content)

variable {messages : List Message}

theorem serializeMessages_eq
    (h : ∀ message ∈ messages, contentHasImage message.content = false) :
    serializeMessages messages = .ok (messages.flatMap (wireMessages flatOutput)) := by
  induction messages with
  | nil => rfl
  | cons message rest ih =>
    obtain ⟨hmessage, hrest⟩ := forall_mem_cons.mp h
    rw [serializeMessages, assertTextOnly, hmessage, if_neg (by decide), ih hrest]
    rfl

variable (images : ImageSerializationOptions)

theorem pushToolResults_eq (message nextImage : Nat) (wire : List WireMessage)
    {results : List (String × List ContentBlock)}
    (h : ∀ result ∈ results, contentHasImage result.2 = false) :
    pushToolResults images message { wire } nextImage results =
      .ok { wire := wire ++ results.map fun (toolCallId, content) =>
        .tool toolCallId (deepOutput content) } := by
  induction results generalizing wire with
  | nil => simp [pushToolResults]
  | cons result rest ih =>
    obtain ⟨toolCallId, content⟩ := result
    obtain ⟨hcontent, hrest⟩ := forall_mem_cons.mp h
    rw [pushToolResults, contentParts_eq images message [] nextImage hcontent]
    simp only [nil_append, filterMap_textOfPart, filterMap_imageOfPart, join_filter_ne_empty,
      WireState.push, append_nil]
    rw [ih _ hrest, append_assoc]
    rfl

theorem pushMessage_eq (index : Nat) (wire : List WireMessage) {message : Message}
    (h : contentHasImage message.content = false) :
    pushMessage images { wire } index message =
      .ok { wire := wire ++ wireMessages deepOutput message } := by
  rw [pushMessage, wireMessages]
  cases message.role with
  | system => rfl
  | assistant => rfl
  | user =>
    have hblocks := contentHasImage_eq_false.mp h
    have hregular : contentHasImage
        (message.content.filter fun block => (asToolResult block).isNone) = false := by
      apply contentHasImage_eq_false.mpr
      intro block hblock
      exact hblocks block (mem_filter.mp hblock).1
    have hresults : ∀ result ∈ message.content.filterMap asToolResult,
        contentHasImage result.2 = false := by
      intro result hresult
      obtain ⟨block, hblock, hsome⟩ := mem_filterMap.mp hresult
      cases block with
      | toolResult toolCallId content isError =>
        cases hsome
        exact hblocks _ hblock
      | _ => cases hsome
    dsimp only
    rw [contentParts_eq images (index + 1) [] 0 hregular, deepTexts_regular, nil_append]
    simp only [userContent_texts, join_filter_ne_empty, WireUserContent.isEmpty]
    rw [← flattenText]
    by_cases hempty : flattenText message.content ≠ "" ∨ message.content.filterMap asToolResult = []
    · rw [if_pos hempty, if_pos (by simpa using hempty)]
      simp only [WireState.flushToolImages, WireState.push, if_true]
      rw [pushToolResults_eq images (index + 1) 0 _ hresults, append_assoc]
    · rw [if_neg hempty, if_neg (by simpa using hempty),
        pushToolResults_eq images (index + 1) 0 _ hresults, nil_append]

theorem pushMessages_eq (index : Nat) (wire : List WireMessage)
    (h : ∀ message ∈ messages, contentHasImage message.content = false) :
    pushMessages images { wire } index messages =
      .ok { wire := wire ++ messages.flatMap (wireMessages deepOutput) } := by
  induction messages generalizing index wire with
  | nil => simp [pushMessages]
  | cons message rest ih =>
    obtain ⟨hmessage, hrest⟩ := forall_mem_cons.mp h
    rw [pushMessages, pushMessage_eq images index wire hmessage]
    dsimp only
    rw [ih _ _ hrest, flatMap_cons, append_assoc]

theorem serializeMessagesWithImages_eq
    (h : ∀ message ∈ messages, contentHasImage message.content = false) :
    serializeMessagesWithImages images messages =
      .ok (messages.flatMap (wireMessages deepOutput)) := by
  have hroles : assertSupportedImageRoles messages = .ok () := by
    induction messages with
    | nil => rfl
    | cons message rest ih =>
      obtain ⟨hmessage, hrest⟩ := forall_mem_cons.mp h
      rw [assertSupportedImageRoles, if_neg (by simp [hmessage]), ih hrest]
  rw [serializeMessagesWithImages, hroles, pushMessages_eq images 0 [] h]
  rfl

end Messages

section Agree

theorem flatMap_eq_iff {α β : Type} {f g : α → List β} {xs : List α}
    (hlength : ∀ x ∈ xs, (f x).length = (g x).length) :
    xs.flatMap f = xs.flatMap g ↔ ∀ x ∈ xs, f x = g x := by
  induction xs with
  | nil => simp
  | cons x xs ih =>
    obtain ⟨hx, hxs⟩ := forall_mem_cons.mp hlength
    rw [flatMap_cons, flatMap_cons, forall_mem_cons, ← ih hxs]
    constructor
    · intro h
      exact append_inj h hx
    · rintro ⟨hhead, htail⟩
      rw [hhead, htail]

variable {outputOf other : List ContentBlock → String}

theorem length_wireMessages (message : Message) :
    (wireMessages outputOf message).length = (wireMessages other message).length := by
  unfold wireMessages
  cases message.role with
  | system => rfl
  | assistant => rfl
  | user => simp only [length_append, length_map]

theorem wireMessages_eq_iff (message : Message) :
    wireMessages outputOf message = wireMessages other message ↔
      (message.role = .user →
        ∀ result ∈ message.content.filterMap asToolResult, outputOf result.2 = other result.2) := by
  unfold wireMessages
  cases message.role with
  | system => simp
  | assistant => simp
  | user =>
    dsimp only
    rw [append_cancel_left_eq, map_inj_left]
    constructor
    · intro h _ result hresult
      have hmessage := h result hresult
      injection hmessage
    · intro h result hresult
      rw [h rfl result hresult]

/-- Without images, the two serializations agree exactly where no nested tool result shows in the
output of a tool result. -/
theorem serializations_agree_iff (images : ImageSerializationOptions) {messages : List Message}
    (h : ∀ message ∈ messages, contentHasImage message.content = false) :
    serializeMessagesWithImages images messages = serializeMessages messages ↔
      ∀ message ∈ messages, message.role = .user →
        ∀ result ∈ message.content.filterMap asToolResult, NestingSilent result.2 := by
  rw [serializeMessagesWithImages_eq images h, serializeMessages_eq h, Except.ok.injEq,
    flatMap_eq_iff fun message _ => length_wireMessages message]
  constructor
  · intro hall message hmessage hrole result hresult
    apply (toolOutput_eq_iff result.2).mp
    exact (wireMessages_eq_iff message).mp (hall message hmessage) hrole result hresult
  · intro hall message hmessage
    apply (wireMessages_eq_iff message).mpr
    intro hrole result hresult
    exact (toolOutput_eq_iff result.2).mpr (hall message hmessage hrole result hresult)

def noImages : ImageSerializationOptions where
  representation := .base64
  requestImages := fun _ => none
  resolveImageAccess := none
  quoted := id

def nestedHistory : List Message :=
  [⟨.user, [.toolResult "nested" [.toolResult "inner" [.text "inside"] none] none]⟩]

theorem serializations_agree_iff_nested :
    serializeMessagesWithImages noImages nestedHistory = serializeMessages nestedHistory ↔
      ∀ message ∈ nestedHistory, message.role = .user →
        ∀ result ∈ message.content.filterMap asToolResult, NestingSilent result.2 :=
  serializations_agree_iff noImages (by simp [nestedHistory, contentHasImage, blockHasImage])

theorem not_serializations_agree :
    (∀ message ∈ nestedHistory, contentHasImage message.content = false) ∧
      serializeMessagesWithImages noImages nestedHistory = .ok [.tool "nested" "inside"] ∧
      serializeMessages nestedHistory = .ok [.tool "nested" "(no output)"] ∧
      serializeMessagesWithImages noImages nestedHistory ≠ serializeMessages nestedHistory := by
  have hwith : serializeMessagesWithImages noImages nestedHistory =
      .ok [.tool "nested" "inside"] := rfl
  have hplain : serializeMessages nestedHistory = .ok [.tool "nested" "(no output)"] := rfl
  refine ⟨by simp [nestedHistory, contentHasImage, blockHasImage], hwith, hplain, ?_⟩
  rw [hwith, hplain]
  simp

end Agree

end DshKernel.DeepSeek
