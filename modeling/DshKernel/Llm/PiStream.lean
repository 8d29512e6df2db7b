import DshKernel.Llm.PiReplay
import DshKernel.Llm.ReplayState

/-!
# pi-ai streams

The chunks that an event stream of pi-ai becomes, and the way back: the assembled response, stored
as JSON, gives the native message to a later request.
-/

namespace DshKernel.Llm

open Js Lib Session BlockAssembler List

/-- `AssistantMessageEvent`; `content` is that of the partial message. -/
inductive PiEvent where
  | start
  | textStart (contentIndex : Nat)
  | textDelta (contentIndex : Nat) (delta : String)
  | textEnd (contentIndex : Nat) (text : String)
  | thinkingStart (contentIndex : Nat)
  | thinkingDelta (contentIndex : Nat) (delta : String)
  | thinkingEnd (contentIndex : Nat) (text : String)
  | toolcallStart (contentIndex : Nat) (content : List PiBlock)
  | toolcallDelta (contentIndex : Nat) (delta : String)
  | toolcallEnd (contentIndex : Nat) (id name : String) (arguments : List (String × Json))
  | done (message : PiAssistant)
  | error (failure : PiAssistant)

/-- How the texts and the usage of a failure are classified. -/
structure PiErrors where
  isContextOverflow : PiAssistant → Option Nat → Bool
  isContextWindowExceededError : String → Bool
  classifyPiAiError : String → String

section Translate

variable (R : PiRuntime) (E : PiErrors) (contextWindow : Option Nat) (callerAborted : Bool)

def mapUsage (usage : PiUsage) : TokenUsage where
  inputTokens := .ofNat usage.input
  outputTokens := .ofNat usage.output
  totalTokens := some (.ofNat usage.totalTokens)
  cacheReadTokens := if 0 < usage.cacheRead then some (.ofNat usage.cacheRead) else none
  cacheWriteTokens := if 0 < usage.cacheWrite then some (.ofNat usage.cacheWrite) else none

def piFailure (message code : String) : Json := .obj [("message", .str message), ("code", .str code)]

def mapStopReason (message : PiAssistant) : FinishReason :=
  let harnessOverflow := message.stopReason == .error &&
    message.errorMessage.any E.isContextWindowExceededError
  if E.isContextOverflow message contextWindow || harnessOverflow then
    .error (piFailure (message.errorMessage.getD
      s!"pi-ai detected context overflow for model \"{message.model}\"") "CONTEXT_WINDOW_EXCEEDED")
  else
    match message.stopReason with
    | .stop =>
      if message.content.length = 0 then
        .error (piFailure s!"model \"{message.model}\" returned a completed response with no content"
          "EMPTY_RESPONSE")
      else .stop
    | .length => .maxTokens
    | .toolUse => .toolCalls
    | .pending =>
      .error (piFailure s!"pi-ai stream for model \"{message.model}\" ended pending" "PI_AI_ERROR")
    | .deferred =>
      .error (piFailure s!"pi-ai deferred response for model \"{message.model}\" is not supported"
        "PI_AI_ERROR")
    | .aborted =>
      .aborted (piFailure (message.errorMessage.getD "pi-ai stream aborted") "ABORTED")
    | .error =>
      let text := message.errorMessage.getD "pi-ai stream error"
      .error (piFailure text (E.classifyPiAiError text))

/-- The id and the name of the call at the index of a partial message. -/
def callAt (content : List PiBlock) (index : Nat) : String × String :=
  match content[index]? with
  | some (.toolCall id name _ _) => (id, name)
  | _ => ("", "")

/-- What `toStreamChunks` yields for an event that does not end the stream. -/
def translate (toolIds : OrderedMap Nat (String × String)) :
    PiEvent → OrderedMap Nat (String × String) × List StreamChunk
  | .textStart index => (toolIds, [.blockStart index "text"])
  | .textDelta index delta => (toolIds, [.textDelta index delta])
  | .textEnd index text => (toolIds, [.blockEnd index (.text text)])
  | .thinkingStart index => (toolIds, [.blockStart index "reasoning"])
  | .thinkingDelta index delta => (toolIds, [.reasoningDelta index delta])
  | .thinkingEnd index text => (toolIds, [.blockEnd index (.reasoning text)])
  | .toolcallStart index content =>
    (toolIds.set index (callAt content index), [.blockStart index "tool-call"])
  | .toolcallDelta index delta =>
    let known := toolIds.get? index
    (toolIds, [.toolCallDelta index ((known.map Prod.fst).getD "")
      ((known.map Prod.snd).filter (· ≠ "")) delta])
  | .toolcallEnd index id name arguments =>
    (toolIds, [.blockEnd index (.toolCall id name (R.stringify (.obj arguments)))])
  | _ => (toolIds, [])

def terminalChunks : PiEvent → Option (List StreamChunk)
  | .done message =>
    some [.usage (mapUsage message.usage),
      .finish (mapStopReason E contextWindow message) (some (toPiReplayState message))]
  | .error failure =>
    let failure := if callerAborted then { failure with stopReason := .aborted } else failure
    some [.usage (mapUsage failure.usage), .finish (mapStopReason E contextWindow failure) none]
  | _ => none

/-- The chunks, and the failure when the source ends without a terminal event. -/
def toStreamChunks (toolIds : OrderedMap Nat (String × String)) :
    List PiEvent → List StreamChunk × Option LlmError
  | [] => ([], some ⟨"pi-ai event stream ended without done/error", "STREAM_CLOSED"⟩)
  | event :: rest =>
    match terminalChunks E contextWindow callerAborted event with
    | some chunks => (chunks, none)
    | none =>
      let (toolIds, chunks) := translate R toolIds event
      let (later, failure) := toStreamChunks toolIds rest
      (chunks ++ later, failure)

end Translate

section Streams

variable {content : List PiBlock}

/-- An event before the terminal one, when the blocks before `opened` are started: a start is that of
the next block, and an end has the final content. -/
def PiEvent.Fits (content : List PiBlock) (opened : Nat) : PiEvent → Prop
  | .start => True
  | .textStart index => index = opened
  | .thinkingStart index => index = opened
  | .toolcallStart index _ => index = opened
  | .textDelta index _ => index < opened
  | .thinkingDelta index _ => index < opened
  | .toolcallDelta index _ => index < opened
  | .textEnd index text => index < opened ∧ ∃ signature, content[index]? = some (.text text signature)
  | .thinkingEnd index text =>
    index < opened ∧ ∃ signature redacted, content[index]? = some (.thinking text signature redacted)
  | .toolcallEnd index id name arguments =>
    index < opened ∧ ∃ signature, content[index]? = some (.toolCall id name arguments signature)
  | .done _ => False
  | .error _ => False

def PiEvent.opens : PiEvent → Nat
  | .textStart _ => 1
  | .thinkingStart _ => 1
  | .toolcallStart _ _ => 1
  | _ => 0

def PiEvent.ends : PiEvent → Option Nat
  | .textEnd index _ => some index
  | .thinkingEnd index _ => some index
  | .toolcallEnd index _ _ _ => some index
  | _ => none

def OpensInOrder (content : List PiBlock) : Nat → List PiEvent → Prop
  | opened, [] => opened = content.length
  | opened, event :: rest =>
    event.Fits content opened ∧ OpensInOrder content (opened + event.opens) rest

/-- The events of a response with this content, without the terminal one. -/
structure Streams (content : List PiBlock) (body : List PiEvent) : Prop where
  opens : OpensInOrder content 0 body
  closes : ∀ index < content.length, ∃ event ∈ body, event.ends = some index

end Streams

section Assembly

variable (R : PiRuntime)

def PiBlock.harness : PiBlock → ContentBlock
  | .text value _ => .text value
  | .thinking value _ _ => .reasoning value
  | .toolCall id name arguments _ => .toolCall id name (R.stringify (.obj arguments))

/-- The blocks started so far are held in order, and those that have ended with their content. -/
structure Assembling (content : List PiBlock) (opened : Nat) (ended : List Nat)
    (assembler : BlockAssembler) : Prop where
  keys : assembler.partials.keys = range opened
  ended_lt : ∀ index ∈ ended, index < opened
  holds : ∀ index < opened, ∃ found, assembler.partials.get? index = some found ∧
    (∀ block ∈ found.block, content[index]?.map (PiBlock.harness R) = some block) ∧
    (index ∈ ended → found.block.isSome = true)

variable {R} {content : List PiBlock} {opened index : Nat} {ended : List Nat}
  {assembler : BlockAssembler}

theorem assembling_empty : Assembling R content 0 [] {} where
  keys := rfl
  ended_lt := fun _ h => nomatch h
  holds := fun _ h => absurd h (Nat.not_lt_zero _)

theorem Assembling.start (h : Assembling R content opened ended assembler) (blockType : String) :
    Assembling R content (opened + 1) ended (assembler.push (.blockStart opened blockType)) where
  keys := by
    have hnew : opened ∉ assembler.partials.keys := by
      rw [h.keys]
      exact not_mem_range_self
    show (assembler.partials.set opened _).keys = _
    rw [OrderedMap.keys, OrderedMap.entries_set_of_not_mem hnew, map_append, range_succ,
      ← h.keys]
    rfl
  ended_lt := fun index hindex => Nat.lt_succ_of_lt (h.ended_lt index hindex)
  holds := by
    intro index hindex
    show ∃ found, (assembler.partials.set opened _).get? index = some found ∧ _
    rw [OrderedMap.get?_set]
    by_cases heq : index = opened
    · have hnone : assembler.partials.get? opened = none := by
        rw [OrderedMap.get?_eq_none, h.keys]
        exact not_mem_range_self
      rw [if_pos heq, ensure, hnone]
      refine ⟨_, rfl, fun _ hblock => absurd hblock (Option.not_mem_none _), fun hended => ?_⟩
      exact absurd (h.ended_lt index hended) (by omega)
    · rw [if_neg heq]
      exact h.holds index (by omega)

/-- A change of an open block, whose `last` is its final content when it ends. -/
theorem Assembling.edit (h : Assembling R content opened ended assembler) (hindex : index < opened)
    (blockType : String) {change : PartialBlock → PartialBlock} {last : Option ContentBlock}
    (hchange : ∀ found, found.block = none → (change found).block = last)
    (hlast : ∀ block ∈ last, content[index]?.map (PiBlock.harness R) = some block) :
    Assembling R content opened ((last.map fun _ => index).toList ++ ended)
      (assembler.edit index blockType change) where
  keys := by
    have hmem : index ∈ assembler.partials.keys := by
      rw [h.keys]
      exact mem_range.mpr hindex
    show (assembler.partials.set index _).keys = _
    rw [OrderedMap.keys, OrderedMap.entries_set_of_mem hmem, OrderedMap.map_fst_replaceEntry]
    exact h.keys
  ended_lt := by
    intro other hother
    rcases mem_append.mp hother with hnew | hold
    · cases last with
      | none => cases hnew
      | some block => rwa [mem_singleton.mp hnew]
    · exact h.ended_lt other hold
  holds := by
    intro other hother
    obtain ⟨found, hfound, hblock, hsome⟩ := h.holds other hother
    show ∃ after, (assembler.partials.set index _).get? other = some after ∧ _
    rw [OrderedMap.get?_set]
    by_cases heq : other = index
    · subst heq
      rw [if_pos rfl, ensure, hfound]
      refine ⟨_, rfl, ?_⟩
      cases hclosed : found.block with
      | some block =>
        simp only [Option.getD_some, hclosed, Option.isSome_some, if_true]
        exact ⟨hclosed ▸ hblock, fun _ => trivial⟩
      | none =>
        simp only [Option.getD_some, hclosed, Option.isSome_none, Bool.false_eq_true, if_false,
          hchange found hclosed]
        refine ⟨hlast, fun hended => ?_⟩
        cases last with
        | some block => rfl
        | none =>
          rw [hclosed] at hsome
          exact hsome hended
    · rw [if_neg heq]
      refine ⟨found, hfound, hblock, fun hended => hsome ?_⟩
      rcases mem_append.mp hended with hnew | hold
      · cases last with
        | none => cases hnew
        | some block => exact absurd (mem_singleton.mp hnew) heq
      · exact hold

theorem Assembling.delta (h : Assembling R content opened ended assembler) (hindex : index < opened)
    (blockType : String) {change : PartialBlock → PartialBlock}
    (hchange : ∀ found, (change found).block = found.block) :
    Assembling R content opened ended (assembler.edit index blockType change) :=
  h.edit hindex blockType (fun found hnone => (hchange found).trans hnone) fun _ hlast => nomatch hlast

theorem Assembling.finishBlock (h : Assembling R content opened ended assembler)
    (hindex : index < opened) {block : PiBlock} (hcontent : content[index]? = some block) :
    Assembling R content opened (index :: ended) (assembler.push (.blockEnd index (block.harness R))) := by
  have hlast : ∀ found ∈ some (block.harness R), content[index]?.map (PiBlock.harness R) = some found := by
    rw [hcontent]
    exact fun _ hfound => hfound
  have hchange : ∀ found : PartialBlock, found.block = none →
      ({ found with block := some (block.harness R) } : PartialBlock).block = some (block.harness R) :=
    fun _ _ => rfl
  exact h.edit hindex (blockTypeOf (block.harness R)) hchange hlast

theorem Assembling.step (h : Assembling R content opened ended assembler) {event : PiEvent}
    (hfits : event.Fits content opened) (toolIds : OrderedMap Nat (String × String)) :
    Assembling R content (opened + event.opens) (event.ends.toList ++ ended)
      ((translate R toolIds event).2.foldl push assembler) := by
  cases event with
  | start => exact h
  | textStart index =>
    cases hfits
    exact h.start "text"
  | thinkingStart index =>
    cases hfits
    exact h.start "reasoning"
  | toolcallStart index found =>
    cases hfits
    exact h.start "tool-call"
  | textDelta index delta =>
    simp only [translate, foldl_cons, foldl_nil, push]
    exact h.delta hfits "text" fun _ => rfl
  | thinkingDelta index delta =>
    simp only [translate, foldl_cons, foldl_nil, push]
    exact h.delta hfits "reasoning" fun _ => rfl
  | toolcallDelta index delta =>
    simp only [translate, foldl_cons, foldl_nil, push]
    exact h.delta hfits "tool-call" fun _ => rfl
  | textEnd index text =>
    obtain ⟨hindex, signature, hcontent⟩ := hfits
    exact h.finishBlock hindex hcontent
  | thinkingEnd index text =>
    obtain ⟨hindex, signature, redacted, hcontent⟩ := hfits
    exact h.finishBlock hindex hcontent
  | toolcallEnd index id name arguments =>
    obtain ⟨hindex, signature, hcontent⟩ := hfits
    exact h.finishBlock hindex hcontent
  | done message => exact hfits.elim
  | error failure => exact hfits.elim

theorem Assembling.run (E : PiErrors) (contextWindow : Option Nat) (callerAborted : Bool)
    (message : PiAssistant) {body : List PiEvent} (h : Assembling R content opened ended assembler)
    (hopens : OpensInOrder content opened body) (toolIds : OrderedMap Nat (String × String)) :
    ∃ chunks all, toStreamChunks R E contextWindow callerAborted toolIds (body ++ [.done message]) =
        (chunks ++ [.usage (mapUsage message.usage),
          .finish (mapStopReason E contextWindow message) (some (toPiReplayState message))], none) ∧
      Assembling R content content.length all (chunks.foldl push assembler) ∧
      ended ⊆ all ∧ ∀ event ∈ body, ∀ index ∈ event.ends, index ∈ all := by
  induction body generalizing opened ended assembler toolIds with
  | nil =>
    cases hopens
    exact ⟨[], ended, rfl, h, List.Subset.refl _, fun _ hevent => nomatch hevent⟩
  | cons event rest ih =>
    obtain ⟨hfits, hrest⟩ := hopens
    obtain ⟨chunks, all, hchunks, hassembling, hended, hall⟩ :=
      ih (h.step hfits toolIds) hrest (translate R toolIds event).1
    have hterminal : terminalChunks E contextWindow callerAborted event = none := by
      cases event with
      | done message => exact hfits.elim
      | error failure => exact hfits.elim
      | _ => rfl
    refine ⟨(translate R toolIds event).2 ++ chunks, all, ?_, ?_, ?_, ?_⟩
    · rw [cons_append, toStreamChunks, hterminal]
      dsimp only
      rw [hchunks, append_assoc]
    · rw [foldl_append]
      exact hassembling
    · exact fun index hindex => hended (mem_append_right _ hindex)
    · intro other hother index hindex
      rcases mem_cons.mp hother with rfl | hrest
      · exact hended (mem_append_left _ (Option.mem_toList.mpr hindex))
      · exact hall other hrest index hindex

theorem assembleAll_of_closed {entries : List (Nat × PartialBlock)} {blocks : List ContentBlock}
    (h : entries.map (fun entry => entry.2.block) = blocks.map some) :
    assembleAll entries = .ok blocks := by
  induction entries generalizing blocks with
  | nil =>
    cases blocks with
    | nil => rfl
    | cons block rest => cases h
  | cons entry rest ih =>
    cases blocks with
    | nil => cases h
    | cons block blocks =>
      obtain ⟨hblock, hrest⟩ := cons.inj h
      dsimp only at hblock
      rw [assembleAll, assemble, hblock, ih hrest]

theorem Assembling.assembleAll (h : Assembling R content content.length ended assembler)
    (hended : ∀ index < content.length, index ∈ ended) :
    assembleAll assembler.partials.entries = .ok (content.map (PiBlock.harness R)) := by
  apply assembleAll_of_closed
  apply ext_getElem?
  intro index
  have hkey : (assembler.partials.entries[index]?).map Prod.fst = (range content.length)[index]? := by
    rw [← getElem?_map, ← h.keys, OrderedMap.keys]
  rw [getElem?_map, getElem?_map, getElem?_map]
  by_cases hindex : index < content.length
  · rw [getElem?_range hindex] at hkey
    obtain ⟨⟨key, found⟩, hentry, hfst⟩ := Option.map_eq_some_iff.mp hkey
    cases hfst
    obtain ⟨held, hheld, hblock, hsome⟩ := h.holds key hindex
    have hfound : assembler.partials.get? key = some found :=
      OrderedMap.get?_eq_some.mpr (mem_of_getElem? hentry)
    obtain rfl : held = found := Option.some.inj (hheld.symm.trans hfound)
    obtain ⟨block, hclosed⟩ := Option.isSome_iff_exists.mp (hsome (hended key hindex))
    rw [hentry, hblock block hclosed, Option.map_some, hclosed]
    rfl
  · have hnone : (range content.length)[index]? = none :=
      getElem?_eq_none (by rw [length_range]; omega)
    rw [hnone, Option.map_eq_none_iff] at hkey
    rw [hkey, getElem?_eq_none (by omega)]
    rfl

/-- The blocks that the end of a response leaves. -/
def keptContent (truncated : Bool) (content : List PiBlock) : List PiBlock :=
  if truncated then content.filter fun block => !block.isToolCall else content

def keptEnvelope (message : PiAssistant) (kept : List PiBlock) : ReplayEnvelope :=
  ⟨replayResponse message, some (kept.map PiBlock.replayBlock)⟩

theorem isKept_harness (block : PiBlock) : isKept (block.harness R) = !block.isToolCall := by
  cases block <;> rfl

theorem keptEntries_map (content : List PiBlock) :
    keptEntries (content.map (PiBlock.harness R)) (content.map PiBlock.replayBlock) =
      (keptContent true content).map PiBlock.replayBlock := by
  induction content with
  | nil => rfl
  | cons block rest ih =>
    have hkept : isKept (block.harness R) = !block.isToolCall := isKept_harness block
    unfold keptEntries at ih ⊢
    simp only [map_cons, zip_cons_cons, filter_cons, hkept, keptContent, if_true] at ih ⊢
    cases block.isToolCall <;> simp [ih]

theorem assembled_response {message : PiAssistant}
    (hall : assembleAll assembler.partials.entries =
      .ok (message.content.map (PiBlock.harness R)))
    (henvelope : assembler.envelope = some (toPiReplayState message)) :
    assembler.assembled =
      .ok ((keptContent assembler.finish.isTruncated message.content).map (PiBlock.harness R),
        some (keptEnvelope message (keptContent assembler.finish.isTruncated message.content))) := by
  unfold keptEnvelope
  rw [assembled_of_envelope hall henvelope]
  cases assembler.finish.isTruncated with
  | false => simp [keptContent]
  | true =>
    have hfilter : (message.content.map (PiBlock.harness R)).filter isKept =
        (keptContent true message.content).map (PiBlock.harness R) := by
      rw [filter_map]
      exact congrArg _ (filter_congr fun block _ => isKept_harness block)
    have hlength : (message.content.map PiBlock.replayBlock).length =
        (message.content.map (PiBlock.harness R)).length := by
      rw [length_map, length_map]
    rw [if_neg (not_not.mpr hlength)]
    simp only [if_true, Bool.not_true, Bool.false_or, beq_iff_eq, hfilter, keptEntries_map]
    split
    case isTrue hsame =>
      have hkept := keptEntries_of_length hlength (hfilter ▸ hsame)
      rw [← hkept, keptEntries_map]
    case isFalse => rfl

end Assembly

section Replay

variable {R : PiRuntime} {message : PiAssistant} {kept : List PiBlock}

theorem checkReplayBlocks_map (content : List PiBlock) (index : Nat) :
    checkReplayBlocks R index (content.map PiBlock.replayBlock) = .ok () := by
  induction content generalizing index with
  | nil => rfl
  | cons block rest ih =>
    have hblock : checkReplayBlock R index block.replayBlock = .ok () := by
      cases block with
      | text text signature => cases signature <;> rfl
      | thinking thinking signature redacted => cases signature <;> cases redacted <;> rfl
      | toolCall id name arguments signature => cases signature <;> rfl
    rw [map_cons, checkReplayBlocks, hblock]
    exact ih (index + 1)

structure ResponseFields (message : PiAssistant) (response : Json) : Prop where
  kind : response.get? "kind" = some (.str "pi-ai")
  version : response.get? "version" = some (.ofNat 2)
  api : response.get? "api" = some (.str message.api)
  provider : response.get? "provider" = some (.str message.provider)
  model : response.get? "model" = some (.str message.model)
  responseModel : response.get? "responseModel" = message.responseModel.map .str
  responseId : response.get? "responseId" = message.responseId.map .str
  stopReason : response.get? "stopReason" = some (.str message.stopReason.name)

theorem responseFields (message : PiAssistant) : ResponseFields message (replayResponse message) := by
  unfold replayResponse
  constructor
  all_goals cases message.responseModel <;> cases message.responseId <;> rfl

theorem readReplayState_eq (hfilled : message.api ≠ "" ∧ message.provider ≠ "" ∧ message.model ≠ "")
    (hreason : message.stopReason ∈ replayReasons) :
    readReplayState R (keptEnvelope message kept).toJson =
      .ok ⟨replayResponse message, message.stopReason, kept.map PiBlock.replayBlock⟩ := by
  have hfields := responseFields message
  have hfind : replayReasons.find? (fun reason => reason.name == message.stopReason.name) =
      some message.stopReason := by
    revert hreason
    cases message.stopReason <;> decide
  have hoptional (value : Option String) : isOptionalString (value.map Json.str) = true := by
    cases value <;> rfl
  have hobject : isPlainObject (replayResponse message) = true := rfl
  have hresponse : (keptEnvelope message kept).toJson.get? "response" = some (replayResponse message) := rfl
  have hblocks : (keptEnvelope message kept).toJson.get? "blocks" =
      some (.arr (kept.map PiBlock.replayBlock)) := rfl
  have henvelope : isPlainObject (keptEnvelope message kept).toJson = true := rfl
  have hversion : Number.strictEq (.ofNat 2) (.ofNat 2) = true := by decide
  obtain ⟨hapi, hprovider, hmodel⟩ := hfilled
  simp [readReplayState, check, henvelope, hresponse, hblocks, hobject, hfields.kind, hfields.version,
    hfields.api, hfields.provider, hfields.model, hfields.responseModel, hfields.responseId,
    hfields.stopReason, isNonEmptyText, Json.asString, Json.ofNat, Json.asNumber, Json.asArray, stringOf,
    hversion, hapi, hprovider, hmodel, hfind, hoptional, checkReplayBlocks_map, bind, Except.bind, pure,
    Except.pure]

mutual

/-- What JSON text carries of a value: it has no `-0`, and nothing but finite numbers. -/
def carried : Json → Json
  | .num value => if value.isLossless then .num value else if value = .integral .negZero then .ofNat 0 else .null
  | .arr items => .arr (carriedItems items)
  | .obj fields => .obj (carriedFields fields)
  | value => value

def carriedItems : List Json → List Json
  | [] => []
  | item :: rest => carried item :: carriedItems rest

def carriedFields : List (String × Json) → List (String × Json)
  | [] => []
  | (key, value) :: rest => (key, carried value) :: carriedFields rest

end

/-- `JSON.parse(JSON.stringify(value))` -/
def PiRuntime.Carries (R : PiRuntime) (value : Json) : Prop :=
  R.parse (R.stringify value) = some (carried value)

/-- The native block as its JSON text gives it back. -/
def PiBlock.restored : PiBlock → PiBlock
  | .toolCall id name arguments signature => .toolCall id name (carriedFields arguments) signature
  | block => block

def PiBlock.ArgumentsCarried (R : PiRuntime) : PiBlock → Prop
  | .toolCall _ _ arguments _ => R.Carries (.obj arguments)
  | _ => True

theorem replayedBlock_eq {block : PiBlock} (h : block.ArgumentsCarried R) (index : Nat) :
    replayedBlock R index (block.harness R) block.replayBlock = .ok block.restored := by
  cases block with
  | text text signature => cases signature <;> rfl
  | thinking thinking signature redacted => cases signature <;> cases redacted <;> rfl
  | toolCall id name arguments signature =>
    have harguments : parseArguments R (R.stringify (.obj arguments)) = carriedFields arguments := by
      unfold parseArguments
      rw [show R.parse (R.stringify (.obj arguments)) = _ from h]
      rfl
    show _ = Except.ok (PiBlock.toolCall id name (carriedFields arguments) signature)
    rw [← harguments]
    cases signature <;> rfl

theorem replayedContent_eq (h : ∀ block ∈ kept, block.ArgumentsCarried R) (index : Nat) :
    replayedContent R index (kept.map (PiBlock.harness R)) (kept.map PiBlock.replayBlock) =
      .ok (kept.map PiBlock.restored) := by
  induction kept generalizing index with
  | nil => rfl
  | cons block rest ih =>
    obtain ⟨hblock, hrest⟩ := forall_mem_cons.mp h
    rw [map_cons, map_cons, replayedContent, replayedBlock_eq hblock, ih hrest]
    rfl

/-- The native message of a later request: its usage and its time are not kept. -/
def PiAssistant.replayed (message : PiAssistant) (kept : List PiBlock) : PiAssistant where
  content := kept.map PiBlock.restored
  api := message.api
  provider := message.provider
  model := message.model
  responseModel := message.responseModel
  responseId := message.responseId
  stopReason := message.stopReason

theorem replayedAssistant_eq (hfilled : message.api ≠ "" ∧ message.provider ≠ "" ∧ message.model ≠ "")
    (hreason : message.stopReason ∈ replayReasons) (h : ∀ block ∈ kept, block.ArgumentsCarried R)
    (replayState : Option Json) :
    replayedAssistant R (kept.map (PiBlock.harness R)) ⟨message.provider, message.model, replayState⟩
      (keptEnvelope message kept).toJson = .ok (message.replayed kept) := by
  have hfields := responseFields message
  have htext (value : Option String) : (value.map Json.str).bind Json.asString = value := by
    cases value <;> rfl
  unfold replayedAssistant
  rw [readReplayState_eq hfilled hreason]
  simp [check, textField, hfields.api, hfields.provider, hfields.model, hfields.responseModel,
    hfields.responseId, Json.asString, htext, replayedContent_eq h, bind, Except.bind, pure, Except.pure,
    PiAssistant.replayed]

def storedAssistant (id provider model : String) (content : List ContentBlock)
    (replay : Option ReplayEnvelope) : AssistantMessage :=
  ⟨id, content, ⟨provider, model, replay.map ReplayEnvelope.toJson⟩⟩

theorem carried_stored (id provider model : String) :
    carried (storedAssistant id provider model (kept.map (PiBlock.harness R))
      (some (keptEnvelope message kept))).toJson =
      (storedAssistant id provider model (kept.map (PiBlock.harness R))
        (some (keptEnvelope message kept))).toJson := by
  have hcontent (kept : List PiBlock) : carriedItems (contentToJson (kept.map (PiBlock.harness R))) =
      contentToJson (kept.map (PiBlock.harness R)) := by
    induction kept with
    | nil => rfl
    | cons block rest ih =>
      rw [map_cons, contentToJson, carriedItems, ih]
      cases block <;> rfl
  have hblocks (kept : List PiBlock) :
      carriedItems (kept.map PiBlock.replayBlock) = kept.map PiBlock.replayBlock := by
    induction kept with
    | nil => rfl
    | cons block rest ih =>
      rw [map_cons, carriedItems, ih]
      cases block with
      | text text signature => cases signature <;> rfl
      | thinking thinking signature redacted => cases signature <;> cases redacted <;> rfl
      | toolCall id name arguments signature => cases signature <;> rfl
  have hresponse : carried (replayResponse message) = replayResponse message := by
    unfold replayResponse
    cases message.responseModel <;> cases message.responseId <;> rfl
  simp [storedAssistant, AssistantMessage.toJson, messageToJson, carried, carriedFields, hcontent,
    ModelMessageSource.toJson, Session.optional, ReplayEnvelope.toJson, keptEnvelope, hresponse, hblocks]

theorem eq_of_contentToJson {blocks : List ContentBlock}
    (h : contentToJson blocks = contentToJson (kept.map (PiBlock.harness R))) :
    blocks = kept.map (PiBlock.harness R) := by
  induction kept generalizing blocks with
  | nil =>
    cases blocks with
    | nil => rfl
    | cons block rest => cases h
  | cons native rest ih =>
    cases blocks with
    | nil => cases h
    | cons block blocks =>
      obtain ⟨hblock, hrest⟩ := cons.inj h
      rw [ih hrest, map_cons]
      cases native <;> cases block <;> simp_all [ContentBlock.toJson, PiBlock.harness]

theorem loaded_eq {id provider model : String} {loaded : AssistantMessage}
    (hcarries : R.Carries (storedAssistant id provider model (kept.map (PiBlock.harness R))
      (some (keptEnvelope message kept))).toJson)
    (hloaded : R.parse (R.stringify (storedAssistant id provider model
      (kept.map (PiBlock.harness R)) (some (keptEnvelope message kept))).toJson) = some loaded.toJson) :
    loaded = storedAssistant id provider model (kept.map (PiBlock.harness R))
      (some (keptEnvelope message kept)) := by
  have hjson := Option.some.inj (hloaded.symm.trans (hcarries.trans (congrArg some (carried_stored id provider model))))
  obtain ⟨loadedId, content, source, loadedModel, replayState⟩ := loaded
  simp only [storedAssistant, AssistantMessage.toJson, messageToJson, ModelMessageSource.toJson,
    Json.obj.injEq, cons.injEq, Prod.mk.injEq, Json.str.injEq, Json.arr.injEq, true_and, and_true,
    cons_append, nil_append] at hjson
  obtain ⟨hid, hcontent, hprovider, hmodel, hreplay⟩ := hjson
  rw [storedAssistant, hid, hprovider, hmodel, eq_of_contentToJson hcontent]
  cases replayState with
  | none => cases hreplay
  | some state =>
    obtain ⟨hstate, -⟩ := cons.inj hreplay
    rw [(Prod.mk.inj hstate).2]
    rfl

theorem mem_replayReasons {E : PiErrors} {contextWindow : Option Nat}
    (h : (mapStopReason E contextWindow message).isBroken = false) :
    message.stopReason ∈ replayReasons ∧
      (mapStopReason E contextWindow message).isTruncated = (message.stopReason == .length) := by
  unfold mapStopReason at h ⊢
  dsimp only at h ⊢
  split at h
  · cases h
  · rename_i hoverflow
    rw [if_neg hoverflow]
    cases hreason : message.stopReason with
    | stop =>
      rw [hreason] at h
      dsimp only at h ⊢
      split at h
      · cases h
      · rename_i hcontent
        rw [if_neg hcontent]
        exact ⟨by decide, rfl⟩
    | length => exact ⟨by decide, rfl⟩
    | toolUse => exact ⟨by decide, rfl⟩
    | error | aborted | pending | deferred =>
      rw [hreason] at h
      cases h

/-- A response that ends well, streamed, assembled, stored as JSON under its provider and model and
read back, is replayed without degrading. -/
theorem replay_round_trips (R : PiRuntime) (E : PiErrors) (contextWindow : Option Nat)
    (callerAborted : Bool) {body : List PiEvent} {message : PiAssistant}
    (hstream : Streams message.content body)
    (hfilled : message.api ≠ "" ∧ message.provider ≠ "" ∧ message.model ≠ "")
    (harguments : ∀ block ∈ message.content, block.ArgumentsCarried R)
    (hfinish : (mapStopReason E contextWindow message).isBroken = false) :
    ∃ chunks content replay,
      toStreamChunks R E contextWindow callerAborted .empty (body ++ [.done message]) = (chunks, none) ∧
      (pushAll chunks).finish = mapStopReason E contextWindow message ∧
      (pushAll chunks).assembled = .ok (content, replay) ∧
      ∀ (id : String) (loaded : AssistantMessage),
        R.Carries (storedAssistant id message.provider message.model content replay).toJson →
        R.parse (R.stringify (storedAssistant id message.provider message.model content replay).toJson) =
          some loaded.toJson →
        toPiAssistant R ⟨.assistant, .model loaded.source, loaded.content⟩ =
          .ok (message.replayed (keptContent (message.stopReason == .length) message.content), none) := by
  obtain ⟨hreason, htruncated⟩ := mem_replayReasons hfinish
  obtain ⟨chunks, all, hchunks, hassembling, -, hended⟩ := (@assembling_empty R message.content).run E
    contextWindow callerAborted message hstream.opens .empty
  have hall := hassembling.assembleAll fun index hindex => by
    obtain ⟨event, hevent, hends⟩ := hstream.closes index hindex
    exact hended event hevent index hends
  have hpushed : pushAll (chunks ++ [.usage (mapUsage message.usage),
      .finish (mapStopReason E contextWindow message) (some (toPiReplayState message))]) =
      ((chunks.foldl push {}).push (.usage (mapUsage message.usage))).push
        (.finish (mapStopReason E contextWindow message) (some (toPiReplayState message))) := by
    rw [pushAll, foldl_append]
    rfl
  refine ⟨_, (keptContent (message.stopReason == .length) message.content).map (PiBlock.harness R),
    some (keptEnvelope message (keptContent (message.stopReason == .length) message.content)),
    hchunks, ?_, ?_, ?_⟩
  · rw [hpushed]
    rfl
  · rw [hpushed, ← htruncated]
    exact assembled_response hall rfl
  · intro id loaded hcarries hloaded
    obtain rfl := loaded_eq hcarries hloaded
    have hkept : ∀ block ∈ keptContent (message.stopReason == .length) message.content,
        block.ArgumentsCarried R := by
      intro block hblock
      unfold keptContent at hblock
      split at hblock
      · exact harguments block (mem_filter.mp hblock).1
      · exact harguments block hblock
    unfold toPiAssistant storedAssistant
    dsimp only [Option.map_some]
    rw [replayedAssistant_eq hfilled hreason hkept]

/-- The response with one call, whose argument is `-0`. -/
def callMessage : PiAssistant where
  content := [.toolCall "c" "n" [("x", .num (.integral .negZero))] none]
  api := "a"
  provider := "p"
  model := "m"
  stopReason := .toolUse

def callBody : List PiEvent :=
  [.start, .toolcallStart 0 [], .toolcallDelta 0 "\x7b\"x\":-0\x7d",
    .toolcallEnd 0 "c" "n" [("x", .num (.integral .negZero))]]

def callContent : List ContentBlock := [.toolCall "c" "n" "\x7b\"x\":0\x7d"]

def callStored : AssistantMessage :=
  storedAssistant "i" "p" "m" callContent (some (keptEnvelope callMessage callMessage.content))

def callText : String :=
  "\x7b\"id\":\"i\",\"role\":\"assistant\",\"content\":[\x7b\"type\":\"tool-call\",\"id\"" ++
    ":\"c\",\"name\":\"n\",\"arguments\":\"\x7b\\\"x\\\":0\x7d\"\x7d],\"source\":\x7b\"kind" ++
    "\":\"model\",\"provider\":\"p\",\"model\":\"m\",\"replayState\":\x7b\"response\":\x7b" ++
    "\"kind\":\"pi-ai\",\"version\":2,\"api\":\"a\",\"provider\":\"p\",\"model\":\"m\",\"st" ++
    "opReason\":\"toolUse\"\x7d,\"blocks\":[\x7b\"type\":\"tool-call\"\x7d]\x7d\x7d\x7d"

/-- JSON text, as far as the call and its stored message need it. -/
def callRuntime : PiRuntime where
  stringify value := match value with
    | .obj [_] => "\x7b\"x\":0\x7d"
    | _ => callText
  parse text :=
    if text = "\x7b\"x\":0\x7d" then some (.obj [("x", .ofNat 0)])
    else if text = callText then some callStored.toJson else none
  string _ := ""

def noErrors : PiErrors where
  isContextOverflow _ _ := false
  isContextWindowExceededError _ := false
  classifyPiAiError _ := "PI_AI_ERROR"

theorem streams_call : Streams callMessage.content callBody where
  opens := ⟨trivial, rfl, Nat.zero_lt_one, ⟨Nat.zero_lt_one, none, rfl⟩, rfl⟩
  closes := by
    intro index hindex
    obtain rfl : index = 0 := Nat.lt_one_iff.mp hindex
    exact ⟨_, mem_of_getElem? (i := 3) rfl, rfl⟩

set_option maxRecDepth 8000 in
theorem callText_ne : callText ≠ "\x7b\"x\":0\x7d" := by decide

theorem parse_callText : callRuntime.parse callText = some callStored.toJson := by
  simp only [callRuntime, if_neg callText_ne, if_true]

/-- The text of `-0` is `0`: such an argument is not given back. -/
theorem negative_zero_lost : ∃ chunks assistant,
    toStreamChunks callRuntime noErrors none false .empty (callBody ++ [.done callMessage]) = (chunks, none) ∧
    (pushAll chunks).assembled =
      .ok (callContent, some (keptEnvelope callMessage callMessage.content)) ∧
    callRuntime.parse (callRuntime.stringify callStored.toJson) = some callStored.toJson ∧
    toPiAssistant callRuntime ⟨.assistant, .model callStored.source, callStored.content⟩ =
      .ok (assistant, none) ∧ assistant.content ≠ callMessage.content := by
  refine ⟨_, _, rfl, rfl, parse_callText, rfl, ?_⟩
  intro h
  cases h

theorem replay_round_trips_call :
    toPiAssistant callRuntime ⟨.assistant, .model callStored.source, callStored.content⟩ =
      .ok (callMessage.replayed callMessage.content, none) := by
  have harguments : ∀ block ∈ callMessage.content, block.ArgumentsCarried callRuntime := by
    intro block hblock
    rw [mem_singleton.mp hblock]
    show callRuntime.parse "\x7b\"x\":0\x7d" = some (.obj [("x", .ofNat 0)])
    simp only [callRuntime, if_true]
  obtain ⟨chunks, content, replay, hchunks, -, hassembled, hback⟩ := replay_round_trips callRuntime noErrors
    none false streams_call ⟨by decide, by decide, by decide⟩ harguments rfl
  cases hchunks
  cases hassembled
  exact hback "i" callStored parse_callText parse_callText

end Replay

end DshKernel.Llm
