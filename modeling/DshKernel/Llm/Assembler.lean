import DshKernel.Lib.OrderedMap
import DshKernel.Session.Event

/-!
# The block assembler

The assembly of an assistant message from the chunks of a model stream.
-/

namespace DshKernel.Llm

open Js Lib Session

/-- `FinishReasonMap`, with the reasons that adapters merge into it as `extension`. -/
inductive FinishReason where
  | stop
  | toolCalls
  | maxTokens
  | aborted (failure : Json)
  | error (failure : Json)
  | extension (kind : String)

structure ReplayEnvelope where
  response : Json
  blocks : Option (List Json) := none

def ReplayEnvelope.toJson (envelope : ReplayEnvelope) : Json :=
  .obj (("response", envelope.response) :: Session.optional "blocks" (envelope.blocks.map .arr))

inductive StreamChunk where
  | blockStart (index : Nat) (blockType : String)
  | textDelta (index : Nat) (text : String)
  | reasoningDelta (index : Nat) (text : String)
  | toolCallDelta (index : Nat) (id : String) (name : Option String) (argumentsDelta : String)
  | blockEnd (index : Nat) (block : ContentBlock)
  | usage (usage : TokenUsage)
  | finish (reason : FinishReason) (replayState : Option ReplayEnvelope)

/-- `ToolCallBlock` -/
structure ToolCallBlock where
  id : String
  name : String
  arguments : String
  deriving DecidableEq, Repr

def blockTypeOf : ContentBlock → String
  | .text _ => "text"
  | .reasoning _ => "reasoning"
  | .image _ => "image"
  | .toolCall _ _ _ => "tool-call"
  | .toolResult _ _ _ => "tool-result"

def asToolCall : ContentBlock → Option ToolCallBlock
  | .toolCall id name arguments => some ⟨id, name, arguments⟩
  | .text _ => none
  | .reasoning _ => none
  | .image _ => none
  | .toolResult _ _ _ => none

/-- `content.filter(block => block.type === 'tool-call')` -/
def toolCallsOf (content : List ContentBlock) : List ToolCallBlock := content.filterMap asToolCall

/-- The white space and the line terminators that `trim` removes. -/
def isWhiteSpace (char : Char) : Bool :=
  let code := char.toNat
  (9 ≤ code && code ≤ 13) || code == 0x20 || code == 0xA0 || code == 0x1680 ||
    (0x2000 ≤ code && code ≤ 0x200A) || code == 0x2028 || code == 0x2029 || code == 0x202F ||
    code == 0x205F || code == 0x3000 || code == 0xFEFF

/-- `text.trim() === ''` -/
def isBlank (text : String) : Bool := text.toList.all isWhiteSpace

structure PartialBlock where
  blockType : String
  text : String := ""
  toolCallId : Option String := none
  toolCallName : Option String := none
  toolCallArguments : String := ""
  block : Option ContentBlock := none

/-- `order` is the key order of `partials`. -/
structure BlockAssembler where
  partials : OrderedMap Nat PartialBlock := .empty
  usage : Option TokenUsage := none
  finishReason : Option FinishReason := none
  envelope : Option ReplayEnvelope := none

namespace BlockAssembler

def ensure (assembler : BlockAssembler) (index : Nat) (blockType : String) : PartialBlock :=
  (assembler.partials.get? index).getD { blockType }

/-- The change of an open partial; stragglers of a closed one only make sure that it is there. -/
def edit (assembler : BlockAssembler) (index : Nat) (blockType : String)
    (change : PartialBlock → PartialBlock) : BlockAssembler :=
  let found := assembler.ensure index blockType
  { assembler with
    partials := assembler.partials.set index (if found.block.isSome then found else change found) }

def push (assembler : BlockAssembler) : StreamChunk → BlockAssembler
  | .blockStart index blockType =>
    { assembler with partials := assembler.partials.set index (assembler.ensure index blockType) }
  | .textDelta index text =>
    assembler.edit index "text" fun found => { found with text := found.text ++ text }
  | .reasoningDelta index text =>
    assembler.edit index "reasoning" fun found => { found with text := found.text ++ text }
  | .toolCallDelta index id name argumentsDelta =>
    assembler.edit index "tool-call" fun found =>
      { found with
        toolCallId := some id
        toolCallName := if name.any (· ≠ "") then name else found.toolCallName
        toolCallArguments := found.toolCallArguments ++ argumentsDelta }
  | .blockEnd index block =>
    assembler.edit index (blockTypeOf block) fun found => { found with block := some block }
  | .usage usage => { assembler with usage := some usage }
  | .finish reason replayState => { assembler with finishReason := some reason, envelope := replayState }

def assemble (found : PartialBlock) (index : Nat) : Except String ContentBlock :=
  match found.block with
  | some block => .ok block
  | none =>
    if found.blockType = "text" then .ok (.text found.text)
    else if found.blockType = "reasoning" then .ok (.reasoning found.text)
    else if found.blockType = "tool-call" then
      .ok (.toolCall (found.toolCallId.getD s!"call-{index}") (found.toolCallName.getD "")
        found.toolCallArguments)
    else .error s!"cannot assemble incomplete block of type \"{found.blockType}\""

/-- `finish`: a stream that ends without a reason has stopped. -/
def finish (assembler : BlockAssembler) : FinishReason := assembler.finishReason.getD .stop

def assembleAll : List (Nat × PartialBlock) → Except String (List ContentBlock)
  | [] => .ok []
  | (index, found) :: rest =>
    match assemble found index with
    | .error message => .error message
    | .ok block =>
      match assembleAll rest with
      | .error message => .error message
      | .ok blocks => .ok (block :: blocks)

def isKept (block : ContentBlock) : Bool := (asToolCall block).isNone

def keptEntries (all : List ContentBlock) (entries : List Json) : List Json :=
  ((all.zip entries).filter fun pair => isKept pair.1).map Prod.snd

def assembled (assembler : BlockAssembler) :
    Except String (List ContentBlock × Option ReplayEnvelope) :=
  match assembleAll assembler.partials.entries with
  | .error message => .error message
  | .ok all =>
    let truncated := match assembler.finish with
      | .maxTokens => true
      | _ => false
    let blocks := if truncated then all.filter isKept else all
    match assembler.envelope with
    | none => .ok (blocks, none)
    | some envelope =>
      match envelope.blocks with
      | none => .ok (blocks, some envelope)
      | some entries =>
        if entries.length ≠ all.length then .ok (blocks, none)
        else if !truncated || blocks.length == all.length then .ok (blocks, some envelope)
        else .ok (blocks, some { envelope with blocks := some (keptEntries all entries) })

def interruptedBlocks (assembler : BlockAssembler) : List ContentBlock :=
  assembler.partials.entries.filterMap fun (index, found) =>
    let type := (found.block.map blockTypeOf).getD found.blockType
    if type ≠ "text" && type ≠ "reasoning" then none
    else
      match assemble found index with
      | .ok (.text text) => if isBlank text then none else some (.text text)
      | .ok (.reasoning text) => if isBlank text then none else some (.reasoning text)
      | _ => none

end BlockAssembler

theorem toolCallsOf_interruptedBlocks (assembler : BlockAssembler) :
    toolCallsOf assembler.interruptedBlocks = [] := by
  apply List.filterMap_eq_nil_iff.mpr
  intro block hblock
  obtain ⟨⟨index, found⟩, -, hfound⟩ := List.mem_filterMap.mp hblock
  dsimp only at hfound
  split at hfound
  · cases hfound
  · cases hassembled : BlockAssembler.assemble found index with
    | error message => simp [hassembled] at hfound
    | ok result =>
      cases result <;> simp only [hassembled] at hfound
      case text text =>
        split at hfound <;> cases hfound
        rfl
      case reasoning text =>
        split at hfound <;> cases hfound
        rfl
      all_goals cases hfound

theorem toolCallsOf_assembled {assembler : BlockAssembler} {blocks : List ContentBlock}
    {replay : Option ReplayEnvelope} (h : assembler.assembled = .ok (blocks, replay))
    (hfinish : assembler.finish = .maxTokens) : toolCallsOf blocks = [] := by
  unfold BlockAssembler.assembled at h
  cases hall : BlockAssembler.assembleAll assembler.partials.entries with
  | error message => simp [hall] at h
  | ok all =>
    simp only [hall, hfinish, if_true] at h
    have hblocks : blocks = all.filter BlockAssembler.isKept := by
      cases henvelope : assembler.envelope with
      | none =>
        simp only [henvelope, Except.ok.injEq, Prod.mk.injEq] at h
        exact h.1.symm
      | some envelope =>
        cases hentries : envelope.blocks with
        | none =>
          simp only [henvelope, hentries, Except.ok.injEq, Prod.mk.injEq] at h
          exact h.1.symm
        | some entries =>
          simp only [henvelope, hentries] at h
          split at h
          · simp only [Except.ok.injEq, Prod.mk.injEq] at h
            exact h.1.symm
          · split at h <;> simp only [Except.ok.injEq, Prod.mk.injEq] at h <;> exact h.1.symm
    rw [hblocks]
    apply List.filterMap_eq_nil_iff.mpr
    intro block hblock
    have hkept := (List.mem_filter.mp hblock).2
    exact Option.isNone_iff_eq_none.mp hkept

end DshKernel.Llm
