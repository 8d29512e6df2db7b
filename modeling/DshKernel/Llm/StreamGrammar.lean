import DshKernel.Llm.Assembler
import Mathlib.Data.List.Induction
import Mathlib.Tactic.ByContra

/-!
# The grammar of model streams

The validator of a stream accepts starts, deltas and ends of blocks under any indices. The
assembler holds what was streamed first under each index, in the order of the starts.
-/

namespace DshKernel.Llm

open Js Lib Session BlockAssembler List OrderedMap

/-- The variables of `validateStream`. -/
structure StreamState where
  openBlocks : OrderedMap Nat String := .empty
  usageSeen : Bool := false
  finished : Bool := false

def chunkType : StreamChunk → String
  | .blockStart _ _ => "block-start"
  | .textDelta _ _ => "text-delta"
  | .reasoningDelta _ _ => "reasoning-delta"
  | .toolCallDelta _ _ _ _ => "tool-call-delta"
  | .blockEnd _ _ => "block-end"
  | .usage _ => "usage"
  | .finish _ _ => "finish"

def validateIndex (index : Nat) : Except String Unit :=
  if index ≤ maxSafeInteger then .ok ()
  else .error s!"LLM stream block index must be a non-negative safe integer, got {index}"

def validateDelta (state : StreamState) (index : Nat) (expected : String) : Except String Unit := do
  validateIndex index
  let actual := state.openBlocks.get? index
  if actual = some expected then .ok ()
  else .error (s!"{expected} delta at index {index} requires an open {expected} block, got "
    ++ actual.getD "undefined")

def FinishReason.isBroken : FinishReason → Bool
  | .error _ => true
  | .aborted _ => true
  | _ => false

/-- What `validateStream` does with a chunk. -/
def StreamState.validate (state : StreamState) (chunk : StreamChunk) : Except String StreamState :=
  if state.finished then .error s!"LLM stream emitted {chunkType chunk} after terminal finish"
  else
    match chunk with
    | .blockStart index blockType => do
      validateIndex index
      if (state.openBlocks.get? index).isSome then
        .error s!"LLM stream repeated block-start index {index}"
      else .ok { state with openBlocks := state.openBlocks.set index blockType }
    | .textDelta index _ => do
      validateDelta state index "text"
      .ok state
    | .reasoningDelta index _ => do
      validateDelta state index "reasoning"
      .ok state
    | .toolCallDelta index _ _ _ => do
      validateDelta state index "tool-call"
      .ok state
    | .blockEnd index block => do
      validateIndex index
      match state.openBlocks.get? index with
      | none => .error s!"LLM stream block-end index {index} has no open block"
      | some blockType =>
        if blockTypeOf block ≠ blockType then
          .error s!"LLM stream block-end index {index} closes {blockTypeOf block}, expected {blockType}"
        else .ok { state with openBlocks := state.openBlocks.delete index }
    | .usage _ =>
      if state.usageSeen then .error "LLM stream emitted usage more than once"
      else .ok { state with usageSeen := true }
    | .finish reason _ =>
      if 0 < state.openBlocks.entries.length ∧ reason.isBroken = false then
        .error s!"LLM stream finished with {state.openBlocks.entries.length} open block(s)"
      else .ok { state with finished := true }

def validateStream (chunks : List StreamChunk) : Except String Unit := do
  let state ← chunks.foldlM StreamState.validate {}
  if state.finished then .ok () else .error "LLM stream ended without a terminal finish chunk"

namespace BlockAssembler

def pushAll (chunks : List StreamChunk) : BlockAssembler := chunks.foldl push {}

/-- `blocks()` -/
def blocks (assembler : BlockAssembler) : Except String (List ContentBlock) :=
  assembler.assembled.map Prod.fst

end BlockAssembler

structure StreamedBlock where
  index : Nat
  blockType : String
  deltas : List StreamChunk := []
  closed : Option ContentBlock := none

def textOf : StreamChunk → Option String
  | .textDelta _ text => some text
  | .reasoningDelta _ text => some text
  | _ => none

def callIdOf : StreamChunk → Option String
  | .toolCallDelta _ id _ _ => some id
  | _ => none

def callNameOf : StreamChunk → Option String
  | .toolCallDelta _ _ name _ => name.filter (· ≠ "")
  | _ => none

def callArgumentsOf : StreamChunk → Option String
  | .toolCallDelta _ _ _ argumentsDelta => some argumentsDelta
  | _ => none

namespace StreamedBlock

def isOpenAt (index : Nat) (block : StreamedBlock) : Bool :=
  block.closed.isNone && block.index == index

def receive (index : Nat) (delta : StreamChunk) (block : StreamedBlock) : StreamedBlock :=
  if block.isOpenAt index then { block with deltas := block.deltas ++ [delta] } else block

def close (index : Nat) (content : ContentBlock) (block : StreamedBlock) : StreamedBlock :=
  if block.isOpenAt index then { block with closed := some content } else block

def content (block : StreamedBlock) : Except String ContentBlock :=
  match block.closed with
  | some content => .ok content
  | none =>
    let text := String.join (block.deltas.filterMap textOf)
    if block.blockType = "text" then .ok (.text text)
    else if block.blockType = "reasoning" then .ok (.reasoning text)
    else if block.blockType = "tool-call" then
      .ok (.toolCall ((block.deltas.filterMap callIdOf).getLast?.getD s!"call-{block.index}")
        ((block.deltas.filterMap callNameOf).getLast?.getD "")
        (String.join (block.deltas.filterMap callArgumentsOf)))
    else .error s!"cannot assemble incomplete block of type \"{block.blockType}\""

end StreamedBlock

def feedStream (blocks : List StreamedBlock) : StreamChunk → List StreamedBlock
  | .blockStart index blockType => blocks ++ [{ index, blockType }]
  | .textDelta index text => blocks.map (.receive index (.textDelta index text))
  | .reasoningDelta index text => blocks.map (.receive index (.reasoningDelta index text))
  | .toolCallDelta index id name argumentsDelta =>
    blocks.map (.receive index (.toolCallDelta index id name argumentsDelta))
  | .blockEnd index content => blocks.map (.close index content)
  | .usage _ => blocks
  | .finish _ _ => blocks

def streamedBlocks (chunks : List StreamChunk) : List StreamedBlock := chunks.foldl feedStream []

def firstBlocks (blocks : List StreamedBlock) : List StreamedBlock :=
  blocks.foldl (fun kept block =>
    if block.index ∈ kept.map StreamedBlock.index then kept else kept ++ [block]) []

def contents : List StreamedBlock → Except String (List ContentBlock)
  | [] => .ok []
  | block :: rest => do
    let content ← block.content
    let rest ← contents rest
    .ok (content :: rest)

section Steps

def deltaOf : StreamChunk → Option (Nat × String)
  | .textDelta index _ => some (index, "text")
  | .reasoningDelta index _ => some (index, "reasoning")
  | .toolCallDelta index _ _ _ => some (index, "tool-call")
  | _ => none

inductive StreamStep (state : StreamState) : StreamChunk → StreamState → Prop where
  | start {index : Nat} {blockType : String} : state.openBlocks.get? index = none →
      StreamStep state (.blockStart index blockType)
        { state with openBlocks := state.openBlocks.set index blockType }
  | delta {chunk : StreamChunk} {index : Nat} {blockType : String} :
      deltaOf chunk = some (index, blockType) → state.openBlocks.get? index = some blockType →
      StreamStep state chunk state
  | finishBlock {index : Nat} {block : ContentBlock} :
      state.openBlocks.get? index = some (blockTypeOf block) →
      StreamStep state (.blockEnd index block)
        { state with openBlocks := state.openBlocks.delete index }
  | usage {usage : TokenUsage} : state.usageSeen = false →
      StreamStep state (.usage usage) { state with usageSeen := true }
  | finish {reason : FinishReason} {replayState : Option ReplayEnvelope} :
      (reason.isBroken = false → state.openBlocks.entries = []) →
      StreamStep state (.finish reason replayState) { state with finished := true }

variable {state next : StreamState} {chunk : StreamChunk} {index : Nat} {expected : String}

theorem get?_of_validateDelta (h : validateDelta state index expected = .ok ()) :
    state.openBlocks.get? index = some expected := by
  unfold validateDelta at h
  cases hindex : validateIndex index with
  | error message =>
    rw [hindex] at h
    cases h
  | ok value =>
    rw [hindex] at h
    by_contra hne
    simp [hne, bind, Except.bind] at h

theorem eq_of_bind_ok {check : Except String Unit}
    (h : (do check; .ok state : Except String StreamState) = .ok next) : check = .ok () ∧ next = state := by
  cases check with
  | error message => cases h
  | ok value =>
    cases h
    exact ⟨rfl, rfl⟩

theorem streamStep_of_validate (h : state.validate chunk = .ok next) :
    state.finished = false ∧ StreamStep state chunk next := by
  unfold StreamState.validate at h
  by_cases hfinished : state.finished = true
  · rw [if_pos hfinished] at h
    cases h
  · rw [if_neg hfinished] at h
    refine ⟨eq_false_of_ne_true hfinished, ?_⟩
    cases chunk with
    | blockStart index blockType =>
      dsimp only at h
      cases hindex : validateIndex index with
      | error message =>
        rw [hindex] at h
        cases h
      | ok value =>
        rw [hindex] at h
        cases hopen : state.openBlocks.get? index with
        | some found => simp [hopen, bind, Except.bind] at h
        | none =>
          rw [hopen] at h
          cases h
          exact .start hopen
    | textDelta index text =>
      obtain ⟨hdelta, rfl⟩ := eq_of_bind_ok h
      exact .delta rfl (get?_of_validateDelta hdelta)
    | reasoningDelta index text =>
      obtain ⟨hdelta, rfl⟩ := eq_of_bind_ok h
      exact .delta rfl (get?_of_validateDelta hdelta)
    | toolCallDelta index id name argumentsDelta =>
      obtain ⟨hdelta, rfl⟩ := eq_of_bind_ok h
      exact .delta rfl (get?_of_validateDelta hdelta)
    | blockEnd index block =>
      dsimp only at h
      cases hindex : validateIndex index with
      | error message =>
        rw [hindex] at h
        cases h
      | ok value =>
        rw [hindex] at h
        cases hopen : state.openBlocks.get? index with
        | none => simp [hopen, bind, Except.bind] at h
        | some found =>
          by_cases htype : blockTypeOf block = found
          · simp only [hopen, bind, Except.bind, htype, ne_eq, not_true, if_false] at h
            cases h
            exact .finishBlock (htype ▸ hopen)
          · simp [hopen, htype, bind, Except.bind] at h
    | usage usage =>
      dsimp only at h
      split at h
      · cases h
      · rename_i hseen
        cases h
        exact .usage (eq_false_of_ne_true hseen)
    | finish reason replayState =>
      dsimp only at h
      split at h
      · cases h
      · rename_i hopen
        cases h
        refine .finish fun hreason => ?_
        by_contra hne
        exact hopen ⟨length_pos_iff.mpr hne, hreason⟩

end Steps

section Blocks

variable {blocks : List StreamedBlock} {block : StreamedBlock} {index : Nat}

@[simp] theorem firstBlocks_concat :
    firstBlocks (blocks ++ [block]) =
      if block.index ∈ (firstBlocks blocks).map StreamedBlock.index then firstBlocks blocks
      else firstBlocks blocks ++ [block] := by
  simp [firstBlocks]

theorem mem_map_index_firstBlocks :
    index ∈ (firstBlocks blocks).map StreamedBlock.index ↔ index ∈ blocks.map StreamedBlock.index := by
  induction blocks using reverseRecOn with
  | nil => rfl
  | append_singleton blocks block ih =>
    rw [firstBlocks_concat, map_append, mem_append]
    split
    case isTrue hmem =>
      refine ⟨fun h => .inl (ih.mp h), ?_⟩
      rintro (h | h)
      · exact ih.mpr h
      · rw [mem_singleton.mp h]
        exact hmem
    case isFalse => rw [map_append, mem_append, ih]

theorem firstBlocks_of_nodup (h : (blocks.map StreamedBlock.index).Nodup) :
    firstBlocks blocks = blocks := by
  induction blocks using reverseRecOn with
  | nil => rfl
  | append_singleton blocks block ih =>
    rw [map_append, nodup_append] at h
    obtain ⟨hblocks, -, hdisjoint⟩ := h
    have hnew : block.index ∉ (firstBlocks blocks).map StreamedBlock.index := fun hmem =>
      hdisjoint _ (mem_map_index_firstBlocks.mp hmem) _ mem_cons_self rfl
    rw [firstBlocks_concat, if_neg hnew, ih hblocks]

theorem firstBlocks_map {change : StreamedBlock → StreamedBlock}
    (hindex : ∀ block, (change block).index = block.index) :
    firstBlocks (blocks.map change) = (firstBlocks blocks).map change := by
  have hmap : ∀ list : List StreamedBlock,
      (list.map change).map StreamedBlock.index = list.map StreamedBlock.index := by
    intro list
    rw [map_map]
    exact map_congr_left fun block _ => hindex block
  induction blocks using reverseRecOn with
  | nil => rfl
  | append_singleton blocks block ih =>
    rw [map_append, map_singleton, firstBlocks_concat, ih, firstBlocks_concat, hmap, hindex]
    split
    · rfl
    · rw [map_append, map_singleton]

theorem index_receive (index : Nat) (delta : StreamChunk) (block : StreamedBlock) :
    (block.receive index delta).index = block.index := by
  unfold StreamedBlock.receive
  split <;> rfl

theorem index_close (index : Nat) (content : ContentBlock) (block : StreamedBlock) :
    (block.close index content).index = block.index := by
  unfold StreamedBlock.close
  split <;> rfl

end Blocks

section Assembly

variable {assembler : BlockAssembler} {blocks : List StreamedBlock} {block : StreamedBlock}
  {index : Nat} {chunk : StreamChunk}

def StreamedBlock.toPartial (block : StreamedBlock) : PartialBlock where
  blockType := block.blockType
  text := String.join (block.deltas.filterMap textOf)
  toolCallId := (block.deltas.filterMap callIdOf).getLast?
  toolCallName := (block.deltas.filterMap callNameOf).getLast?
  toolCallArguments := String.join (block.deltas.filterMap callArgumentsOf)
  block := block.closed

def StreamedBlock.entry (block : StreamedBlock) : Nat × PartialBlock := (block.index, block.toPartial)

open StreamedBlock (toPartial entry isOpenAt)

def Holds (assembler : BlockAssembler) (blocks : List StreamedBlock) : Prop :=
  assembler.partials.entries = (firstBlocks blocks).map entry

theorem Holds.keys (h : Holds assembler blocks) :
    assembler.partials.keys = (firstBlocks blocks).map StreamedBlock.index := by
  rw [OrderedMap.keys, h, map_map]
  rfl

theorem Holds.get? (h : Holds assembler blocks) (hblock : block ∈ firstBlocks blocks) :
    assembler.partials.get? block.index = some block.toPartial := by
  apply get?_eq_some.mpr
  have hentry : block.entry ∈ (firstBlocks blocks).map entry := mem_map_of_mem hblock
  rw [h]
  exact hentry

theorem Holds.start (h : Holds assembler blocks) (blockType : String) :
    Holds (assembler.push (.blockStart index blockType))
      (blocks ++ [({ index, blockType } : StreamedBlock)]) := by
  unfold Holds
  rw [firstBlocks_concat]
  show (assembler.partials.set index (assembler.ensure index blockType)).entries = _
  by_cases hmem : index ∈ (firstBlocks blocks).map StreamedBlock.index
  · rw [entries_set_of_mem (h.keys ▸ hmem), if_pos hmem, h, map_map]
    apply map_congr_left
    intro block hblock
    show replaceEntry index _ block.entry = block.entry
    unfold replaceEntry
    split
    case isTrue heq =>
      have heq : block.index = index := heq
      rw [ensure, ← heq, h.get? hblock]
      rfl
    case isFalse => rfl
  · have hnone : assembler.partials.get? index = none := by
      rw [get?_eq_none, h.keys]
      exact hmem
    rw [entries_set_of_not_mem (h.keys ▸ hmem), if_neg hmem, h, ensure,
      hnone, map_append]
    rfl

variable {change : PartialBlock → PartialBlock} {part : StreamChunk → Option String}

theorem Holds.edit (h : Holds assembler blocks) (hmem : index ∈ blocks.map StreamedBlock.index)
    (blockType : String) {step : StreamedBlock → StreamedBlock}
    (hindex : ∀ block, (step block).index = block.index)
    (hstep : ∀ block, (step block).toPartial =
      if block.isOpenAt index then change block.toPartial else block.toPartial) :
    Holds (assembler.edit index blockType change) (blocks.map step) := by
  unfold Holds
  rw [firstBlocks_map hindex]
  show (assembler.partials.set index _).entries = _
  have hkey : index ∈ assembler.partials.keys := by
    rw [h.keys]
    exact mem_map_index_firstBlocks.mpr hmem
  rw [entries_set_of_mem hkey, h, map_map, map_map]
  apply map_congr_left
  intro block hblock
  show replaceEntry index _ block.entry = (step block).entry
  unfold replaceEntry entry
  rw [hindex, hstep]
  by_cases heq : block.index = index
  · rw [if_pos heq, ensure, ← heq, h.get? hblock]
    cases hclosed : block.closed with
    | none => simp [isOpenAt, toPartial, hclosed]
    | some content => simp [isOpenAt, toPartial, hclosed]
  · rw [if_neg heq, if_neg]
    simp [isOpenAt, heq]

theorem Holds.receive (h : Holds assembler blocks) (hmem : index ∈ blocks.map StreamedBlock.index)
    (blockType : String)
    (hchange : ∀ block : StreamedBlock,
      toPartial { block with deltas := block.deltas ++ [chunk] } = change block.toPartial) :
    Holds (assembler.edit index blockType change) (blocks.map (.receive index chunk)) := by
  refine h.edit hmem blockType (index_receive index chunk) fun block => ?_
  unfold StreamedBlock.receive
  split
  · exact hchange block
  · rfl

theorem join_filterMap_concat (deltas : List StreamChunk) (delta : StreamChunk) :
    String.join ((deltas ++ [delta]).filterMap part) =
      String.join (deltas.filterMap part) ++ (part delta).getD "" := by
  rw [filterMap_append]
  cases h : part delta with
  | none => simp [h, String.join]
  | some text => simp [h, String.join]

theorem getLast?_filterMap_concat (deltas : List StreamChunk) (delta : StreamChunk) :
    ((deltas ++ [delta]).filterMap part).getLast? =
      (part delta).or (deltas.filterMap part).getLast? := by
  rw [filterMap_append]
  cases h : part delta with
  | none => simp [h]
  | some text => simp [h]

theorem toPartial_concat (block : StreamedBlock) (delta : StreamChunk) :
    toPartial { block with deltas := block.deltas ++ [delta] } =
      { block.toPartial with
        text := block.toPartial.text ++ (textOf delta).getD ""
        toolCallId := (callIdOf delta).or block.toPartial.toolCallId
        toolCallName := (callNameOf delta).or block.toPartial.toolCallName
        toolCallArguments := block.toPartial.toolCallArguments ++ (callArgumentsOf delta).getD "" } := by
  unfold toPartial
  rw [join_filterMap_concat, join_filterMap_concat, getLast?_filterMap_concat,
    getLast?_filterMap_concat]

theorem Holds.feed (h : Holds assembler blocks)
    (hdelta : ∀ index blockType, deltaOf chunk = some (index, blockType) →
      index ∈ blocks.map StreamedBlock.index)
    (hend : ∀ index content, chunk = .blockEnd index content →
      index ∈ blocks.map StreamedBlock.index) :
    Holds (assembler.push chunk) (feedStream blocks chunk) := by
  cases chunk with
  | blockStart index blockType => exact h.start blockType
  | textDelta index text =>
    refine h.receive (hdelta _ _ rfl) "text" fun block => ?_
    simp [toPartial_concat, textOf, callIdOf, callNameOf, callArgumentsOf]
  | reasoningDelta index text =>
    refine h.receive (hdelta _ _ rfl) "reasoning" fun block => ?_
    simp [toPartial_concat, textOf, callIdOf, callNameOf, callArgumentsOf]
  | toolCallDelta index id name argumentsDelta =>
    refine h.receive (hdelta _ _ rfl) "tool-call" fun block => ?_
    rw [toPartial_concat]
    cases name with
    | none => simp [textOf, callIdOf, callNameOf, callArgumentsOf]
    | some name =>
      by_cases hname : name = ""
      · simp [textOf, callIdOf, callNameOf, callArgumentsOf, Option.filter, hname]
      · simp [textOf, callIdOf, callNameOf, callArgumentsOf, hname]
  | blockEnd index content =>
    refine h.edit (hend _ _ rfl) (blockTypeOf content) (index_close index _) fun block => ?_
    unfold StreamedBlock.close
    split <;> rfl
  | usage usage => exact h
  | finish reason replayState => exact h

theorem assemble_toPartial (block : StreamedBlock) :
    assemble block.toPartial block.index = block.content := by
  unfold assemble StreamedBlock.content toPartial
  cases block.closed with
  | none => rfl
  | some content => rfl

theorem assembleAll_map_entry (blocks : List StreamedBlock) :
    assembleAll (blocks.map entry) = contents blocks := by
  induction blocks with
  | nil => rfl
  | cons block rest ih =>
    simp only [map_cons, entry, assembleAll, contents,
      assemble_toPartial]
    rw [ih]
    cases block.content with
    | error message => rfl
    | ok content => cases contents rest <;> rfl

end Assembly

section Runs

open StreamedBlock (isOpenAt blockType)

variable {openBlocks : OrderedMap Nat String} {blocks : List StreamedBlock} {block : StreamedBlock}
  {index other : Nat}

def Agrees (openBlocks : OrderedMap Nat String) (blocks : List StreamedBlock) : Prop :=
  ∀ index, (blocks.filter (isOpenAt index)).map blockType =
    (openBlocks.get? index).toList

variable {blockType : String}

theorem Agrees.mem_index (h : Agrees openBlocks blocks)
    (hopen : openBlocks.get? index = some blockType) : index ∈ blocks.map StreamedBlock.index := by
  have hfilter := h index
  rw [hopen] at hfilter
  have hmem : blockType ∈ (blocks.filter (isOpenAt index)).map StreamedBlock.blockType := by
    rw [hfilter]
    exact mem_cons_self
  obtain ⟨block, hblock, -⟩ := mem_map.mp hmem
  obtain ⟨hblock, hisOpen⟩ := mem_filter.mp hblock
  have hindex : block.index = index := by
    simp only [isOpenAt, Bool.and_eq_true, beq_iff_eq] at hisOpen
    exact hisOpen.2
  exact mem_map.mpr ⟨block, hblock, hindex⟩

theorem Agrees.closed (h : Agrees openBlocks blocks) (hempty : openBlocks.entries = [])
    (hblock : block ∈ blocks) : block.closed.isSome = true := by
  have hnone : openBlocks.get? block.index = none := by
    rw [get?, hempty]
    rfl
  have hfilter := h block.index
  rw [hnone, Option.toList_none, map_eq_nil_iff, filter_eq_nil_iff] at hfilter
  have hisOpen := hfilter block hblock
  cases hclosed : block.closed with
  | none => simp [isOpenAt, hclosed] at hisOpen
  | some content => rfl

theorem Agrees.start (h : Agrees openBlocks blocks) (hnone : openBlocks.get? index = none)
    (blockType : String) :
    Agrees (openBlocks.set index blockType) (blocks ++ [({ index, blockType } : StreamedBlock)]) := by
  intro other
  rw [filter_append, map_append, h other, get?_set]
  by_cases heq : other = index
  · rw [if_pos heq, heq, hnone]
    simp [isOpenAt]
  · rw [if_neg heq]
    simp [isOpenAt, Ne.symm heq]

theorem isOpenAt_receive (delta : StreamChunk) (block : StreamedBlock) :
    (block.receive index delta).isOpenAt other = block.isOpenAt other := by
  unfold StreamedBlock.receive
  split <;> rfl

theorem blockType_receive (delta : StreamChunk) (block : StreamedBlock) :
    (block.receive index delta).blockType = block.blockType := by
  unfold StreamedBlock.receive
  split <;> rfl

theorem Agrees.receive (h : Agrees openBlocks blocks) (index : Nat) (delta : StreamChunk) :
    Agrees openBlocks (blocks.map (.receive index delta)) := by
  intro other
  rw [← h other, filter_map, map_map]
  have hopen : isOpenAt other ∘ StreamedBlock.receive index delta =
      isOpenAt other := funext fun block => isOpenAt_receive delta block
  rw [hopen]
  exact map_congr_left fun block _ => blockType_receive delta block

theorem isOpenAt_close (content : ContentBlock) (block : StreamedBlock) :
    (block.close index content).isOpenAt other = (block.isOpenAt other && other != index) := by
  unfold StreamedBlock.close
  cases hopen : block.isOpenAt index with
  | true =>
    by_cases heq : other = index
    · simp [isOpenAt, heq]
    · have hindex : block.index ≠ other := by
        simp only [isOpenAt, Bool.and_eq_true, beq_iff_eq] at hopen
        omega
      simp [isOpenAt, hindex]
  | false =>
    by_cases heq : other = index
    · rw [heq, hopen]
      simp [hopen]
    · simp [heq]

theorem blockType_close (content : ContentBlock) (block : StreamedBlock) :
    (block.close index content).blockType = block.blockType := by
  unfold StreamedBlock.close
  split <;> rfl

theorem Agrees.close (h : Agrees openBlocks blocks) (index : Nat) (content : ContentBlock) :
    Agrees (openBlocks.delete index) (blocks.map (.close index content)) := by
  intro other
  rw [get?_delete, filter_map, map_map]
  have htype : (blockType ∘ StreamedBlock.close index content) =
      blockType := funext fun block => blockType_close content block
  have hopen : isOpenAt other ∘ StreamedBlock.close index content =
      fun block => block.isOpenAt other && other != index :=
    funext fun block => isOpenAt_close content block
  rw [htype, hopen]
  by_cases heq : other = index
  · simp [heq]
  · rw [if_neg heq, ← h other, bne_iff_ne.mpr heq]
    simp only [Bool.and_true]

structure Streamed (state : StreamState) (assembler : BlockAssembler) (blocks : List StreamedBlock) :
    Prop where
  holds : Holds assembler blocks
  agrees : Agrees state.openBlocks blocks
  closed : state.finished = true → assembler.finish.isBroken = false →
    ∀ block ∈ blocks, block.closed.isSome = true

theorem streamed_empty : Streamed {} {} [] where
  holds := rfl
  agrees := fun _ => rfl
  closed := fun h => nomatch h

variable {state next : StreamState} {assembler : BlockAssembler} {chunk : StreamChunk}

theorem feedStream_of_delta (h : deltaOf chunk = some (index, blockType))
    (blocks : List StreamedBlock) : feedStream blocks chunk = blocks.map (.receive index chunk) := by
  cases chunk with
  | textDelta index text =>
    cases h
    rfl
  | reasoningDelta index text =>
    cases h
    rfl
  | toolCallDelta index id name argumentsDelta =>
    cases h
    rfl
  | _ => cases h

theorem StreamStep.agrees (hstep : StreamStep state chunk next) (h : Agrees state.openBlocks blocks) :
    Agrees next.openBlocks (feedStream blocks chunk) := by
  cases hstep with
  | start hnone => exact h.start hnone _
  | delta hdelta hopen =>
    rw [feedStream_of_delta hdelta]
    exact h.receive _ _
  | finishBlock hopen => exact h.close _ _
  | usage hseen => exact h
  | finish hopen => exact h

theorem StreamStep.holds (hstep : StreamStep state chunk next) (h : Agrees state.openBlocks blocks)
    (hholds : Holds assembler blocks) : Holds (assembler.push chunk) (feedStream blocks chunk) := by
  refine hholds.feed ?_ ?_
  · intro index blockType hdelta
    cases hstep with
    | delta hother hopen =>
      rw [hother] at hdelta
      cases hdelta
      exact h.mem_index hopen
    | start | finishBlock | usage | finish => cases hdelta
  · intro index content hend
    cases hstep with
    | finishBlock hopen =>
      cases hend
      exact h.mem_index hopen
    | delta hdelta hopen =>
      rw [hend] at hdelta
      cases hdelta
    | start | usage | finish => cases hend

theorem StreamStep.streamed (hstep : StreamStep state chunk next) (hfinished : state.finished = false)
    (h : Streamed state assembler blocks) :
    Streamed next (assembler.push chunk) (feedStream blocks chunk) where
  holds := hstep.holds h.agrees h.holds
  agrees := hstep.agrees h.agrees
  closed := by
    intro hnext hbroken block hblock
    cases hstep with
    | finish hopen => exact h.agrees.closed (hopen hbroken) hblock
    | start | delta | finishBlock | usage => exact nomatch hfinished.symm.trans hnext

theorem streamed_of_foldlM {chunks : List StreamChunk}
    (h : chunks.foldlM StreamState.validate {} = .ok state) :
    Streamed state (pushAll chunks) (streamedBlocks chunks) := by
  induction chunks using reverseRecOn generalizing state with
  | nil =>
    cases h
    exact streamed_empty
  | append_singleton chunks chunk ih =>
    rw [foldlM_append] at h
    cases hbefore : chunks.foldlM StreamState.validate {} with
    | error message =>
      rw [hbefore] at h
      cases h
    | ok before =>
      rw [hbefore] at h
      have hlast : before.validate chunk = .ok state := by
        rw [← h]
        exact (bind_pure (before.validate chunk)).symm
      obtain ⟨hfinished, hstep⟩ := streamStep_of_validate hlast
      rw [pushAll, streamedBlocks, foldl_append, foldl_append]
      exact hstep.streamed hfinished (ih hbefore)

def FinishReason.isTruncated : FinishReason → Bool
  | .maxTokens => true
  | _ => false

theorem map_fst_replay {noReplay keepsReplay : Prop} [Decidable noReplay] [Decidable keepsReplay]
    {all : List ContentBlock} {dropped kept cut : Option ReplayEnvelope} :
    (if noReplay then .ok (all, dropped) else if keepsReplay then .ok (all, kept) else .ok (all, cut) :
      Except String (List ContentBlock × Option ReplayEnvelope)).map Prod.fst = .ok all := by
  split
  · rfl
  · split <;> rfl

theorem blocks_eq (assembler : BlockAssembler) :
    assembler.blocks = (assembleAll assembler.partials.entries).map fun all =>
      if assembler.finish.isTruncated then all.filter isKept else all := by
  unfold blocks assembled
  cases assembleAll assembler.partials.entries with
  | error message => rfl
  | ok all =>
    dsimp only
    cases assembler.envelope with
    | none => rfl
    | some envelope =>
      cases henvelope : envelope.blocks with
      | none =>
        simp only [henvelope]
        rfl
      | some entries =>
        simp only [henvelope]
        exact map_fst_replay

/-- The blocks of an accepted stream: one for each index, in the order in which the indices were
first opened. -/
theorem blocks_of_validateStream {chunks : List StreamChunk} (h : validateStream chunks = .ok ()) :
    (pushAll chunks).blocks =
      (contents (firstBlocks (streamedBlocks chunks))).map (fun all =>
        if (pushAll chunks).finish.isTruncated then all.filter isKept
        else all) ∧
    (((streamedBlocks chunks).map StreamedBlock.index).Nodup →
      firstBlocks (streamedBlocks chunks) = streamedBlocks chunks) ∧
    ((pushAll chunks).finish.isBroken = false →
      ∀ block ∈ streamedBlocks chunks, block.closed.isSome = true) := by
  unfold validateStream at h
  cases hrun : chunks.foldlM StreamState.validate {} with
  | error message =>
    rw [hrun] at h
    cases h
  | ok state =>
    rw [hrun] at h
    have hfinished : state.finished = true := by
      by_contra hne
      simp [bind, Except.bind, hne] at h
    have hstreamed := streamed_of_foldlM hrun
    refine ⟨?_, firstBlocks_of_nodup, hstreamed.closed hfinished⟩
    rw [blocks_eq, hstreamed.holds, assembleAll_map_entry]

def reopenedStream : List StreamChunk :=
  [.blockStart 0 "text", .blockEnd 0 (.text "first"), .blockStart 0 "text", .textDelta 0 "second",
    .blockEnd 0 (.text "second"), .finish .stop none]

theorem blocks_of_reopenedStream :
    validateStream reopenedStream = .ok () ∧
    contents (streamedBlocks reopenedStream) = .ok [.text "first", .text "second"] ∧
    (pushAll reopenedStream).blocks = .ok [.text "first"] :=
  ⟨by decide, rfl, rfl⟩

def interleavedStream : List StreamChunk :=
  [.blockStart 1 "text", .blockStart 0 "reasoning", .textDelta 1 "a", .reasoningDelta 0 "b",
    .textDelta 1 "c", .blockEnd 0 (.reasoning "b"), .finish (.aborted .null) none]

theorem blocks_of_interleavedStream :
    (pushAll interleavedStream).blocks = .ok [.text "ac", .reasoning "b"] :=
  (blocks_of_validateStream (show validateStream interleavedStream = .ok () from rfl)).1.trans rfl

end Runs

end DshKernel.Llm
