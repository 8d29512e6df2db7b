import DshKernel.DeepSeek.TranslateRuns

/-!
# The stream of a translation

The grammar of streams accepts the chunks that a translation yields, and the blocks that are
assembled from them, with or without their ends, are those that the fragments build.
-/

namespace DshKernel.DeepSeek

open Js Lib Session Llm BlockAssembler

def isBlockEnd : StreamChunk → Bool
  | .blockEnd _ _ => true
  | _ => false

def isUsage : StreamChunk → Bool
  | .usage _ => true
  | _ => false

def isFinish : StreamChunk → Bool
  | .finish _ _ => true
  | _ => false

section Grammar

def Accepted (chunks : List StreamChunk) (validator : StreamState) : Prop :=
  chunks.foldlM StreamState.validate {} = .ok validator

variable {chunks : List StreamChunk} {chunk : StreamChunk} {validator next : StreamState}
  {place : Nat} {kinds : List BlockKind} {kind : BlockKind}

theorem Accepted.concat (h : Accepted chunks validator) (hnext : validator.validate chunk = .ok next) :
    Accepted (chunks ++ [chunk]) next := by
  unfold Accepted at h ⊢
  rw [List.foldlM_append, h]
  exact (bind_pure (validator.validate chunk)).trans hnext

structure Open (validator : StreamState) (place : Nat) (kinds : List BlockKind) : Prop where
  blocks : validator.openBlocks.EntriesFrom place (kinds.map BlockKind.name)
  usage : validator.usageSeen = false
  finished : validator.finished = false

theorem validateIndex_eq_ok {index : Nat} (h : index ≤ maxArrayLength) : validateIndex index = .ok () := by
  unfold validateIndex
  apply if_pos
  unfold maxArrayLength at h
  unfold maxSafeInteger
  omega

theorem Open.start (h : Open validator 0 kinds) (hlength : kinds.length < maxArrayLength)
    (kind : BlockKind) : ∃ next, validator.validate (.blockStart kinds.length kind.name) = .ok next ∧
      Open next 0 (kinds ++ [kind]) := by
  have hnone : validator.openBlocks.get? kinds.length = none := by
    have hget := h.blocks.get?_add kinds.length
    rw [Nat.zero_add] at hget
    rw [hget]
    apply List.getElem?_eq_none
    exact Nat.le_of_eq (List.length_map _)
  refine ⟨{ validator with openBlocks := validator.openBlocks.set kinds.length kind.name }, ?_, ?_,
    h.usage, h.finished⟩
  · unfold StreamState.validate
    rw [h.finished]
    simp only [Bool.false_eq_true, if_false, validateIndex_eq_ok (Nat.le_of_lt hlength), hnone]
    rfl
  · have hpush := h.blocks.push kind.name
    rw [List.length_map, Nat.zero_add] at hpush
    rw [List.map_append]
    exact hpush

theorem Open.delta (h : Open validator 0 kinds) (hlength : kinds.length ≤ maxArrayLength)
    (hkind : kinds[place]? = some kind) (hdelta : deltaOf chunk = some (place, kind.name)) :
    validator.validate chunk = .ok validator := by
  have hopen : validator.openBlocks.get? place = some kind.name := by
    have hget := h.blocks.get?_add place
    rw [Nat.zero_add] at hget
    rw [hget, List.getElem?_map, hkind]
    rfl
  have hplace : place < kinds.length := (List.getElem?_eq_some_iff.mp hkind).1
  have hvalid : validateDelta validator place kind.name = .ok () := by
    unfold validateDelta
    rw [validateIndex_eq_ok (by omega), hopen]
    exact if_pos rfl
  unfold StreamState.validate
  rw [h.finished]
  cases chunk with
  | textDelta index text =>
    obtain ⟨rfl, hname⟩ := Prod.mk.inj (Option.some.inj hdelta)
    rw [← hname] at hvalid
    simp only [Bool.false_eq_true, if_false, hvalid]
    rfl
  | reasoningDelta index text =>
    obtain ⟨rfl, hname⟩ := Prod.mk.inj (Option.some.inj hdelta)
    rw [← hname] at hvalid
    simp only [Bool.false_eq_true, if_false, hvalid]
    rfl
  | toolCallDelta index id name argumentsDelta =>
    obtain ⟨rfl, hname⟩ := Prod.mk.inj (Option.some.inj hdelta)
    rw [← hname] at hvalid
    simp only [Bool.false_eq_true, if_false, hvalid]
    rfl
  | _ => cases hdelta

theorem blockTypeOf_closeBlock (block : OpenBlock) :
    blockTypeOf (closeBlock block) = block.kind.name := by
  unfold closeBlock
  cases block.kind <;> rfl

theorem blockEnds_cons (place : Nat) (block : OpenBlock) (blocks : List OpenBlock) :
    blockEnds place (block :: blocks) =
      .blockEnd place (closeBlock block) :: blockEnds (place + 1) blocks := rfl

theorem Open.ends {blocks : List OpenBlock} (h : Open validator place (blocks.map OpenBlock.kind))
    (hlength : place + blocks.length ≤ maxArrayLength) (haccepted : Accepted chunks validator) :
    ∃ next, Accepted (chunks ++ blockEnds place blocks) next ∧ Open next (place + blocks.length) [] := by
  induction blocks generalizing place chunks validator with
  | nil =>
    refine ⟨validator, ?_, h⟩
    rw [show blockEnds place [] = [] from rfl, List.append_nil]
    exact haccepted
  | cons block blocks ih =>
    rw [List.length_cons] at hlength
    have hget := h.blocks.get?_add 0
    rw [Nat.add_zero] at hget
    have hclose : validator.validate (.blockEnd place (closeBlock block)) =
        .ok { validator with openBlocks := validator.openBlocks.delete place } := by
      unfold StreamState.validate
      rw [h.finished]
      simp only [Bool.false_eq_true, if_false, validateIndex_eq_ok (show place ≤ maxArrayLength by omega),
        hget, blockTypeOf_closeBlock]
      exact if_neg fun hne => hne rfl
    have hrest : Open { validator with openBlocks := validator.openBlocks.delete place } (place + 1)
        (blocks.map OpenBlock.kind) := ⟨h.blocks.delete_first, h.usage, h.finished⟩
    obtain ⟨next, hnext, hopen⟩ := ih hrest (by omega) (haccepted.concat hclose)
    rw [List.append_assoc] at hnext
    refine ⟨next, hnext, ?_⟩
    rw [List.length_cons, Nat.add_comm blocks.length 1, ← Nat.add_assoc]
    exact hopen

end Grammar

section Assembly

def partialOf (block : OpenBlock) : PartialBlock :=
  match block.kind with
  | .toolCall => {
      blockType := BlockKind.name .toolCall
      toolCallId := some (block.callId.getD "")
      toolCallName := block.name
      toolCallArguments := block.text }
  | kind => { blockType := kind.name, text := block.text }

def closedPartial (block : OpenBlock) : PartialBlock :=
  { partialOf block with block := some (closeBlock block) }

variable {assembler : BlockAssembler} {values : List PartialBlock} {found : PartialBlock}
  {place : Nat} {block : OpenBlock} {fragment : Fragment}

theorem block_partialOf (block : OpenBlock) : (partialOf block).block = none := by
  unfold partialOf
  cases block.kind <;> rfl

theorem entriesFrom_start (h : assembler.partials.EntriesFrom 0 values) (blockType : String) :
    (assembler.push (.blockStart values.length blockType)).partials.EntriesFrom 0
      (values ++ [({ blockType } : PartialBlock)]) := by
  have hget := h.get?_add values.length
  rw [Nat.zero_add, List.getElem?_eq_none (Nat.le_refl _)] at hget
  have hpush := h.push { blockType }
  rw [Nat.zero_add] at hpush
  unfold push ensure
  dsimp only
  rw [hget]
  exact hpush

theorem entriesFrom_edit (h : assembler.partials.EntriesFrom 0 values)
    (hfound : values[place]? = some found) (hopen : found.block = none) (blockType : String)
    (change : PartialBlock → PartialBlock) :
    (assembler.edit place blockType change).partials.EntriesFrom 0 (values.set place (change found)) := by
  have hget := h.get?_add place
  rw [Nat.zero_add, hfound] at hget
  have hset := h.set (List.getElem?_eq_some_iff.mp hfound).1 (change found)
  rw [Nat.zero_add] at hset
  unfold edit ensure
  dsimp only
  rw [hget, Option.getD_some, hopen]
  exact hset

def Fits (found : PartialBlock) (block : OpenBlock) : Prop :=
  ∃ id, found = { partialOf block with toolCallId := id } ∧
    (block.kind ≠ .toolCall → id = none)

theorem fits_partialOf (block : OpenBlock) : Fits (partialOf block) block := by
  refine ⟨(partialOf block).toolCallId, rfl, ?_⟩
  unfold partialOf
  cases block.kind with
  | toolCall => exact fun hne => absurd rfl hne
  | _ => exact fun _ => rfl

theorem fits_start (kind : BlockKind) : Fits { blockType := kind.name } { kind } := by
  refine ⟨none, ?_, fun _ => rfl⟩
  cases kind <;> rfl

theorem entriesFrom_delta (h : assembler.partials.EntriesFrom 0 values)
    (hfound : values[place]? = some found) (hfits : Fits found block)
    (hkind : block.kind = fragment.kind) (hname : (fragment.absorb block).name ≠ some "") :
    (assembler.push (fragment.delta place (fragment.absorb block))).partials.EntriesFrom 0
      (values.set place (partialOf (fragment.absorb block))) := by
  obtain ⟨id, rfl, hid⟩ := hfits
  obtain ⟨kind, text, callId, name⟩ := block
  obtain rfl : kind = fragment.kind := hkind
  cases fragment with
  | reasoning added =>
    obtain rfl := hid (fun heq => nomatch heq)
    exact entriesFrom_edit h hfound rfl _ _
  | content added =>
    obtain rfl := hid (fun heq => nomatch heq)
    exact entriesFrom_edit h hfound rfl _ _
  | call key newId newName arguments =>
    have hedit := entriesFrom_edit h hfound rfl "tool-call" fun found =>
      { found with
        toolCallId := some ((newId.or callId).getD "")
        toolCallName := if (newName.or name).any (· ≠ "") then newName.or name else found.toolCallName
        toolCallArguments := found.toolCallArguments ++ arguments }
    have hsame : (if (newName.or name).any (· ≠ "") then newName.or name else name) = newName.or name := by
      change newName.or name ≠ some "" at hname
      cases newName with
      | some given =>
        have hne : given ≠ "" := fun heq => hname (heq ▸ rfl)
        simp [hne]
      | none => cases name <;> simp
    simp only [partialOf, Fragment.kind, hsame] at hedit
    exact hedit

theorem entriesFrom_ends {blocks : List OpenBlock}
    (h : assembler.partials.EntriesFrom 0 (values ++ blocks.map partialOf)) :
    ((blockEnds values.length blocks).foldl push assembler).partials.EntriesFrom 0
      (values ++ blocks.map closedPartial) := by
  induction blocks generalizing assembler values with
  | nil => exact h
  | cons block blocks ih =>
    rw [blockEnds_cons, List.foldl_cons]
    have hfound : (values ++ (block :: blocks).map partialOf)[values.length]? = some (partialOf block) := by
      rw [List.getElem?_append_right (Nat.le_refl _), Nat.sub_self]
      rfl
    have hclosed := entriesFrom_edit h hfound (block_partialOf block)
      (blockTypeOf (closeBlock block)) fun found => { found with block := some (closeBlock block) }
    rw [List.set_append_right _ _ (Nat.le_refl _), Nat.sub_self, List.map_cons, List.set_cons_zero] at hclosed
    have hopen : (assembler.push (.blockEnd values.length (closeBlock block))).partials.EntriesFrom 0
        ((values ++ [closedPartial block]) ++ blocks.map partialOf) := by
      rw [List.append_assoc]
      exact hclosed
    have hrest := ih hopen
    rw [List.length_append, List.append_assoc] at hrest
    exact hrest

theorem assemble_partialOf (block : OpenBlock) (place : Nat) :
    assemble (partialOf block) place = .ok (closeBlock block) := by
  obtain ⟨kind, text, callId, name⟩ := block
  cases kind <;> rfl

theorem assemble_closedPartial (block : OpenBlock) (place : Nat) :
    assemble (closedPartial block) place = .ok (closeBlock block) := rfl

theorem assembleAll_of_entriesFrom {blocks : List OpenBlock} {entry : OpenBlock → PartialBlock}
    (hentry : ∀ block place, assemble (entry block) place = .ok (closeBlock block))
    (start : Nat) :
    assembleAll (((blocks.map entry).zipIdx start).map Prod.swap) =
      .ok (blocks.map closeBlock) := by
  induction blocks generalizing start with
  | nil => rfl
  | cons block blocks ih =>
    change assembleAll
      ((start, entry block) :: ((blocks.map entry).zipIdx (start + 1)).map Prod.swap) = _
    rw [assembleAll, hentry, ih]
    rfl

end Assembly

end DshKernel.DeepSeek
