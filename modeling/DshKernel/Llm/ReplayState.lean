import DshKernel.Llm.StreamGrammar
import Mathlib.Data.List.Induction

/-!
# Replay metadata

A finish chunk may carry one entry of replay metadata for each block of the response. The entries
that assembly keeps are those of the blocks that it keeps, position by position.
-/

namespace DshKernel.Llm

open Js Lib Session List

section Positions

variable {α β : Type}

theorem exists_positions (keep : α → Bool) (xs : List α) :
    ∃ positions : List Nat, positions.Pairwise (· < ·) ∧
      (∀ position, position ∈ positions ↔ ∃ x, xs[position]? = some x ∧ keep x = true) ∧
      (xs.filter keep).map some = positions.map (xs[·]?) := by
  refine ⟨(xs.zipIdx.filter (keep ·.1)).map Prod.snd, ?_, ?_, ?_⟩
  · have hsublist : ((xs.zipIdx.filter (keep ·.1)).map Prod.snd).Sublist
        (range' 0 xs.length) := by
      rw [← zipIdx_map_snd]
      exact filter_sublist.map Prod.snd
    exact List.Pairwise.sublist hsublist pairwise_lt_range'
  · intro position
    constructor
    · intro hposition
      obtain ⟨⟨x, found⟩, hfound, rfl⟩ := mem_map.mp hposition
      obtain ⟨hmem, hkeep⟩ := mem_filter.mp hfound
      exact ⟨x, mk_mem_zipIdx_iff_getElem?.mp hmem, hkeep⟩
    · rintro ⟨x, hx, hkeep⟩
      apply mem_map.mpr
      refine ⟨(x, position), mem_filter.mpr ⟨?_, hkeep⟩, rfl⟩
      exact mk_mem_zipIdx_iff_getElem?.mpr hx
  · have hfilter : xs.filter keep = (xs.zipIdx.filter (keep ·.1)).map Prod.fst := by
      have hmap : (xs.zipIdx.map Prod.fst).filter keep = _ := filter_map
      rwa [zipIdx_map_fst] at hmap
    rw [hfilter, map_map, map_map]
    apply map_congr_left
    rintro ⟨x, position⟩ hentry
    have hmem := (mem_filter.mp hentry).1
    exact (mk_mem_zipIdx_iff_getElem?.mp hmem).symm

variable {xs : List α} {ys : List β}

theorem map_getElem?_zip_fst (h : ys.length = xs.length)
    (position : Nat) : ((xs.zip ys)[position]?).map Prod.fst = xs[position]? := by
  rw [← getElem?_map, map_fst_zip (Nat.le_of_eq h.symm)]

theorem map_getElem?_zip_snd (h : ys.length = xs.length)
    (position : Nat) : ((xs.zip ys)[position]?).map Prod.snd = ys[position]? := by
  rw [← getElem?_map, map_snd_zip (Nat.le_of_eq h)]

theorem exists_positions_zip (keep : α → Bool) (h : ys.length = xs.length) :
    ∃ positions : List Nat, positions.Pairwise (· < ·) ∧
      (∀ position, position ∈ positions ↔ ∃ x, xs[position]? = some x ∧ keep x = true) ∧
      (xs.filter keep).map some = positions.map (xs[·]?) ∧
      (((xs.zip ys).filter (keep ·.1)).map Prod.snd).map some = positions.map (ys[·]?) := by
  obtain ⟨positions, hordered, hmem, hkept⟩ := exists_positions (keep ·.1) (xs.zip ys)
  have hxs : xs.filter keep = ((xs.zip ys).filter (keep ·.1)).map Prod.fst := by
    have hmap : ((xs.zip ys).map Prod.fst).filter keep = _ := filter_map
    rwa [map_fst_zip (Nat.le_of_eq h.symm)] at hmap
  refine ⟨positions, hordered, ?_, ?_, ?_⟩
  · intro position
    rw [hmem]
    constructor
    · rintro ⟨pair, hpair, hkeep⟩
      refine ⟨pair.1, ?_, hkeep⟩
      rw [← map_getElem?_zip_fst h, hpair]
      rfl
    · rintro ⟨x, hx, hkeep⟩
      rw [← map_getElem?_zip_fst h] at hx
      obtain ⟨pair, hpair, rfl⟩ := Option.map_eq_some_iff.mp hx
      exact ⟨pair, hpair, hkeep⟩
  · have hfst := congrArg (map (Option.map Prod.fst)) hkept
    rw [map_map, map_map] at hfst
    rw [hxs, map_map]
    refine Eq.trans hfst (map_congr_left fun position _ => ?_)
    exact map_getElem?_zip_fst h position
  · have hsnd := congrArg (map (Option.map Prod.snd)) hkept
    rw [map_map, map_map] at hsnd
    rw [map_map]
    refine Eq.trans hsnd (map_congr_left fun position _ => ?_)
    exact map_getElem?_zip_snd h position

end Positions

namespace BlockAssembler

/-- `replayState` -/
def replayState (assembler : BlockAssembler) : Except String (Option ReplayEnvelope) :=
  assembler.assembled.map Prod.snd

def isPruned (assembler : BlockAssembler) (block : ContentBlock) : Bool :=
  assembler.finish.isTruncated && !isKept block

variable {all : List ContentBlock} {entries : List Json} {assembler : BlockAssembler}
variable {replay : ReplayEnvelope} {chunk : StreamChunk}

theorem keptEntries_of_length
    (hlength : entries.length = all.length) (h : (all.filter isKept).length = all.length) :
    keptEntries all entries = entries := by
  have hall : ∀ block ∈ all, isKept block = true := length_filter_eq_length_iff.mp h
  have hzip : (all.zip entries).filter (fun pair => isKept pair.1) = all.zip entries := by
    apply filter_eq_self.mpr
    intro pair hpair
    exact hall pair.1 (of_mem_zip hpair).1
  rw [keptEntries, hzip, map_snd_zip (Nat.le_of_eq hlength)]

theorem assembled_of_envelope
    {response : Json} {given : List Json} (hall : assembleAll assembler.partials.entries = .ok all)
    (henvelope : assembler.envelope = some ⟨response, some given⟩) :
    assembler.assembled =
      let blocks := if assembler.finish.isTruncated then all.filter isKept else all
      if given.length ≠ all.length then .ok (blocks, none)
      else if !assembler.finish.isTruncated || blocks.length == all.length then
        .ok (blocks, some ⟨response, some given⟩)
      else .ok (blocks, some ⟨response, some (keptEntries all given)⟩) := by
  simp only [assembled, hall, henvelope]
  rfl

theorem assembled_entries {blocks : List ContentBlock}
    (h : assembler.assembled = .ok (blocks, some replay)) (hentries : replay.blocks = some entries) :
    ∃ all given, assembleAll assembler.partials.entries = .ok all ∧
      assembler.envelope = some ⟨replay.response, some given⟩ ∧ given.length = all.length ∧
      blocks = all.filter (fun block => !assembler.isPruned block) ∧
      entries = ((all.zip given).filter fun pair => !assembler.isPruned pair.1).map Prod.snd := by
  cases hall : assembleAll assembler.partials.entries with
  | error message => simp [assembled, hall] at h
  | ok all =>
    obtain ⟨response, given, henvelope⟩ : ∃ response given,
        assembler.envelope = some ⟨response, some given⟩ := by
      cases henvelope : assembler.envelope with
      | none => simp [assembled, hall, henvelope] at h
      | some envelope =>
        obtain ⟨response, given⟩ := envelope
        cases given with
        | none =>
          simp only [assembled, hall, henvelope, Except.ok.injEq, Prod.mk.injEq,
            Option.some.injEq] at h
          rw [← h.2] at hentries
          cases hentries
        | some given => exact ⟨response, given, rfl⟩
    rw [assembled_of_envelope hall henvelope] at h
    dsimp only at h
    split at h
    · simp at h
    · rename_i hlength
      rw [ne_eq, not_not] at hlength
      cases htruncated : assembler.finish.isTruncated with
      | false =>
        simp only [htruncated, Bool.not_false, Bool.true_or, if_true, Bool.false_eq_true,
          if_false, Except.ok.injEq, Prod.mk.injEq, Option.some.injEq] at h
        obtain ⟨rfl, rfl⟩ := h
        cases hentries
        refine ⟨all, entries, rfl, henvelope, hlength, ?_, ?_⟩
        · apply (filter_eq_self.mpr _).symm
          intro block _
          simp [isPruned, htruncated]
        · rw [filter_eq_self.mpr, map_snd_zip (Nat.le_of_eq hlength)]
          intro pair _
          simp [isPruned, htruncated]
      | true =>
        have hkept (block : ContentBlock) : (!assembler.isPruned block) = isKept block := by
          simp [isPruned, htruncated]
        simp only [htruncated, Bool.not_true, Bool.false_or, if_true, beq_iff_eq] at h
        simp only [hkept]
        split at h
        · rename_i hnone
          simp only [Except.ok.injEq, Prod.mk.injEq, Option.some.injEq] at h
          obtain ⟨rfl, rfl⟩ := h
          cases hentries
          exact ⟨all, entries, rfl, henvelope, hlength, rfl,
            (keptEntries_of_length hlength hnone).symm⟩
        · simp only [Except.ok.injEq, Prod.mk.injEq, Option.some.injEq] at h
          obtain ⟨rfl, rfl⟩ := h
          cases hentries
          exact ⟨all, given, rfl, henvelope, hlength, rfl, rfl⟩

theorem envelope_push (assembler : BlockAssembler) (h : chunkType chunk ≠ "finish") :
    (assembler.push chunk).envelope = assembler.envelope ∧
      (assembler.push chunk).finishReason = assembler.finishReason := by
  cases chunk with
  | finish reason replayState => exact absurd rfl h
  | _ => exact ⟨rfl, rfl⟩

theorem exists_finish (h : chunkType chunk = "finish") :
    ∃ reason replayState, chunk = .finish reason replayState := by
  cases chunk with
  | finish reason replayState => exact ⟨reason, replayState, rfl⟩
  | _ => simp [chunkType] at h

theorem pushAll_finish {chunks : List StreamChunk} (h : (pushAll chunks).envelope = some replay) :
    ∃ before reason after, chunks = before ++ .finish reason (some replay) :: after ∧
      (∀ chunk ∈ after, chunkType chunk ≠ "finish") ∧
      (pushAll chunks).finish = reason := by
  induction chunks using reverseRecOn with
  | nil => cases h
  | append_singleton chunks chunk ih =>
    rw [pushAll, foldl_append] at h ⊢
    by_cases hfinish : chunkType chunk = "finish"
    · obtain ⟨reason, replayState, rfl⟩ := exists_finish hfinish
      change replayState = some replay at h
      subst h
      exact ⟨chunks, reason, [], rfl, by simp, rfl⟩
    · obtain ⟨henvelope, hreason⟩ := envelope_push (pushAll chunks) hfinish
      obtain ⟨before, reason, after, hchunks, hafter, hlast⟩ := ih (henvelope.symm.trans h)
      refine ⟨before, reason, after ++ [chunk], ?_, ?_, ?_⟩
      · rw [hchunks, append_assoc]
        rfl
      · intro other hother
        rcases mem_append.mp hother with hother | hother
        · exact hafter other hother
        · rw [mem_singleton.mp hother]
          exact hfinish
      · rw [← hlast]
        exact congrArg (Option.getD · FinishReason.stop) hreason

end BlockAssembler

section Aligned

open BlockAssembler

/-- The entries of replay metadata that go with the blocks of a response, where `seen` are all
the blocks of the stream and `given` are the entries that the provider gave for them. -/
structure Aligned (isPruned : ContentBlock → Bool) (seen : List ContentBlock) (given : List Json)
    (blocks : List ContentBlock) (entries : List Json) (positions : List Nat) : Prop where
  length : entries.length = blocks.length
  ordered : positions.Pairwise (· < ·)
  kept : ∀ position, position ∈ positions ↔
    ∃ block, seen[position]? = some block ∧ isPruned block = false
  blocks : blocks.map some = positions.map (seen[·]?)
  entries : entries.map some = positions.map (given[·]?)

/-- The replay metadata of a stream, when it has entries, has one for each block that is returned,
in their order: that which the last finish chunk gave for the block. -/
theorem replayState_aligned (chunks : List StreamChunk) {blocks : List ContentBlock}
    {replay : ReplayEnvelope} {entries : List Json} (hblocks : (pushAll chunks).blocks = .ok blocks)
    (hreplay : (pushAll chunks).replayState = .ok (some replay))
    (hentries : replay.blocks = some entries) :
    ∃ before reason given after seen positions,
      chunks = before ++ .finish reason (some ⟨replay.response, some given⟩) :: after ∧
      (∀ chunk ∈ after, chunkType chunk ≠ "finish") ∧
      assembleAll (pushAll chunks).partials.entries = .ok seen ∧ given.length = seen.length ∧
      Aligned (fun block => reason.isTruncated && (asToolCall block).isSome) seen given blocks
        entries positions := by
  have hassembled : (pushAll chunks).assembled = .ok (blocks, some replay) := by
    unfold BlockAssembler.blocks at hblocks
    unfold BlockAssembler.replayState at hreplay
    cases hassembled : (pushAll chunks).assembled with
    | error message =>
      rw [hassembled] at hblocks
      cases hblocks
    | ok result =>
      rw [hassembled] at hblocks hreplay
      cases hblocks
      obtain ⟨blocks, found⟩ := result
      cases hreplay
      rfl
  obtain ⟨seen, given, hseen, henvelope, hlength, rfl, rfl⟩ := assembled_entries hassembled hentries
  obtain ⟨before, reason, after, hchunks, hafter, hreason⟩ := pushAll_finish henvelope
  have hpruned (block : ContentBlock) : (pushAll chunks).isPruned block =
      (reason.isTruncated && (asToolCall block).isSome) := by
    rw [BlockAssembler.isPruned, hreason, isKept, Option.not_isNone]
  obtain ⟨positions, hordered, hkept, hfirst, hsecond⟩ :=
    exists_positions_zip (fun block => !(pushAll chunks).isPruned block) hlength
  refine ⟨before, reason, given, after, seen, positions, hchunks, hafter, hseen, hlength, ?_⟩
  constructor
  · have hlengths := congrArg length hfirst
    have hothers := congrArg length hsecond
    rw [length_map, length_map] at hlengths
    rw [length_map, @List.length_map _ _ positions] at hothers
    exact hothers.trans hlengths.symm
  · exact hordered
  · intro position
    simp only [hkept, hpruned, Bool.not_eq_true']
  · exact hfirst
  · exact hsecond

def truncatedStream : List StreamChunk :=
  [.textDelta 4 "a", .toolCallDelta 0 "c" (some "read") "\x7b", .textDelta 2 "b",
    .finish .maxTokens (some ⟨.null, some [.str "a", .str "call", .str "b"]⟩)]

theorem replayState_aligned_truncated :
    ∃ before reason given after seen positions,
      truncatedStream = before ++ .finish reason (some ⟨.null, some given⟩) :: after ∧
      (∀ chunk ∈ after, chunkType chunk ≠ "finish") ∧
      assembleAll (pushAll truncatedStream).partials.entries = .ok seen ∧
      given.length = seen.length ∧
      Aligned (fun block => reason.isTruncated && (asToolCall block).isSome) seen given
        [.text "a", .text "b"] [.str "a", .str "b"] positions :=
  @replayState_aligned truncatedStream [.text "a", .text "b"]
    ⟨.null, some [.str "a", .str "b"]⟩ [.str "a", .str "b"] rfl rfl rfl

end Aligned

end DshKernel.Llm
